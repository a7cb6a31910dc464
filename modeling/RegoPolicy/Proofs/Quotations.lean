import RegoPolicy.Proofs.Utf8

/-!
What a string stands for, told apart from any reader: every symbol for itself and every escape for
a character, where two escapes that are a pair of surrogates make one and a surrogate alone makes
none. A string is read exactly if it stands for a text, and then as that text.
-/
namespace RegoPolicy.Json

open Text

inductive EscapeOf : List Symbol → Char → Prop where
  | letter {l c : Char} (known : simpleEscape? l = some c) : EscapeOf [.char l] c
  | code {digits : List Symbol} {n : Nat} (four : digits.length = 4)
      (hex : hexNumber? digits = some n) (notHigh : isHighSurrogate n = false)
      (notLow : isLowSurrogate n = false) : EscapeOf (.char 'u' :: digits) (Char.ofNat n)
  | pair {high low : List Symbol} {n m : Nat} (highFour : high.length = 4)
      (highHex : hexNumber? high = some n) (isHigh : isHighSurrogate n = true)
      (lowFour : low.length = 4) (lowHex : hexNumber? low = some m)
      (isLow : isLowSurrogate m = true) :
      EscapeOf (.char 'u' :: (high ++ .char '\\' :: .char 'u' :: low))
        (Char.ofNat (0x10000 + (n - 0xD800) * 0x400 + (m - 0xDC00)))

inductive Denotes : List Symbol → List Symbol → Prop where
  | nil : Denotes [] []
  | plain {s : Symbol} {rest found : List Symbol} (inside : s ≠ .char '"') (bare : s ≠ .char '\\')
      (printable : isControl s = false) (tail : Denotes rest found) :
      Denotes (s :: rest) (s :: found)
  | escaped {e rest found : List Symbol} {c : Char} (escape : EscapeOf e c)
      (tail : Denotes rest found) : Denotes (.char '\\' :: (e ++ rest)) (.char c :: found)

theorem hexNumber?_four {digits : List Symbol} (four : digits.length = 4) (rest : List Symbol) :
    hexNumber? (digits ++ rest) = hexNumber? digits := by
  match digits with
  | [a, b, c, d] => rfl

theorem hexEscape_eq_ok {input : List Symbol} {n : Nat} :
    hexEscape input = .ok n ↔ hexNumber? input = some n := by
  unfold hexEscape
  cases hexNumber? input with
  | some m => simp
  | none =>
    simp only [reduceCtorEq, iff_false]
    split <;> simp

theorem hexEscape_sound {input : List Symbol} {n : Nat} (read : hexEscape input = .ok n) :
    ∃ digits rest, digits.length = 4 ∧ hexNumber? digits = some n ∧ input = digits ++ rest := by
  have number := hexEscape_eq_ok.1 read
  obtain ⟨digits, rest, four, -, rfl⟩ := (hexNumber?_isSome input).1 (by simp [number])
  rw [hexNumber?_four four] at number
  exact ⟨digits, rest, four, number, rfl⟩

theorem hexEscape_complete {digits : List Symbol} {n : Nat} (four : digits.length = 4)
    (hex : hexNumber? digits = some n) (rest : List Symbol) :
    hexEscape (digits ++ rest) = .ok n := by
  rw [hexEscape_eq_ok, hexNumber?_four four, hex]

theorem readEscape_complete {e : List Symbol} {c : Char} (escape : EscapeOf e c)
    (rest : List Symbol) : readEscape (e ++ rest) = .ok (c, e.length) := by
  cases escape with
  | @letter l c known =>
    have other : l ≠ 'u' := by
      intro same
      simp [same, simpleEscape?] at known
    simp only [List.cons_append, List.nil_append, readEscape]
    split <;> simp_all
  | code four hex notHigh notLow =>
    simp [readEscape, hexEscape_complete four hex, notHigh, notLow, four, bind, Except.bind, pure,
      Except.pure]
  | @pair high low n m highFour highHex isHigh lowFour lowHex isLow =>
    have notLow : isLowSurrogate n = false := by
      simp only [isHighSurrogate, Bool.and_eq_true, decide_eq_true_eq] at isHigh
      simp only [isLowSurrogate, Bool.and_eq_false_iff, decide_eq_false_iff_not]
      omega
    have after : (high ++ .char '\\' :: .char 'u' :: low ++ rest).drop 4 =
        .char '\\' :: .char 'u' :: (low ++ rest) := by
      rw [List.append_assoc, List.drop_append_of_le_length (by omega), ← highFour, List.drop_length]
      rfl
    have first := hexEscape_complete highFour highHex (.char '\\' :: .char 'u' :: low ++ rest)
    rw [← List.append_assoc] at first
    have second : lowSurrogate (.char '\\' :: .char 'u' :: (low ++ rest)) = .ok m := by
      simp [lowSurrogate, hexEscape_complete lowFour lowHex, isLow]
    simp only [List.cons_append] at first after ⊢
    simp only [readEscape, first, after, second, notLow, isHigh, bind, Except.bind, pure,
      Except.pure]
    simp [highFour, lowFour]

theorem lowSurrogate_sound {input : List Symbol} {m : Nat} (read : lowSurrogate input = .ok m) :
    ∃ low rest, low.length = 4 ∧ hexNumber? low = some m ∧ isLowSurrogate m = true ∧
      input = .char '\\' :: .char 'u' :: (low ++ rest) := by
  unfold lowSurrogate at read
  split at read
  · cases read
  · split at read
    · cases read
    · rename_i backslash
      split at read
      · cases read
      · split at read
        · cases read
        · rename_i letter
          split at read
          · cases read
          · rename_i code
            split at read
            · rename_i isLow
              cases read
              obtain ⟨low, rest, four, hex, rfl⟩ := hexEscape_sound code
              exact ⟨low, rest, four, hex, isLow, by simp_all⟩
            · cases read

theorem readEscape_sound {input : List Symbol} {c : Char} {size : Nat}
    (read : readEscape input = .ok (c, size)) :
    ∃ e rest, EscapeOf e c ∧ e.length = size ∧ input = e ++ rest := by
  unfold readEscape at read
  split at read
  · cases read
  · rename_i tail
    cases code : hexEscape tail with
    | error f => simp [code, bind, Except.bind] at read
    | ok n =>
      obtain ⟨digits, rest, four, hex, rfl⟩ := hexEscape_sound code
      have after : (digits ++ rest).drop 4 = rest := by rw [← four, List.drop_left]
      simp only [code, after, bind, Except.bind] at read
      split at read
      · cases read
      · rename_i notLow
        split at read
        · rename_i isHigh
          cases second : lowSurrogate rest with
          | error f => simp [second] at read
          | ok m =>
            obtain ⟨low, rest, lowFour, lowHex, isLow, rfl⟩ := lowSurrogate_sound second
            simp only [second] at read
            obtain ⟨rfl, rfl⟩ := Prod.mk.inj (Except.ok.inj read)
            exact ⟨_, rest, .pair four hex isHigh lowFour lowHex isLow, by simp [four, lowFour],
              by simp⟩
        · rename_i notHigh
          cases read
          exact ⟨_, rest, .code four hex (by simpa using notHigh) (by simpa using notLow),
            by simp [four], rfl⟩
  · cases read
  · split at read
    · rename_i known
      cases read
      exact ⟨_, _, .letter known, rfl, rfl⟩
    · cases read

theorem readSymbols_complete {q out : List Symbol} (denotes : Denotes q out)
    (found rest : List Symbol) :
    readSymbols found 0 (q ++ .char '"' :: rest) = .ok (found.reverse ++ out, rest) := by
  induction denotes generalizing found with
  | nil => simp [readSymbols]
  | plain inside bare printable tail ih => simp [readSymbols, inside, bare, printable, ih]
  | @escaped e q out c escape tail ih =>
    have read := readEscape_complete escape (q ++ .char '"' :: rest)
    rw [List.cons_append, List.append_assoc, readSymbols_escaped read, ih]
    simp

theorem readSymbols_sound {found input all rest : List Symbol} {skip : Nat}
    (read : readSymbols found skip input = .ok (all, rest)) :
    ∃ skipped q out, skipped.length = skip ∧ Denotes q out ∧ all = found.reverse ++ out ∧
      input = skipped ++ (q ++ .char '"' :: rest) := by
  induction input generalizing found skip with
  | nil => simp [readSymbols] at read
  | cons s tail ih =>
    cases skip with
    | succ skip =>
      obtain ⟨skipped, q, out, length, denotes, total, split⟩ :=
        ih (by simpa [readSymbols] using read)
      exact ⟨s :: skipped, q, out, by simp [length], denotes, total, by simp [split]⟩
    | zero =>
      simp only [readSymbols] at read
      split at read
      · rename_i quote
        cases read
        exact ⟨[], [], [], rfl, .nil, by simp, by simp [quote]⟩
      · rename_i inside
        split at read
        · rename_i backslash
          split at read
          · cases read
          · rename_i c size taken
            obtain ⟨skipped, q, out, length, denotes, total, split⟩ := ih read
            obtain ⟨e, after, escape, same, front⟩ := readEscape_sound taken
            -- the symbols passed over are the escape itself
            have whole : skipped = e :=
              (List.append_inj (split.symm.trans front) (length.trans same.symm)).1
            refine ⟨[], _, _, rfl, .escaped escape denotes, by simp [total], ?_⟩
            simp [backslash, split, whole]
        · rename_i bare
          split at read
          · cases read
          · rename_i printable
            obtain ⟨skipped, q, out, length, denotes, total, split⟩ := ih read
            have none : skipped = [] := List.length_eq_zero_iff.1 length
            refine ⟨[], s :: q, s :: out, rfl, ?_, by simp [total], by simp [split, none]⟩
            exact .plain inside bare (by simpa using printable) denotes

theorem EscapeOf.content {e rest : List Symbol} {c : Char} (escape : EscapeOf e c)
    (tail : Content rest) : Content (.char '\\' :: (e ++ rest)) := by
  have hex {digits : List Symbol} {n : Nat} (four : digits.length = 4)
      (number : hexNumber? digits = some n) : Escape (.char 'u' :: digits) := by
    obtain ⟨ds, more, length, each, split⟩ := (hexNumber?_isSome digits).1 (by simp [number])
    have none : more = [] := by
      have total := congrArg List.length split
      rw [List.length_append, four, length] at total
      exact List.length_eq_zero_iff.1 (by omega)
    rw [none, List.append_nil] at split
    exact .code digits four (split ▸ each)
  cases escape with
  | letter known => exact .escaped (.letter _ (by simp [known])) tail
  | code four number notHigh notLow => exact .escaped (hex four number) tail
  | pair highFour high isHigh lowFour low isLow =>
    have second := Content.escaped (hex lowFour low) tail
    have first := Content.escaped (hex highFour high) second
    simpa using first

theorem Denotes.content {q out : List Symbol} (denotes : Denotes q out) : Content q := by
  induction denotes with
  | nil => exact .nil
  | plain inside bare printable tail ih => exact .plain inside bare printable ih
  | escaped escape tail ih => exact escape.content ih

theorem readString_complete {q : List Symbol} {s : String} (denotes : Denotes q (ofString s))
    (rest : List Symbol) : readString (q ++ .char '"' :: rest) = .ok (s, rest) := by
  have read := readSymbols_complete denotes [] rest
  simp [readString, read, toString?_ofString, bind, Except.bind]

theorem readString_sound {input rest : List Symbol} {s : String}
    (read : readString input = .ok (s, rest)) :
    ∃ q, Denotes q (ofString s) ∧ input = q ++ .char '"' :: rest := by
  unfold readString at read
  cases symbols : readSymbols [] 0 input with
  | error f => simp [symbols, bind, Except.bind] at read
  | ok taken =>
    obtain ⟨all, left⟩ := taken
    obtain ⟨skipped, q, out, length, denotes, total, split⟩ := readSymbols_sound symbols
    have none : skipped = [] := List.length_eq_zero_iff.1 length
    simp only [symbols, bind, Except.bind] at read
    split at read
    · rename_i text
      cases read
      have chars := eq_ofString text
      rw [total, List.reverse_nil, List.nil_append] at chars
      exact ⟨q, chars ▸ denotes, by simp [split, none]⟩
    · cases read

structure Quotation where
  symbols : List Symbol
  content : Content symbols

/-- The text that a string stands for, if it does for one. -/
def Quotation.text? (q : Quotation) : Option String :=
  (readString (q.symbols ++ [.char '"'])).toOption.map (·.1)

theorem Quotation.readString_eq_ok (q : Quotation) {rest after : List Symbol} {s : String} :
    readString (q.symbols ++ .char '"' :: rest) = .ok (s, after) ↔
      Denotes q.symbols (ofString s) ∧ after = rest := by
  constructor
  · intro read
    obtain ⟨other, denotes, split⟩ := readString_sound read
    have here := scanString_complete q.content rest
    rw [split, scanString_complete denotes.content after] at here
    cases here
    exact ⟨List.append_cancel_right split ▸ denotes, rfl⟩
  · rintro ⟨denotes, rfl⟩
    exact readString_complete denotes after

theorem Quotation.text?_eq_some (q : Quotation) (s : String) :
    q.text? = some s ↔ Denotes q.symbols (ofString s) := by
  unfold Quotation.text?
  constructor
  · intro text
    obtain ⟨taken, read, rfl⟩ := Option.map_eq_some_iff.1 text
    cases whole : readString (q.symbols ++ [.char '"']) with
    | error f => simp [whole, Except.toOption] at read
    | ok pair =>
      rw [whole] at read
      cases read
      exact (q.readString_eq_ok.1 whole).1
  · intro denotes
    rw [q.readString_eq_ok.2 ⟨denotes, rfl⟩]
    rfl

theorem Quotation.read (q : Quotation) (rest : List Symbol) :
    (readString (q.symbols ++ .char '"' :: rest)).toOption = q.text?.map fun s => (s, rest) := by
  cases text : q.text? with
  | some s =>
    rw [q.readString_eq_ok.2 ⟨(q.text?_eq_some s).1 text, rfl⟩]
    rfl
  | none =>
    cases whole : readString (q.symbols ++ .char '"' :: rest) with
    | error f => rfl
    | ok taken =>
      obtain ⟨s, after⟩ := taken
      have known := (q.text?_eq_some s).2 (q.readString_eq_ok.1 whole).1
      rw [text] at known
      cases known

def Quotation.ofText (s : String) : Quotation where
  symbols := Json.content s
  content := by
    obtain ⟨q, denotes, split⟩ := readString_sound (readString_content s [])
    exact List.append_cancel_right split ▸ denotes.content

theorem Quotation.text?_ofText (s : String) : (Quotation.ofText s).text? = some s := by
  simp [Quotation.text?, Quotation.ofText, readString_content, Except.toOption]

end RegoPolicy.Json
