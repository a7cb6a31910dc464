import RegoPolicy.Proofs.Grammar

/-!
The scanner takes exactly the lexemes of the grammar: space, words, strings, numbers and names of
members. Each is stated as what the scanner takes in front of what it leaves; a number is taken as
far as it goes, so what follows it must not go on with it.
-/
namespace RegoPolicy.Json

open Text

theorem skipSpace_split (input : List Symbol) :
    ∃ space, Blank space ∧ input = space ++ skipSpace input := by
  refine ⟨input.takeWhile isSpace, ?_, ?_⟩
  · exact List.all_eq_true.1 List.all_takeWhile
  · exact (List.takeWhile_append_dropWhile).symm

theorem skipSpace_append {space : List Symbol} (blank : Blank space) (rest : List Symbol) :
    skipSpace (space ++ rest) = skipSpace rest := by
  induction space with
  | nil => rfl
  | cons s space ih =>
    have here : isSpace s = true := blank s List.mem_cons_self
    have there : Blank space := fun t member => blank t (List.mem_cons_of_mem s member)
    simpa [skipSpace, here] using ih there

theorem blank_skipped {space : List Symbol} (blank : Blank space) : skipSpace space = [] := by
  have skipped := skipSpace_append blank []
  simpa [skipSpace] using skipped

theorem skipSpace_of_solid {s : Symbol} (solid : isSpace s = false) (rest : List Symbol) :
    skipSpace (s :: rest) = s :: rest := by
  simp [skipSpace, solid]

theorem expectWord_ok_iff (word : List Char) (input rest : List Symbol) :
    expectWord word input = .ok rest ↔ input = word.map .char ++ rest := by
  induction word generalizing input with
  | nil => simp [expectWord]
  | cons c word ih =>
    cases input with
    | nil => simp [expectWord]
    | cons s input =>
      by_cases same : s = .char c
      · simp [expectWord, same, ih]
      · simp [expectWord, same]

theorem hexNumber?_isSome (input : List Symbol) :
    (hexNumber? input).isSome = true ↔
      ∃ digits rest, digits.length = 4 ∧ (∀ s ∈ digits, (hexDigit? s).isSome = true) ∧
        input = digits ++ rest := by
  constructor
  · intro some
    match input with
    | a :: b :: c :: d :: rest =>
      refine ⟨[a, b, c, d], rest, rfl, ?_, rfl⟩
      simp only [hexNumber?] at some
      cases ha : hexDigit? a <;> cases hb : hexDigit? b <;> cases hc : hexDigit? c <;>
        cases hd : hexDigit? d <;> simp_all
    | [] | [_] | [_, _] | [_, _, _] => simp [hexNumber?] at some
  · rintro ⟨digits, rest, four, hex, rfl⟩
    match digits with
    | [a, b, c, d] =>
      obtain ⟨x, hx⟩ := Option.isSome_iff_exists.1 (hex a (by simp))
      obtain ⟨y, hy⟩ := Option.isSome_iff_exists.1 (hex b (by simp))
      obtain ⟨z, hz⟩ := Option.isSome_iff_exists.1 (hex c (by simp))
      obtain ⟨w, hw⟩ := Option.isSome_iff_exists.1 (hex d (by simp))
      simp [hexNumber?, hx, hy, hz, hw]

theorem hexEscape_isOk (input : List Symbol) :
    (∃ n, hexEscape input = .ok n) ↔ (hexNumber? input).isSome = true := by
  unfold hexEscape
  cases hexNumber? input with
  | some n => simp
  | none =>
    simp only [Option.isSome_none, Bool.false_eq_true, iff_false]
    rintro ⟨n, equal⟩
    split at equal <;> cases equal

theorem scanEscape_sound {input : List Symbol} {n : Nat} (scanned : scanEscape input = .ok n) :
    ∃ e rest, Escape e ∧ e.length = n ∧ input = e ++ rest := by
  unfold scanEscape at scanned
  split at scanned
  · cases scanned
  · rename_i rest
    cases code : hexEscape rest with
    | error f => simp [code, bind, Except.bind] at scanned
    | ok m =>
      have length : 5 = n := by
        simpa [code, bind, Except.bind, pure, Except.pure] using scanned
      obtain ⟨digits, left, four, hex, split⟩ :=
        (hexNumber?_isSome rest).1 ((hexEscape_isOk rest).1 ⟨m, code⟩)
      refine ⟨.char 'u' :: digits, left, .code digits four hex, ?_, ?_⟩
      · simp [four, ← length]
      · simp [split]
  · cases scanned
  · rename_i c rest _
    split at scanned
    · rename_i d known
      refine ⟨[.char c], rest, .letter c (by simp [known]), ?_, rfl⟩
      simpa using scanned
    · cases scanned

theorem scanEscape_complete {e : List Symbol} (escape : Escape e) (rest : List Symbol) :
    scanEscape (e ++ rest) = .ok e.length := by
  cases escape with
  | letter c known =>
    obtain ⟨d, hd⟩ := Option.isSome_iff_exists.1 known
    have other : c ≠ 'u' := by
      rintro rfl
      simp [simpleEscape?] at hd
    simp only [List.cons_append, List.nil_append, scanEscape]
    split <;> simp_all
  | code digits four hex =>
    obtain ⟨n, number⟩ :=
      (hexEscape_isOk (digits ++ rest)).2 ((hexNumber?_isSome _).2 ⟨digits, rest, four, hex, rfl⟩)
    simp [scanEscape, number, bind, Except.bind, pure, Except.pure, four]

theorem scanSymbols_sound {n : Nat} {input rest : List Symbol}
    (scanned : scanSymbols n input = .ok rest) :
    ∃ skipped content, skipped.length = n ∧ Content content ∧
      input = skipped ++ (content ++ .char '"' :: rest) := by
  induction input generalizing n with
  | nil => simp [scanSymbols] at scanned
  | cons s tail ih =>
    cases n with
    | succ n =>
      obtain ⟨skipped, content, length, inside, split⟩ := ih (by simpa [scanSymbols] using scanned)
      exact ⟨s :: skipped, content, by simp [length], inside, by simp [split]⟩
    | zero =>
      simp only [scanSymbols] at scanned
      split at scanned
      · rename_i quote
        cases scanned
        exact ⟨[], [], rfl, .nil, by simp [quote]⟩
      · rename_i inside
        split at scanned
        · rename_i backslash
          cases taken : scanEscape tail with
          | error f => simp [taken] at scanned
          | ok m =>
            obtain ⟨skipped, content, length, tailContent, split⟩ :=
              ih (by simpa [taken] using scanned)
            obtain ⟨e, after, escape, size, front⟩ := scanEscape_sound taken
            -- the symbols passed over are the escape itself
            have same : skipped = e :=
              (List.append_inj (split.symm.trans front) (length.trans size.symm)).1
            refine ⟨[], .char '\\' :: (e ++ content), rfl, .escaped escape tailContent, ?_⟩
            simp [backslash, split, same]
        · rename_i bare
          split at scanned
          · cases scanned
          · rename_i printable
            obtain ⟨skipped, content, length, tailContent, split⟩ := ih scanned
            have none : skipped = [] := List.length_eq_zero_iff.1 length
            refine ⟨[], s :: content, rfl, ?_, by simp [split, none]⟩
            exact .plain inside bare (by simpa using printable) tailContent

theorem scanSymbols_skip (skipped rest : List Symbol) :
    scanSymbols skipped.length (skipped ++ rest) = scanSymbols 0 rest := by
  induction skipped with
  | nil => rfl
  | cons s skipped ih => simpa [scanSymbols] using ih

theorem scanString_complete {content : List Symbol} (inside : Content content)
    (rest : List Symbol) : scanString (content ++ .char '"' :: rest) = .ok rest := by
  unfold scanString
  induction inside with
  | nil => simp [scanSymbols]
  | plain inside bare printable tail ih => simp [scanSymbols, inside, bare, printable, ih]
  | @escaped e content escape tail ih =>
    have taken := scanEscape_complete escape (content ++ .char '"' :: rest)
    have after := scanSymbols_skip e (content ++ .char '"' :: rest)
    simp [scanSymbols, taken, after, ih]

theorem scanString_sound {input rest : List Symbol} (scanned : scanString input = .ok rest) :
    ∃ content, Content content ∧ input = content ++ .char '"' :: rest := by
  obtain ⟨skipped, content, length, inside, split⟩ := scanSymbols_sound scanned
  have none : skipped = [] := List.length_eq_zero_iff.1 length
  exact ⟨content, inside, by simp [split, none]⟩

theorem skipDigits_split (input : List Symbol) :
    ∃ ds, (∀ s ∈ ds, (digit? s).isSome = true) ∧ input = ds ++ skipDigits input := by
  refine ⟨input.takeWhile fun s => (digit? s).isSome, ?_, ?_⟩
  · exact List.all_eq_true.1 List.all_takeWhile
  · exact (List.takeWhile_append_dropWhile).symm

theorem skipDigits_append {ds rest : List Symbol} (digits : ∀ s ∈ ds, (digit? s).isSome = true)
    (stop : startsWithDigit rest = false) : skipDigits (ds ++ rest) = rest := by
  induction ds with
  | nil =>
    cases rest with
    | nil => rfl
    | cons s rest =>
      have other : (digit? s).isSome = false := stop
      simp [skipDigits, other]
  | cons s ds ih =>
    have here := digits s List.mem_cons_self
    have there := ih fun t member => digits t (List.mem_cons_of_mem s member)
    simpa [skipDigits, here] using there

theorem leading_digits {input : List Symbol} (starts : startsWithDigit input = true) :
    ∃ ds, Digits ds ∧ input = ds ++ skipDigits input := by
  cases input with
  | nil => simp [startsWithDigit] at starts
  | cons s rest =>
    have here : (digit? s).isSome = true := starts
    obtain ⟨ds, digits, split⟩ := skipDigits_split rest
    have passed : skipDigits (s :: rest) = skipDigits rest := by simp [skipDigits, here]
    refine ⟨s :: ds, ⟨by simp, ?_⟩, ?_⟩
    · intro t member
      rcases List.mem_cons.1 member with first | later
      · exact first ▸ here
      · exact digits t later
    · rw [passed, List.cons_append, ← split]

theorem starts_of_digits {ds : List Symbol} (digits : Digits ds) (rest : List Symbol) :
    startsWithDigit (ds ++ rest) = true := by
  obtain ⟨nonempty, all⟩ := digits
  cases ds with
  | nil => exact absurd rfl nonempty
  | cons s ds => exact all s List.mem_cons_self

theorem digits_taken {input rest : List Symbol} {f : Fault}
    (taken : (if startsWithDigit input then .ok (skipDigits input) else .error f) =
      (.ok rest : Except Fault (List Symbol))) : ∃ ds, Digits ds ∧ input = ds ++ rest := by
  split at taken
  · rename_i starts
    obtain ⟨ds, digits, split⟩ := leading_digits starts
    cases taken
    exact ⟨ds, digits, split⟩
  · cases taken

theorem scanExponent_sound {input rest : List Symbol} (scanned : scanExponent input = .ok rest) :
    ∃ sign ds, Sign sign ∧ Digits ds ∧ input = sign ++ (ds ++ rest) := by
  simp only [scanExponent] at scanned
  split at scanned
  · obtain ⟨ds, digits, split⟩ := digits_taken scanned
    exact ⟨_, ds, .plus, digits, by simp [split]⟩
  · obtain ⟨ds, digits, split⟩ := digits_taken scanned
    exact ⟨_, ds, .minus, digits, by simp [split]⟩
  · obtain ⟨ds, digits, split⟩ := digits_taken scanned
    exact ⟨_, ds, .none, digits, by simp [split]⟩

theorem exponent_of_mark {input rest : List Symbol} (marked : startsExponent input = true)
    (scanned : scanExponent (input.drop 1) = .ok rest) :
    ∃ e, Exponent e ∧ input = e ++ rest := by
  cases input with
  | nil => simp [startsExponent] at marked
  | cons s input =>
    have mark : s = .char 'e' ∨ s = .char 'E' := by simpa [startsExponent] using marked
    obtain ⟨sign, ds, signed, digits, split⟩ := scanExponent_sound scanned
    refine ⟨s :: (sign ++ ds), .some mark signed digits, ?_⟩
    simpa using split

theorem scanTail_sound {input rest : List Symbol} (scanned : scanTail input = .ok rest) :
    ∃ f e, Fraction f ∧ Exponent e ∧ input = f ++ (e ++ rest) := by
  unfold scanTail at scanned
  split at scanned
  · rename_i fraction
    split at scanned
    · rename_i starts
      obtain ⟨ds, digits, split⟩ := leading_digits starts
      simp only at scanned
      split at scanned
      · rename_i marked
        obtain ⟨e, exponent, after⟩ := exponent_of_mark marked scanned
        refine ⟨.char '.' :: ds, e, .some digits, exponent, ?_⟩
        rw [List.cons_append, ← after, ← split]
      · cases scanned
        refine ⟨.char '.' :: ds, [], .some digits, .none, ?_⟩
        rw [List.cons_append, List.nil_append, ← split]
    · cases scanned
  · split at scanned
    · rename_i marked
      obtain ⟨e, exponent, after⟩ := exponent_of_mark marked scanned
      exact ⟨[], e, .none, exponent, after⟩
    · cases scanned
      exact ⟨[], [], .none, .none, rfl⟩

theorem scanNumber_sound {input rest : List Symbol} (scanned : scanNumber input = .ok rest) :
    ∃ n, Unsigned n ∧ input = n ++ rest := by
  unfold scanNumber at scanned
  split at scanned
  · cases scanned
  · rename_i s tail
    split at scanned
    · cases scanned
    · rename_i zero
      split at scanned
      · cases scanned
      · obtain ⟨f, e, fraction, exponent, split⟩ := scanTail_sound scanned
        exact ⟨_, .parts (.zero s zero) fraction exponent, by simp [split]⟩
    · rename_i d positive value
      obtain ⟨f, e, fraction, exponent, after⟩ := scanTail_sound scanned
      obtain ⟨ds, digits, split⟩ := skipDigits_split tail
      have whole : Whole (s :: ds) := .digits s ds d value positive digits
      refine ⟨_, .parts whole fraction exponent, ?_⟩
      rw [split, after]
      simp

/-- What cannot go on with a number that stands in front of it. -/
def EndsNumber (rest : List Symbol) : Prop :=
  startsWithDigit rest = false ∧ startsExponent rest = false ∧ rest.head? ≠ some (.char '.')

theorem scanExponent_complete {sign ds rest : List Symbol} (signed : Sign sign) (digits : Digits ds)
    (stop : startsWithDigit rest = false) : scanExponent (sign ++ (ds ++ rest)) = .ok rest := by
  have starts := starts_of_digits digits rest
  have passed := skipDigits_append digits.2 stop
  cases signed with
  | plus => simp [scanExponent, starts, passed]
  | minus => simp [scanExponent, starts, passed]
  | none =>
    simp only [List.nil_append, scanExponent]
    split
    · rename_i equal
      rw [equal] at starts
      simp [startsWithDigit, digit?] at starts
    · rename_i equal
      rw [equal] at starts
      simp [startsWithDigit, digit?] at starts
    · simp [starts, passed]

theorem scanTail_of_exponent {e rest : List Symbol} (exponent : Exponent e)
    (ends : EndsNumber rest) :
    (if startsExponent (e ++ rest) then scanExponent ((e ++ rest).drop 1) else .ok (e ++ rest)) =
      (.ok rest : Except Fault (List Symbol)) := by
  cases exponent with
  | none => simp [ends.2.1]
  | @some s sign ds mark signed digits =>
    have marked : startsExponent (s :: (sign ++ ds) ++ rest) = true := by
      simpa [startsExponent] using mark
    have after := scanExponent_complete signed digits ends.1
    rw [if_pos marked]
    simpa using after

theorem exponent_stops_digits {e rest : List Symbol} (exponent : Exponent e)
    (ends : EndsNumber rest) : startsWithDigit (e ++ rest) = false := by
  cases exponent with
  | none => exact ends.1
  | some mark signed digits => rcases mark with rfl | rfl <;> rfl

theorem scanTail_complete {f e rest : List Symbol} (fraction : Fraction f) (exponent : Exponent e)
    (ends : EndsNumber rest) : scanTail (f ++ (e ++ rest)) = .ok rest := by
  cases fraction with
  | none =>
    have plain := scanTail_of_exponent exponent ends
    unfold scanTail
    split
    · rename_i after point
      -- the input starts neither an exponent nor the rest with a point
      exfalso
      cases exponent with
      | none => exact ends.2.2 (by simp_all)
      | some mark signed digits => rcases mark with rfl | rfl <;> simp at point
    · exact plain
  | some digits =>
    have stop := exponent_stops_digits exponent ends
    have starts := starts_of_digits digits (e ++ rest)
    have passed := skipDigits_append digits.2 stop
    have plain := scanTail_of_exponent exponent ends
    simpa [scanTail, starts, passed] using plain

theorem tail_stops_digits {f e rest : List Symbol} (fraction : Fraction f) (exponent : Exponent e)
    (ends : EndsNumber rest) : startsWithDigit (f ++ (e ++ rest)) = false := by
  cases fraction with
  | none => simpa using exponent_stops_digits exponent ends
  | some digits => rfl

theorem scanNumber_complete {n rest : List Symbol} (number : Unsigned n) (ends : EndsNumber rest) :
    scanNumber (n ++ rest) = .ok rest := by
  cases number with
  | parts whole fraction exponent =>
    have tail := scanTail_complete fraction exponent ends
    have stop := tail_stops_digits fraction exponent ends
    cases whole with
    | zero s value => simp [scanNumber, value, stop, tail]
    | digits s more d value positive all =>
      have passed := skipDigits_append all stop
      simp only [List.cons_append, List.append_assoc, scanNumber]
      rw [value]
      split
      · rename_i equal
        cases equal
      · rename_i equal
        exact absurd (Option.some.inj equal) positive
      · rw [passed, tail]

theorem scanScalar_sound {s : Symbol} {tail rest : List Symbol}
    (scanned : scanScalar s tail = .ok rest) : ∃ v, Scalar v ∧ s :: tail = v ++ rest := by
  unfold scanScalar at scanned
  split at scanned
  · have split := (expectWord_ok_iff _ _ _).1 scanned
    exact ⟨_, .null, by simp [split, ofString]⟩
  · have split := (expectWord_ok_iff _ _ _).1 scanned
    exact ⟨_, .true, by simp [split, ofString]⟩
  · have split := (expectWord_ok_iff _ _ _).1 scanned
    exact ⟨_, .false, by simp [split, ofString]⟩
  · obtain ⟨content, inside, split⟩ := scanString_sound scanned
    exact ⟨_, .string inside, by simp [split]⟩
  · obtain ⟨n, number, split⟩ := scanNumber_sound scanned
    exact ⟨_, .negative number, by simp [split]⟩
  · split at scanned
    · obtain ⟨n, number, split⟩ := scanNumber_sound scanned
      exact ⟨n, .positive number, split⟩
    · cases scanned

theorem number_starts {n : List Symbol} (number : Unsigned n) :
    ∃ s tail, n = s :: tail ∧ (digit? s).isSome = true := by
  cases number with
  | parts whole fraction exponent =>
    cases whole with
    | zero s value => exact ⟨s, _, rfl, by simp [value]⟩
    | digits s more d value positive all => exact ⟨s, _, rfl, by simp [value]⟩

theorem digit_is_solid {s : Symbol} (digit : (digit? s).isSome = true) : isSpace s = false := by
  rw [Bool.eq_false_iff]
  intro space
  simp only [isSpace, Bool.or_eq_true, decide_eq_true_eq] at space
  rcases space with ((rfl | rfl) | rfl) | rfl <;> exact absurd digit (by decide)

theorem digit_opens_nothing {s : Symbol} (digit : (digit? s).isSome = true) : opens? s = none := by
  unfold opens?
  split
  · exact absurd digit (by decide)
  · exact absurd digit (by decide)
  · rfl

theorem scanScalar_digit {s : Symbol} (digit : (digit? s).isSome = true) (tail : List Symbol) :
    scanScalar s tail = scanNumber (s :: tail) := by
  unfold scanScalar
  split
  case h_6 => rw [if_pos digit]
  all_goals exact absurd digit (by decide)

theorem scanScalar_complete {v rest : List Symbol} (scalar : Scalar v) (ends : EndsNumber rest) :
    ∃ s tail, v ++ rest = s :: tail ∧ opens? s = none ∧ isSpace s = false ∧
      scanScalar s tail = .ok rest := by
  cases scalar with
  | null => exact ⟨_, _, rfl, rfl, rfl, (expectWord_ok_iff _ _ _).2 rfl⟩
  | true => exact ⟨_, _, rfl, rfl, rfl, (expectWord_ok_iff _ _ _).2 rfl⟩
  | false => exact ⟨_, _, rfl, rfl, rfl, (expectWord_ok_iff _ _ _).2 rfl⟩
  | string inside =>
    refine ⟨_, _, rfl, rfl, rfl, ?_⟩
    simpa [scanScalar] using scanString_complete inside rest
  | negative number =>
    refine ⟨_, _, rfl, rfl, rfl, ?_⟩
    simpa [scanScalar] using scanNumber_complete number ends
  | positive number =>
    obtain ⟨s, tail, rfl, digit⟩ := number_starts number
    refine ⟨s, tail ++ rest, rfl, digit_opens_nothing digit, digit_is_solid digit, ?_⟩
    rw [scanScalar_digit digit]
    exact scanNumber_complete number ends

theorem scanKey_sound {input rest : List Symbol} (scanned : scanKey input = .ok rest) :
    ∃ space c gap, Blank space ∧ Content c ∧ Blank gap ∧
      input = space ++ .char '"' :: (c ++ .char '"' :: (gap ++ .char ':' :: rest)) := by
  obtain ⟨space, blank, split⟩ := skipSpace_split input
  unfold scanKey at scanned
  split at scanned
  · cases scanned
  · rename_i tail quote
    cases name : scanString tail with
    | error f => simp [name, bind, Except.bind] at scanned
    | ok after =>
      obtain ⟨c, content, inner⟩ := scanString_sound name
      obtain ⟨gap, apart, outer⟩ := skipSpace_split after
      simp only [name, bind, Except.bind] at scanned
      split at scanned
      · cases scanned
      · rename_i colon
        cases scanned
        refine ⟨space, c, gap, blank, content, apart, ?_⟩
        rw [split, quote, inner, outer, colon]
      · cases scanned
  · cases scanned

theorem scanKey_complete {space c gap : List Symbol} (blank : Blank space) (content : Content c)
    (apart : Blank gap) (rest : List Symbol) :
    scanKey (space ++ .char '"' :: (c ++ .char '"' :: (gap ++ .char ':' :: rest))) = .ok rest := by
  have name := scanString_complete content (gap ++ .char ':' :: rest)
  have colon : skipSpace (gap ++ .char ':' :: rest) = .char ':' :: rest := by
    rw [skipSpace_append apart, skipSpace_of_solid (by decide)]
  unfold scanKey
  rw [skipSpace_append blank, skipSpace_of_solid (by decide)]
  simp [name, colon, bind, Except.bind]

end RegoPolicy.Json
