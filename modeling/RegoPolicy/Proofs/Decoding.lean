import RegoPolicy.Proofs.Trees

/-!
Values of trees. What a text is read as depends on its tree alone, so that space never counts. The
reader agrees on every text: it gives the value of the tree or refuses a tree that has none.
-/
namespace RegoPolicy.Json

open Text

def decodeEntry (value : Tree → Option Value) (entries : List (String × Value))
    (m : Quotation × Tree) : Option (List (String × Value)) := do
  let key ← m.1.text?
  let v ← value m.2
  some (putEntry key v entries)

/-- The value of a tree that opens at most so many lists and objects inside each other. -/
def Tree.value? : Nat → Tree → Option Value
  | _, .null => some .null
  | _, .bool b => some (.bool b)
  | _, .number negative n => (n.value? negative).map .number
  | _, .string q => q.text?.map .string
  | levels + 1, .list items => (items.mapM (value? levels)).map .array
  | levels + 1, .object members => (members.foldlM (decodeEntry (value? levels)) []).map .object
  | 0, .list _ => none
  | 0, .object _ => none

def Tree.StartsWith (s : Symbol) : Tree → Prop
  | .null => s = .char 'n'
  | .bool true => s = .char 't'
  | .bool false => s = .char 'f'
  | .number true _ => s = .char '-'
  | .number false _ => (digit? s).isSome = true
  | .string _ => s = .char '"'
  | .list _ => s = .char '['
  | .object _ => s = .char '{'

theorem HasTree.starts {text : List Symbol} {t : Tree} (tree : HasTree text t) :
    ∃ s tail, text = s :: tail ∧ isSpace s = Bool.false ∧ t.StartsWith s := by
  cases tree with
  | null => exact ⟨_, _, rfl, rfl, rfl⟩
  | true => exact ⟨_, _, rfl, rfl, rfl⟩
  | false => exact ⟨_, _, rfl, rfl, rfl⟩
  | negative n => exact ⟨_, _, rfl, rfl, rfl⟩
  | string q => exact ⟨_, _, rfl, rfl, rfl⟩
  | list each joined => exact ⟨_, _, rfl, rfl, rfl⟩
  | object each joined => exact ⟨_, _, rfl, rfl, rfl⟩
  | positive n =>
    obtain ⟨s, tail, split, digit⟩ := number_starts ((unsigned_iff _).2 ⟨n, rfl⟩)
    exact ⟨s, tail, split, digit_is_solid digit, digit⟩

theorem HaveTrees.forall₂ {P : List Symbol → Tree → Prop} {parts : List (List Symbol)}
    {items : List Tree} (each : HaveTrees parts items)
    (all : ∀ text t, HasTree text t → P text t) : List.Forall₂ P parts items := by
  induction parts generalizing items with
  | nil =>
    cases each
    exact .nil
  | cons part parts ih =>
    cases each with
    | cons first rest => exact .cons (all _ _ first) (ih rest)

theorem HaveMembers.forall₂ {P : List Symbol × List Symbol → Quotation × Tree → Prop}
    {entries : List (List Symbol × List Symbol)} {members : List (Quotation × Tree)}
    (each : HaveMembers entries members)
    (all : ∀ (q : Quotation) t gap space text, Blank gap → Blank space → HasTree text t →
      P (q.symbols, gap ++ .char ':' :: (space ++ text)) (q, t)) :
    List.Forall₂ P entries members := by
  induction entries generalizing members with
  | nil =>
    cases each
    exact .nil
  | cons entry entries ih =>
    cases each with
    | cons apart blank first rest => exact .cons (all _ _ _ _ _ apart blank first) (ih rest)

section Fronts

variable {α : Type} {reader : Reader α} {s : Symbol} {tail : List Symbol} {result : Option α}

theorem ReadsAs.of_front (solid : isSpace s = false)
    (read : ∀ input rest, EndsNumber rest → skipSpace input = s :: (tail ++ rest) →
      (reader input).toOption = result.map fun a => (a, rest)) :
    ReadsAs reader (s :: tail) result := by
  intro space rest blank ends
  apply read _ rest ends
  rw [skipSpace_append blank]
  exact skipSpace_of_solid solid _

theorem stepsAs_of_key {σ : Type} {member : σ → String → Reader σ} {state : σ} (q : Quotation)
    {after : List Symbol} {act : String → Option σ}
    (each : ∀ key rest, EndsNumber rest →
      (member state key (after ++ rest)).toOption = (act key).map fun next => (next, rest)) :
    StepsAs member state (q.symbols, after) (q.text?.bind act) := by
  intro rest ends
  have read := q.read (after ++ rest)
  cases text : q.text? with
  | none =>
    rw [text] at read
    obtain ⟨f, refused⟩ := toOption_eq_none.1 read
    simp [readNamed, refused, bind, Except.bind, Except.toOption]
  | some key =>
    rw [text] at read
    have taken := toOption_eq_some.1 read
    simpa [readNamed, taken, bind, Except.bind] using each key rest ends

end Fronts

section Values

theorem readValue_scalar {levels : Nat} {input tail : List Symbol} {s : Symbol}
    (front : skipSpace input = s :: tail) (noList : s ≠ .char '[') (noObject : s ≠ .char '{') :
    readValue levels input = readScalar s tail := by
  rw [readValue, front]
  split <;> simp_all

theorem readScalar_digit {s : Symbol} (digit : (digit? s).isSome = true) (tail : List Symbol) :
    (readScalar s tail).toOption =
      (readNumber false (s :: tail)).toOption.map fun r => (.number r.1, r.2) := by
  unfold readScalar
  split
  case h_6 =>
    rw [if_pos digit]
    cases readNumber false (s :: tail) <;> rfl
  all_goals exact absurd digit (by decide)

theorem readScalar_word {s : Symbol} {word : List Char} {v : Value} (rest : List Symbol)
    (reads : ∀ tail, readScalar s tail = (do return (v, ← expectWord word tail))) :
    (readScalar s (word.map .char ++ rest)).toOption = some (v, rest) := by
  rw [reads, (expectWord_ok_iff word _ rest).2 rfl]
  rfl

theorem readScalar_tree {text rest : List Symbol} {t : Tree} (tree : HasTree text t)
    (ends : EndsNumber rest) (noList : ∀ items, t ≠ .list items)
    (noObject : ∀ members, t ≠ .object members) :
    ∃ s tail, text = s :: tail ∧ isSpace s = false ∧ s ≠ .char '[' ∧ s ≠ .char '{' ∧
      ∀ levels, (readScalar s (tail ++ rest)).toOption =
        (t.value? levels).map fun v => (v, rest) := by
  cases tree with
  | null =>
    exact ⟨.char 'n', ['u', 'l', 'l'].map .char, rfl, rfl, by decide, by decide,
      fun _ => by rw [Tree.value?]; exact readScalar_word rest fun _ => rfl⟩
  | true =>
    exact ⟨.char 't', ['r', 'u', 'e'].map .char, rfl, rfl, by decide, by decide,
      fun _ => by rw [Tree.value?]; exact readScalar_word rest fun _ => rfl⟩
  | false =>
    exact ⟨.char 'f', ['a', 'l', 's', 'e'].map .char, rfl, rfl, by decide, by decide,
      fun _ => by rw [Tree.value?]; exact readScalar_word rest fun _ => rfl⟩
  | positive n =>
    obtain ⟨s, tail, split, digit⟩ := number_starts ((unsigned_iff _).2 ⟨n, rfl⟩)
    have read := readNumber_numeral false n ends
    rw [split, List.cons_append] at read
    refine ⟨s, tail, split, digit_is_solid digit, ?_, ?_, fun levels => ?_⟩
    · rintro rfl
      exact absurd digit (by decide)
    · rintro rfl
      exact absurd digit (by decide)
    · rw [readScalar_digit digit, read]
      simp [Tree.value?, Option.map_map]
      rfl
  | negative n =>
    refine ⟨_, _, rfl, rfl, by decide, by decide, fun levels => ?_⟩
    have read := readNumber_numeral true n ends
    have sign : (readScalar (.char '-') (n.symbols ++ rest)).toOption =
        (readNumber true (n.symbols ++ rest)).toOption.map fun r => (.number r.1, r.2) := by
      simp only [readScalar]
      cases readNumber true (n.symbols ++ rest) <;> rfl
    rw [sign, read]
    simp [Tree.value?, Option.map_map]
    rfl
  | string q =>
    refine ⟨_, _, rfl, rfl, by decide, by decide, fun levels => ?_⟩
    have read := q.read rest
    have quote : (readScalar (.char '"') (q.symbols ++ [.char '"'] ++ rest)).toOption =
        (readString (q.symbols ++ .char '"' :: rest)).toOption.map fun r => (.string r.1, r.2) := by
      simp only [readScalar, List.append_assoc, List.cons_append, List.nil_append]
      cases readString (q.symbols ++ .char '"' :: rest) <;> rfl
    rw [quote, read]
    simp [Tree.value?, Option.map_map]
    rfl
  | list each joined => exact absurd rfl (noList _)
  | object each joined => exact absurd rfl (noObject _)

theorem readValue_flat {text : List Symbol} {t : Tree} (levels : Nat) (tree : HasTree text t)
    (noList : ∀ items, t ≠ .list items) (noObject : ∀ members, t ≠ .object members) :
    ReadsAs (readValue levels) text (t.value? levels) := by
  intro space rest blank ends
  obtain ⟨s, tail, rfl, solid, noBracket, noBrace, read⟩ :=
    readScalar_tree tree ends noList noObject
  have front : skipSpace (space ++ (s :: tail ++ rest)) = s :: (tail ++ rest) := by
    rw [skipSpace_append blank]
    exact skipSpace_of_solid solid _
  rw [readValue_scalar front noBracket noBrace]
  exact read levels

theorem toOption_map {ε α β : Type} (x : Except ε α) (f : α → β) :
    (x.map f).toOption = x.toOption.map f := by
  cases x <;> rfl

theorem toOption_bind {ε α β : Type} {x : Except ε (α × List Symbol)} {o : Option α}
    {rest : List Symbol} (read : x.toOption = o.map fun a => (a, rest))
    (go : α × List Symbol → Except ε β) :
    (x.bind go).toOption = o.bind fun a => (go (a, rest)).toOption := by
  cases o with
  | none =>
    obtain ⟨e, refused⟩ := toOption_eq_none.1 read
    rw [refused]
    rfl
  | some a =>
    rw [toOption_eq_some.1 read]
    rfl

theorem readValue_list {levels : Nat} {input tail : List Symbol}
    (front : skipSpace input = .char '[' :: tail) :
    readValue (levels + 1) input =
      (readItems (readValue levels) tail).map fun r => (.array r.1, r.2) := by
  rw [readValue, front]
  simp only [bind, Except.bind, pure, Except.pure, Except.map]

theorem readValue_object {levels : Nat} {input tail : List Symbol}
    (front : skipSpace input = .char '{' :: tail) :
    readValue (levels + 1) input =
      (readMembers (readEntry (readValue levels)) [] tail).map fun r => (.object r.1, r.2) := by
  rw [readValue, front]
  simp only [bind, Except.bind, pure, Except.pure, Except.map]

theorem readEntry_tree {value : Reader Value} {decode : Tree → Option Value}
    {gap space text : List Symbol} {t : Tree} (apart : Blank gap) (blank : Blank space)
    (read : ReadsAs value text (decode t)) (q : Quotation) (entries : List (String × Value)) :
    StepsAs (readEntry value) entries (q.symbols, gap ++ .char ':' :: (space ++ text))
      (decodeEntry decode entries (q, t)) := by
  apply stepsAs_of_key q
  intro key rest ends
  have taken := read space rest blank ends
  simp only [readEntry, List.append_assoc, List.cons_append, expectColon_spaced apart, bind,
    Except.bind]
  cases known : decode t with
  | none =>
    rw [known] at taken
    obtain ⟨f, refused⟩ := toOption_eq_none.1 taken
    simp [refused, Except.toOption]
  | some v =>
    rw [known] at taken
    simp [toOption_eq_some.1 taken, pure, Except.pure, Except.toOption]

theorem readValue_tree (levels : Nat) {text : List Symbol} {t : Tree} (tree : HasTree text t) :
    ReadsAs (readValue levels) text (t.value? levels) := by
  induction levels generalizing text t with
  | zero =>
    cases tree with
    | @list _ _ body each joined =>
      apply ReadsAs.of_front (by decide)
      intro input rest ends front
      rw [readValue, front]
      rfl
    | @object _ _ body each joined =>
      apply ReadsAs.of_front (by decide)
      intro input rest ends front
      rw [readValue, front]
      rfl
    | _ => exact readValue_flat 0 (by constructor) (by simp) (by simp)
  | succ levels ih =>
    cases tree with
    | @list parts items body each joined =>
      apply ReadsAs.of_front (by decide)
      intro input rest ends front
      have parted := each.forall₂ fun text t tree =>
        (⟨value_starts tree.derives, ih tree⟩ :
          Solid text ∧ ReadsAs (readValue levels) text (t.value? levels))
      have read := readItems_parts parted joined rest
      rw [List.append_assoc, List.cons_append, List.nil_append] at front
      rw [readValue_list front, toOption_map, read, Tree.value?, Option.map_map, Option.map_map]
      rfl
    | @object entries members body each joined =>
      apply ReadsAs.of_front (by decide)
      intro input rest ends front
      have steps : List.Forall₂ (fun entry m => ∀ state, StepsAs (readEntry (readValue levels))
          state entry (decodeEntry (Tree.value? levels) state m)) entries members :=
        each.forall₂ fun q t gap space text apart blank tree state =>
          readEntry_tree apart blank (ih tree) q state
      have read := readMembers_runs (Runs.of_steps steps []) joined rest
      rw [List.append_assoc, List.cons_append, List.nil_append] at front
      rw [readValue_object front, toOption_map, read, Tree.value?, Option.map_map, Option.map_map]
      rfl
    | _ => exact readValue_flat (levels + 1) (by constructor) (by simp) (by simp)

end Values

end RegoPolicy.Json
