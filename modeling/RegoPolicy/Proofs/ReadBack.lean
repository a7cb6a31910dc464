import RegoPolicy.Json.Shape
import RegoPolicy.Proofs.Bodies

/-!
Reading what a shape writes. `Shape.Keeps` tells which values a shape can write without loss, and
every spelling of such a value is read as the value, with any space in front and any symbols behind.
-/
namespace RegoPolicy.Json

open Text

/-- The reader takes the text, with any space in front of it, and gives the value. -/
def Reads {α : Type} (reader : Reader α) (text : List Symbol) (a : α) : Prop :=
  ∀ space rest, Blank space → reader (space ++ (text ++ rest)) = .ok (a, rest)

inductive Steps {σ : Type} (member : σ → String → Reader σ) :
    σ → List (String × List Symbol) → σ → Prop where
  | nil (state : σ) : Steps member state [] state
  | cons {state next last : σ} {key : String} {after : List Symbol}
      {entries : List (String × List Symbol)}
      (step : ∀ rest, member state key (after ++ rest) = .ok (next, rest))
      (more : Steps member next entries last) : Steps member state ((key, after) :: entries) last

theorem Reads.readsAs {α : Type} {reader : Reader α} {text : List Symbol} {a : α}
    (reads : Reads reader text a) : ReadsAs reader text (some a) := by
  intro space rest blank _
  rw [reads space rest blank]
  rfl

section Lists

variable {α : Type} {item : Reader α}

theorem readItems_joined {parts : List (List Symbol)} {items : List α} {body : List Symbol}
    (each : List.Forall₂ (fun text a => Solid text ∧ Reads item text a) parts items)
    (joined : Joined parts body) (rest : List Symbol) :
    readItems item (body ++ .char ']' :: rest) = .ok (items, rest) := by
  have parted : List.Forall₂ (fun text a => Solid text ∧ ReadsAs item text (some a)) parts items :=
    each.imp fun _ _ read => ⟨read.1, read.2.readsAs⟩
  have all : items.mapM some = some items := by
    simpa using List.mapM_pure (m := Option) (l := items) (f := id)
  have read := readItems_parts parted joined rest
  rw [all] at read
  exact toOption_eq_some.1 read

theorem SpellItems.reads {write : α → Value} {items : List α} {parts : List (List Symbol)}
    (spelled : SpellItems (items.map write) parts)
    (each : ∀ a ∈ items, ∀ text, Spells (write a) text → Solid text ∧ Reads item text a) :
    List.Forall₂ (fun text a => Solid text ∧ Reads item text a) parts items := by
  induction items generalizing parts with
  | nil =>
    cases spelled
    exact .nil
  | cons a items ih =>
    cases spelled with
    | cons first rest =>
      refine .cons (each a List.mem_cons_self _ first) (ih rest ?_)
      intro b member
      exact each b (List.mem_cons_of_mem a member)

end Lists

section Objects

variable {σ : Type} {member : σ → String → Reader σ}

theorem Steps.runs {entries : List (String × List Symbol)} {start last : σ}
    (steps : Steps member start entries last) :
    Runs member start (entries.map fun entry => (content entry.1, entry.2)) (some last) := by
  induction steps with
  | nil state => exact .done state
  | cons step more ih =>
    refine .taken ?_ ih
    intro rest _
    simp [readNamed, readString_content, step, bind, Except.bind, Except.toOption]

theorem readMembers_joined {entries : List (String × List Symbol)} {start last : σ}
    {body : List Symbol} (steps : Steps member start entries last)
    (joined : Joined (entries.map memberText) body) (rest : List Symbol) :
    readMembers member start (body ++ .char '}' :: rest) = .ok (last, rest) := by
  rw [map_memberText] at joined
  exact toOption_eq_some.1 (readMembers_runs steps.runs joined rest)

theorem SpellMembers.keys {members : List (String × Value)}
    {entries : List (String × List Symbol)} (spelled : SpellMembers members entries) :
    entries.map (·.1) = members.map (·.1) := by
  induction members generalizing entries with
  | nil =>
    cases spelled
    rfl
  | cons first members ih =>
    cases spelled with
    | cons apart blank spells rest => simp [ih rest]

end Objects

def Fields.names {τ σ : Type} : Fields τ σ → List String
  | .done => []
  | .field name _ _ _ _ rest => name :: rest.names

def Fields.filled {τ σ : Type} : Fields τ σ → τ → σ
  | .done, _ => ()
  | .field _ _ _ _ omitted rest, (a, values) =>
    (if omitted a then none else some a, rest.filled values)

mutual

/-- Nothing is lost of a value when it is written: what is left out is what is filled in, `null`
    stands for nothing else, and no key goes to the field of another. -/
def Shape.Keeps {α : Type} : Shape α → α → Prop
  | .text, _ => True
  | .flag, _ => True
  | .literal, _ => True
  | .optional inner, o => ∀ a, o = some a → inner.write a ≠ .null ∧ inner.Keeps a
  | .sequence item, items => ∀ a ∈ items, item.Keeps a
  | .choice variants name, a => variants.lookup (name a) = some a
  | .record _ fields make take, a => make (take a) = a ∧ fields.Keeps (take a)
  | .via inner make take, b => make (take b) = b ∧ inner.Keeps (take b)

def Fields.Keeps {τ σ : Type} : Fields τ σ → τ → Prop
  | .done, _ => True
  | .field name aliases shape default omitted rest, (a, values) =>
    (omitted a = true → default = some a) ∧ (omitted a = false → shape.Keeps a) ∧
      (∀ key ∈ rest.names, ¬ (key = name ∨ key ∈ aliases)) ∧ rest.Keeps values

end

mutual

def Shape.depth {α : Type} : Shape α → Nat
  | .text => 0
  | .flag => 0
  | .literal => 0
  | .optional inner => inner.depth
  | .sequence item => item.depth + 1
  | .choice _ _ => 0
  | .record _ fields _ _ => fields.depth + 1
  | .via inner _ _ => inner.depth

def Fields.depth {τ σ : Type} : Fields τ σ → Nat
  | .done => 0
  | .field _ _ shape _ _ rest => max shape.depth rest.depth

end

theorem Shape.write_ne_number {α : Type} (n : Number) :
    (shape : Shape α) → (a : α) → shape.write a ≠ .number n
  | .text, _ => by simp [Shape.write]
  | .flag, _ => by simp [Shape.write]
  | .literal, _ => by simp [Shape.write]
  | .optional _, none => by simp [Shape.write]
  | .optional inner, some a => by simpa [Shape.write] using inner.write_ne_number n a
  | .sequence _, _ => by simp [Shape.write]
  | .choice _ _, _ => by simp [Shape.write]
  | .record _ _ _ _, _ => by simp [Shape.write]
  | .via inner _ take, b => by simpa [Shape.write] using inner.write_ne_number n (take b)

theorem spelled_front {v : Value} {text : List Symbol} (spelled : Spells v text)
    (noNumber : ∀ n, v ≠ .number n) :
    ∃ s tail, text = s :: tail ∧ isSpace s = false ∧ s ≠ .char ']' ∧
      (s = .char 'n' → v = .null) := by
  cases spelled with
  | null => exact ⟨.char 'n', ofString "ull", by decide, by decide, by decide, fun _ => rfl⟩
  | true => exact ⟨.char 't', ofString "rue", by decide, by decide, by decide, by simp⟩
  | false => exact ⟨.char 'f', ofString "alse", by decide, by decide, by decide, by simp⟩
  | number n => exact absurd rfl (noNumber n)
  | string s => exact ⟨_, _, rfl, by decide, by decide, by simp⟩
  | array each joined => exact ⟨_, _, rfl, by decide, by decide, by simp⟩
  | object each joined => exact ⟨_, _, rfl, by decide, by decide, by simp⟩

theorem Shape.written_solid {α : Type} (shape : Shape α) {a : α} {text : List Symbol}
    (spelled : Spells (shape.write a) text) : Solid text := by
  obtain ⟨s, tail, split, solid, other, -⟩ :=
    spelled_front spelled fun n => shape.write_ne_number n a
  exact ⟨s, tail, split, solid, other⟩

theorem Fields.written_names {τ σ : Type} :
    (fields : Fields τ σ) → (values : τ) → (fields.write values).map (·.1) ⊆ fields.names
  | .done, _ => by simp [Fields.write]
  | .field name _ _ _ omitted rest, (a, values) => by
    have inner := rest.written_names values
    cases left : omitted a with
    | true => simpa [Fields.write, Fields.names, left] using List.subset_cons_of_subset name inner
    | false => simpa [Fields.write, Fields.names, left] using List.cons_subset_cons name inner

theorem Fields.finish_filled {τ σ : Type} :
    (fields : Fields τ σ) → (values : τ) → fields.Keeps values →
      fields.finish (fields.filled values) = .ok values
  | .done, _, _ => rfl
  | .field name aliases shape default omitted rest, (a, values), kept => by
    obtain ⟨replaced, -, -, others⟩ := kept
    have inner := rest.finish_filled values others
    cases left : omitted a with
    | true =>
      simp [Fields.filled, Fields.finish, left, replaced left, inner, bind, Except.bind, pure,
        Except.pure]
    | false =>
      simp [Fields.filled, Fields.finish, left, inner, bind, Except.bind, pure, Except.pure]

/-- Members with other keys leave the slot of a field as it is. -/
theorem Steps.beside {α τ σ : Type} {name : String} {aliases : List String} {shape : Shape α}
    {default : Option α} {omitted : α → Bool} {fields : Fields τ σ} {levels : Nat} {start last : σ}
    {entries : List (String × List Symbol)} (slot : Option α)
    (steps : Steps (fields.readMember levels) start entries last)
    (others : ∀ key ∈ entries.map (·.1), ¬ (key = name ∨ key ∈ aliases)) :
    Steps ((Fields.field name aliases shape default omitted fields).readMember levels)
      (slot, start) entries (slot, last) := by
  induction steps with
  | nil state => exact .nil _
  | @cons state next last key after entries step more ih =>
    have other := others key (by simp)
    have passed : ∀ rest, (Fields.field name aliases shape default omitted fields).readMember levels
        (slot, state) key (after ++ rest) = .ok ((slot, next), rest) := by
      intro rest
      simp [Fields.readMember, other, step, bind, Except.bind, pure, Except.pure]
    exact .cons passed (ih fun k member => others k (by simp_all))

theorem readText_spelled {s : String} {text : List Symbol} (wanted : String)
    (spelled : Spells (.string s) text) : Reads (readText wanted) text s := by
  intro space rest blank
  cases spelled
  have quote (tail : List Symbol) : skipSpace (.char '"' :: tail) = .char '"' :: tail :=
    skipSpace_of_solid (by decide) tail
  simp [readText, skipSpace_append blank, quote, readString_content]

theorem expectWord_append (word : List Char) (rest : List Symbol) :
    expectWord word (word.map .char ++ rest) = .ok rest := by
  exact (expectWord_ok_iff word _ rest).2 rfl

theorem readFlag_spelled {b : Bool} {text : List Symbol} (spelled : Spells (.bool b) text) :
    Reads readFlag text b := by
  intro space rest blank
  cases spelled with
  | true =>
    have word := expectWord_append ['r', 'u', 'e'] rest
    have front : skipSpace (ofString "true" ++ rest) =
        .char 't' :: (['r', 'u', 'e'].map .char ++ rest) := skipSpace_of_solid (by decide) _
    simp only [readFlag, skipSpace_append blank, front, word]
    rfl
  | false =>
    have word := expectWord_append ['a', 'l', 's', 'e'] rest
    have front : skipSpace (ofString "false" ++ rest) =
        .char 'f' :: (['a', 'l', 's', 'e'].map .char ++ rest) := skipSpace_of_solid (by decide) _
    simp only [readFlag, skipSpace_append blank, front, word]
    rfl

theorem readLiteral_spelled {s : String} {text : List Symbol} (levels : Nat)
    (spelled : Spells (.string s) text) : Reads (readLiteral levels) text s := by
  intro space rest blank
  cases spelled
  have quote (tail : List Symbol) : skipSpace (.char '"' :: tail) = .char '"' :: tail :=
    skipSpace_of_solid (by decide) tail
  rw [readLiteral, readValue]
  simp [skipSpace_append blank, quote, readScalar, readString_content, Value.toLiteral, bind,
    Except.bind, pure, Except.pure]

theorem readChoice_spelled {α : Type} {variants : List (String × α)} {name : String} {a : α}
    {text : List Symbol} (levels : Nat) (found : variants.lookup name = some a)
    (spelled : Spells (.string name) text) : Reads (readChoice variants levels) text a := by
  intro space rest blank
  cases spelled
  have quote (tail : List Symbol) : skipSpace (.char '"' :: tail) = .char '"' :: tail :=
    skipSpace_of_solid (by decide) tail
  simp [readChoice, readVariant, skipSpace_append blank, quote, readString_content, found, bind,
    Except.bind]

theorem optional_spelled {α : Type} {inner : Shape α} {o : Option α} {levels : Nat}
    {text : List Symbol}
    (reads : ∀ a, o = some a → inner.write a ≠ .null ∧ Reads (inner.read levels) text a)
    (spelled : Spells ((Shape.optional inner).write o) text) :
    Reads ((Shape.optional inner).read levels) text o := by
  intro space rest blank
  cases o with
  | none =>
    cases spelled
    have word := expectWord_append ['u', 'l', 'l'] rest
    have front : skipSpace (ofString "null" ++ rest) =
        .char 'n' :: (['u', 'l', 'l'].map .char ++ rest) := skipSpace_of_solid (by decide) _
    simp only [Shape.read, skipSpace_append blank, front, word]
    rfl
  | some a =>
    obtain ⟨notNull, read⟩ := reads a rfl
    obtain ⟨s, tail, rfl, solid, -, null⟩ := spelled_front spelled fun n =>
      (Shape.optional inner).write_ne_number n (some a)
    have other : s ≠ .char 'n' := fun same => notNull (by simpa [Shape.write] using null same)
    have whole := read [] rest blank_nil
    have front := skipSpace_of_solid solid (tail ++ rest)
    simp only [Shape.read, skipSpace_append blank]
    simp only [List.cons_append, List.nil_append] at whole ⊢
    rw [front]
    split
    · simp_all
    · simp [whole, bind, Except.bind, pure, Except.pure]

mutual

/-- Every spelling of a value that its shape keeps is read as the value. -/
theorem Shape.read_spelled {α : Type} : (shape : Shape α) → {a : α} → {levels : Nat} →
    {text : List Symbol} → shape.Keeps a → shape.depth ≤ levels →
      Spells (shape.write a) text → Reads (shape.read levels) text a
  | .text, _, _, _, _, _, spelled => by
    simpa only [Shape.read] using
      readText_spelled "a string" (by simpa only [Shape.write] using spelled)
  | .flag, _, _, _, _, _, spelled => by
    simpa only [Shape.read] using readFlag_spelled (by simpa only [Shape.write] using spelled)
  | .literal, _, levels, _, _, _, spelled => by
    simpa only [Shape.read] using
      readLiteral_spelled levels (by simpa only [Shape.write] using spelled)
  | .choice variants name, _, levels, _, kept, _, spelled => by
    simpa only [Shape.read] using
      readChoice_spelled levels (by simpa only [Shape.Keeps] using kept)
        (by simpa only [Shape.write] using spelled)
  | .optional inner, o, levels, text, kept, deep, spelled => by
    refine optional_spelled ?_ spelled
    rintro a rfl
    simp only [Shape.Keeps] at kept
    obtain ⟨notNull, inside⟩ := kept a rfl
    exact ⟨notNull, inner.read_spelled inside deep (by simpa only [Shape.write] using spelled)⟩
  | .sequence item, items, levels, text, kept, deep, spelled => by
    simp only [Shape.depth] at deep
    simp only [Shape.Keeps] at kept
    simp only [Shape.write] at spelled
    cases spelled with
    | array each joined =>
      intro space rest blank
      obtain ⟨below, rfl⟩ : ∃ below, levels = below + 1 := ⟨levels - 1, by omega⟩
      have reads :
          List.Forall₂ (fun text a => Solid text ∧ Reads (item.read below) text a) _ items :=
        each.reads fun a member text spells =>
          ⟨item.written_solid spells, item.read_spelled (kept a member) (by omega) spells⟩
      have bracket (tail : List Symbol) : skipSpace (.char '[' :: tail) = .char '[' :: tail :=
        skipSpace_of_solid (by decide) tail
      simp only [Shape.read, skipSpace_append blank]
      simp [bracket, deeper, readItems_joined reads joined]
  | .record name fields make take, a, levels, text, kept, deep, spelled => by
    simp only [Shape.depth] at deep
    simp only [Shape.Keeps] at kept
    simp only [Shape.write] at spelled
    cases spelled with
    | object each joined =>
      intro space rest blank
      obtain ⟨below, rfl⟩ : ∃ below, levels = below + 1 := ⟨levels - 1, by omega⟩
      have steps : Steps (fields.readMember below) _ _ _ :=
        fields.steps_spelled kept.2 (by omega) each
      have finished := fields.finish_filled (take a) kept.2
      have bracket (tail : List Symbol) : skipSpace (.char '{' :: tail) = .char '{' :: tail :=
        skipSpace_of_solid (by decide) tail
      simp only [Shape.read, skipSpace_append blank]
      simp [bracket, deeper, readMembers_joined steps joined, finished, kept.1, bind, Except.bind,
        pure, Except.pure]
  | .via inner make take, b, levels, text, kept, deep, spelled => by
    simp only [Shape.Keeps] at kept
    intro space rest blank
    have read : Reads (inner.read levels) text (take b) :=
      inner.read_spelled kept.2 deep (by simpa only [Shape.write] using spelled)
    have taken := read space rest blank
    simp [Shape.read, taken, kept.1, bind, Except.bind, pure, Except.pure]

theorem Fields.steps_spelled {τ σ : Type} : (fields : Fields τ σ) → {values : τ} → {levels : Nat} →
    {entries : List (String × List Symbol)} → fields.Keeps values → fields.depth ≤ levels →
      SpellMembers (fields.write values) entries →
        Steps (fields.readMember levels) fields.start entries (fields.filled values)
  | .done, _, _, _, _, _, spelled => by
    simp only [Fields.write] at spelled
    cases spelled
    exact .nil _
  | .field name aliases shape default omitted rest, (a, values), levels, entries, kept, deep,
      spelled => by
    simp only [Fields.depth] at deep
    obtain ⟨-, inside, distinct, others⟩ := kept
    -- the written keys of the other fields are their names, so they pass this field by
    have beside {entries} (spells : SpellMembers (rest.write values) entries) (key)
        (member : key ∈ entries.map (·.1)) : ¬ (key = name ∨ key ∈ aliases) := by
      rw [spells.keys] at member
      exact distinct key (rest.written_names values member)
    cases left : omitted a with
    | true =>
      simp only [Fields.write, left, if_true] at spelled
      have steps : Steps (rest.readMember levels) _ _ _ :=
        rest.steps_spelled others (by omega) spelled
      simpa [Fields.start, Fields.filled, left] using steps.beside none (beside spelled)
    | false =>
      simp only [Fields.write, left, Bool.false_eq_true, if_false] at spelled
      cases spelled with
      | @cons _ _ _ gap space text entries apart blank first more =>
        have steps : Steps (rest.readMember levels) _ _ _ :=
          rest.steps_spelled others (by omega) more
        have read : Reads (shape.read levels) text a :=
          shape.read_spelled (inside left) (by omega) first
        have filled : ∀ after,
            (Fields.field name aliases shape default omitted rest).readMember levels
              (none, rest.start) name (gap ++ .char ':' :: (space ++ text) ++ after) =
                .ok ((some a, rest.start), after) := by
          intro after
          have value := read space after blank
          simp [Fields.readMember, expectColon_spaced apart, value, bind, Except.bind, pure,
            Except.pure]
        simpa [Fields.start, Fields.filled, left] using
          Steps.cons filled (steps.beside (some a) (beside more))

end

theorem Shape.parseText_spelled {α : Type} (shape : Shape α) {a : α} (kept : shape.Keeps a)
    (deep : shape.depth ≤ levelLimit) {s : String} {text space : List Symbol}
    (spelled : Spells (shape.write a) text) (blank : Blank space)
    (whole : ofString s = text ++ space) : shape.parseText s = .ok a := by
  have read := shape.read_spelled kept deep spelled [] space blank_nil
  rw [List.nil_append, ← whole] at read
  simp [Shape.parseText, Shape.parse, read, expectEnd, blank_skipped blank, bind, Except.bind,
    pure, Except.pure, Except.mapError]

theorem Shape.parseText_pretty {α : Type} (shape : Shape α) {a : α} (kept : shape.Keeps a)
    (deep : shape.depth ≤ levelLimit) : shape.parseText (shape.write a).pretty = .ok a :=
  shape.parseText_spelled kept deep (pretty_spells (shape.write a)) blank_nil
    (List.append_nil _).symm

theorem Shape.parseText_compact {α : Type} (shape : Shape α) {a : α} (kept : shape.Keeps a)
    (deep : shape.depth ≤ levelLimit) :
    shape.parseText ((shape.write a).compact ++ "\n") = .ok a := by
  have feed : Blank (ofString "\n") := by simp [Blank, ofString, isSpace]
  exact shape.parseText_spelled kept deep (compact_spells (shape.write a)) feed
    (ofString_append _ "\n")

end RegoPolicy.Json
