import RegoPolicy.Policy.Source
import RegoPolicy.Proofs.ReadBack

/-!
A document is read back from its indented text exactly if its rules have no place of their own and
no plain reference looks negated. Reading gives documents of this kind only: `Shape.Yields` tells
what a shape can be read as, whatever the text.
-/
namespace RegoPolicy.Json

open Text

theorem bind_eq_ok {ε α β : Type} {x : Except ε α} {f : α → Except ε β} {b : β}
    (bound : (x >>= f) = .ok b) : ∃ a, x = .ok a ∧ f a = .ok b := by
  cases x with
  | error e => cases bound
  | ok a => exact ⟨a, rfl, bound⟩

section Bodies

variable {α σ : Type} {item : Reader α} {member : σ → String → Reader σ}

theorem itemsWithin_forall {P : α → Prop}
    (each : ∀ input a rest, item input = .ok (a, rest) → P a) {bound input rest : List Symbol}
    {items : List α} (read : itemsWithin item bound input = .ok (items, rest)) :
    ∀ a ∈ items, P a := by
  induction bound generalizing input items rest with
  | nil => cases read
  | cons b bound ih =>
    rw [itemsWithin] at read
    obtain ⟨⟨a, left⟩, first, read⟩ := bind_eq_ok read
    obtain ⟨next, found, read⟩ := bind_eq_ok read
    have holds := each input a left first
    cases next with
    | none =>
      obtain ⟨closed, -, result⟩ := bind_eq_ok read
      cases result
      simpa using holds
    | some next =>
      obtain ⟨⟨more, left⟩, others, result⟩ := bind_eq_ok read
      cases result
      simpa using ⟨holds, ih others⟩

theorem readItems_forall {P : α → Prop}
    (each : ∀ input a rest, item input = .ok (a, rest) → P a) {input rest : List Symbol}
    {items : List α} (read : readItems item input = .ok (items, rest)) : ∀ a ∈ items, P a := by
  obtain ⟨first, -, read⟩ := bind_eq_ok read
  cases first with
  | none =>
    obtain ⟨closed, -, result⟩ := bind_eq_ok read
    cases result
    simp
  | some first => exact itemsWithin_forall each read

theorem membersWithin_invariant {I : σ → Prop}
    (step : ∀ state key input next rest, I state → member state key input = .ok (next, rest) →
      I next) {bound input rest : List Symbol} {state last : σ} (holds : I state)
    (read : membersWithin member bound state input = .ok (last, rest)) : I last := by
  induction bound generalizing state input with
  | nil => cases read
  | cons b bound ih =>
    rw [membersWithin] at read
    obtain ⟨⟨key, after⟩, -, read⟩ := bind_eq_ok read
    obtain ⟨⟨next, left⟩, taken, read⟩ := bind_eq_ok read
    obtain ⟨more, -, read⟩ := bind_eq_ok read
    have preserved := step state key after next left holds taken
    cases more with
    | none =>
      cases read
      exact preserved
    | some input => exact ih preserved read

theorem readMembers_invariant {I : σ → Prop}
    (step : ∀ state key input next rest, I state → member state key input = .ok (next, rest) →
      I next) {input rest : List Symbol} {start last : σ} (holds : I start)
    (read : readMembers member start input = .ok (last, rest)) : I last := by
  obtain ⟨first, -, read⟩ := bind_eq_ok read
  cases first with
  | none =>
    cases read
    exact holds
  | some first => exact membersWithin_invariant step holds read

end Bodies

mutual

/-- What values of a shape can come from reading: conversions have been applied, and fields hold
    what was read or their default. -/
def Shape.Yields {α : Type} : Shape α → α → Prop
  | .text, _ => True
  | .flag, _ => True
  | .literal, _ => True
  | .optional inner, o => ∀ a, o = some a → inner.Yields a
  | .sequence item, items => ∀ a ∈ items, item.Yields a
  | .choice variants _, a => ∃ name, variants.lookup name = some a
  | .record _ fields make _, a => ∃ values, fields.Yields values ∧ a = make values
  | .via inner make _, b => ∃ a, inner.Yields a ∧ b = make a

def Fields.Yields {τ σ : Type} : Fields τ σ → τ → Prop
  | .done, _ => True
  | .field _ _ shape default _ rest, (a, values) =>
    (shape.Yields a ∨ default = some a) ∧ rest.Yields values

end

def Fields.Holds {τ σ : Type} : Fields τ σ → σ → Prop
  | .done, _ => True
  | .field _ _ shape _ _ rest, (slot, slots) =>
    (∀ a, slot = some a → shape.Yields a) ∧ rest.Holds slots

theorem Fields.start_holds {τ σ : Type} : (fields : Fields τ σ) → fields.Holds fields.start
  | .done => trivial
  | .field _ _ _ _ _ rest => ⟨by simp, rest.start_holds⟩

theorem Fields.finish_yields {τ σ : Type} : (fields : Fields τ σ) → {slots : σ} → {values : τ} →
    fields.Holds slots → fields.finish slots = .ok values → fields.Yields values
  | .done, _, _, _, _ => by simp [Fields.Yields]
  | .field name aliases shape default omitted rest, (slot, slots), (a, values), holds,
      finished => by
    obtain ⟨here, others⟩ := holds
    cases found : slot.or default with
    | none => simp [Fields.finish, found] at finished
    | some b =>
      simp only [Fields.finish, found] at finished
      obtain ⟨left, inner, result⟩ := bind_eq_ok finished
      cases result
      simp only [Fields.Yields]
      refine ⟨?_, rest.finish_yields others inner⟩
      rcases Option.or_eq_some_iff.1 found with own | ⟨-, own⟩
      · exact .inl (here a own)
      · exact .inr own

theorem readChoice_found {α : Type} {variants : List (String × α)} {levels : Nat}
    {input rest : List Symbol} {a : α} (read : readChoice variants levels input = .ok (a, rest)) :
    ∃ name, variants.lookup name = some a := by
  have variant {input rest : List Symbol} {a : α}
      (read : readVariant variants input = .ok (a, rest)) :
      ∃ name, variants.lookup name = some a := by
    obtain ⟨⟨name, left⟩, -, read⟩ := bind_eq_ok read
    cases found : variants.lookup name with
    | none => simp [found] at read
    | some b =>
      simp only [found] at read
      cases read
      exact ⟨name, found⟩
  unfold readChoice at read
  split at read
  · cases read
  · exact variant read
  · cases levels with
    | zero => cases read
    | succ levels =>
      simp only [deeper] at read
      obtain ⟨key, -, read⟩ := bind_eq_ok read
      cases key with
      | none => cases read
      | some key =>
        obtain ⟨⟨b, left⟩, named, read⟩ := bind_eq_ok read
        obtain ⟨value, -, read⟩ := bind_eq_ok read
        obtain ⟨closing, -, read⟩ := bind_eq_ok read
        split at read
        · cases read
        · cases read
          exact variant named
        · cases read
  · cases read

mutual

theorem Shape.read_yields {α : Type} : (shape : Shape α) → {levels : Nat} →
    {input rest : List Symbol} → {a : α} → shape.read levels input = .ok (a, rest) → shape.Yields a
  | .text, _, _, _, _, _ => by simp [Shape.Yields]
  | .flag, _, _, _, _, _ => by simp [Shape.Yields]
  | .literal, _, _, _, _, _ => by simp [Shape.Yields]
  | .optional inner, levels, input, rest, o, read => by
    simp only [Shape.read] at read
    simp only [Shape.Yields]
    rintro a rfl
    split at read
    · obtain ⟨left, -, result⟩ := bind_eq_ok read
      cases result
    · obtain ⟨⟨b, left⟩, inside, result⟩ := bind_eq_ok read
      cases result
      exact inner.read_yields inside
  | .sequence item, levels, input, rest, items, read => by
    simp only [Shape.read] at read
    simp only [Shape.Yields]
    split at read
    · cases read
    · cases levels with
      | zero => cases read
      | succ levels => exact readItems_forall (fun _ _ _ => item.read_yields) read
    · cases read
  | .choice variants name, levels, input, rest, a, read => by
    simp only [Shape.read] at read
    simpa only [Shape.Yields] using readChoice_found read
  | .record name fields make take, levels, input, rest, a, read => by
    simp only [Shape.read] at read
    simp only [Shape.Yields]
    split at read
    · cases read
    · cases levels with
      | zero => cases read
      | succ levels =>
        obtain ⟨⟨values, left⟩, row, read⟩ := bind_eq_ok read
        obtain ⟨closed, -, result⟩ := bind_eq_ok read
        cases result
        exact ⟨values, fields.readRow_yields row, rfl⟩
    · cases levels with
      | zero => cases read
      | succ levels =>
        obtain ⟨⟨slots, left⟩, members, read⟩ := bind_eq_ok read
        have holds := readMembers_invariant (fun _ _ _ _ _ => fields.readMember_holds)
          fields.start_holds members
        cases finished : fields.finish slots with
        | error missing => simp [finished] at read
        | ok values =>
          simp only [finished] at read
          cases read
          exact ⟨values, fields.finish_yields holds finished, rfl⟩
    · cases read
  | .via inner make take, levels, input, rest, b, read => by
    simp only [Shape.read] at read
    simp only [Shape.Yields]
    obtain ⟨⟨a, left⟩, inside, result⟩ := bind_eq_ok read
    cases result
    exact ⟨a, inner.read_yields inside, rfl⟩

theorem Fields.readRow_yields {τ σ : Type} : (fields : Fields τ σ) → {levels : Nat} →
    {short : Nat → Cause} → {index : Nat} → {input rest : List Symbol} → {values : τ} →
      fields.readRow levels short index input = .ok (values, rest) → fields.Yields values
  | .done, _, _, _, _, _, _, _ => by simp [Fields.Yields]
  | .field name aliases shape default omitted others, levels, short, index, input, rest,
      (a, values), read => by
    simp only [Fields.readRow] at read
    simp only [Fields.Yields]
    obtain ⟨next, -, read⟩ := bind_eq_ok read
    cases next with
    | some next =>
      obtain ⟨⟨b, after⟩, inside, read⟩ := bind_eq_ok read
      obtain ⟨⟨left, after⟩, row, result⟩ := bind_eq_ok read
      cases result
      exact ⟨.inl (shape.read_yields inside), others.readRow_yields row⟩
    | none =>
      cases default with
      | none => cases read
      | some b =>
        obtain ⟨⟨left, after⟩, row, result⟩ := bind_eq_ok read
        cases result
        exact ⟨.inr rfl, others.readRow_yields row⟩

theorem Fields.readMember_holds {τ σ : Type} : (fields : Fields τ σ) → {levels : Nat} →
    {slots next : σ} → {key : String} → {input rest : List Symbol} → fields.Holds slots →
      fields.readMember levels slots key input = .ok (next, rest) → fields.Holds next
  | .done, _, _, _, _, _, _, _, _ => by simp [Fields.Holds]
  | .field name aliases shape default omitted others, levels, (slot, slots), next, key, input, rest,
      holds, read => by
    obtain ⟨here, there⟩ := holds
    simp only [Fields.readMember] at read
    split at read
    · split at read
      · cases read
      · obtain ⟨after, -, read⟩ := bind_eq_ok read
        obtain ⟨⟨a, left⟩, inside, result⟩ := bind_eq_ok read
        cases result
        refine ⟨?_, there⟩
        rintro b same
        cases same
        exact shape.read_yields inside
    · obtain ⟨⟨left, after⟩, passed, result⟩ := bind_eq_ok read
      cases result
      exact ⟨here, others.readMember_holds there passed⟩

end

theorem Shape.parseText_yields {α : Type} (shape : Shape α) {s : String} {a : α}
    (parsed : shape.parseText s = .ok a) : shape.Yields a := by
  simp only [Shape.parseText, Shape.parse] at parsed
  cases read : shape.read levelLimit (ofString s) with
  | error f => simp [read, bind, Except.bind, Except.mapError] at parsed
  | ok result =>
    obtain ⟨b, rest⟩ := result
    have yields := shape.read_yields read
    cases ended : expectEnd rest with
    | error f => simp [read, ended, bind, Except.bind, Except.mapError] at parsed
    | ok nothing =>
      have same : b = a := by
        simpa [read, ended, bind, Except.bind, Except.mapError, pure, Except.pure] using parsed
      exact same ▸ yields

end RegoPolicy.Json

namespace RegoPolicy.Policy

open Json

/-- A plain reference does not look like a negated one. -/
def Reference.Restorable (ref : Reference) : Prop :=
  ref.negated = false → ref.name.toList.head? ≠ some '!'

structure Rule.Restorable (r : Rule) : Prop where
  unplaced : r.index = 0
  references : ∀ ref ∈ r.whenAllOf, ref.Restorable

/-- The documents of which the JSON form shows everything. -/
def Document.Restorable (d : Document) : Prop := ∀ r ∈ d.rules, r.Restorable

section Fields

variable {α τ σ : Type} {name : String} {aliases : List String} {shape : Shape α}
  {rest : Fields τ σ} {values : τ}

theorem required_keeps {a : α} (kept : shape.Keeps a) (others : name ∉ rest.names)
    (remaining : rest.Keeps values) : (required name shape rest).Keeps (a, values) := by
  refine ⟨by simp, fun _ => kept, ?_, remaining⟩
  rintro key member (rfl | none)
  · exact others member
  · cases none

theorem optionalText_keeps {text : Option String} (others : name ∉ rest.names)
    (remaining : rest.Keeps values) : (optionalText name rest).Keeps (text, values) := by
  refine ⟨?_, ?_, ?_, remaining⟩
  · intro omitted
    rw [Option.isNone_iff_eq_none.1 omitted]
  · intro _ s _
    exact ⟨by simp [Shape.write], by simp [Shape.Keeps]⟩
  · rintro key member (rfl | none)
    · exact others member
    · cases none

theorem listed_keeps {items : List α} (kept : ∀ a ∈ items, shape.Keeps a)
    (others : ∀ key ∈ rest.names, ¬ (key = name ∨ key ∈ aliases))
    (remaining : rest.Keeps values) : (listed name aliases shape rest).Keeps (items, values) := by
  exact ⟨by simp, fun _ => kept, others, remaining⟩

theorem optionalList_keeps {items : List α} (kept : ∀ a ∈ items, shape.Keeps a)
    (others : name ∉ rest.names) (remaining : rest.Keeps values) :
    (optionalList name shape rest).Keeps (items, values) := by
  refine ⟨?_, fun _ => kept, ?_, remaining⟩
  · intro omitted
    rw [List.isEmpty_iff.1 omitted]
  · rintro key member (rfl | none)
    · exact others member
    · cases none

end Fields

theorem Reference.ofString_restorable (s : String) : (Reference.ofString s).Restorable := by
  unfold Reference.ofString
  split
  · intro plain
    cases plain
  · rename_i other
    intro _ starts
    cases chars : s.toList with
    | nil => simp [chars] at starts
    | cons c cs =>
      have mark : c = '!' := by simpa [chars] using starts
      exact other cs (by rw [chars, mark])

theorem Reference.ofString_toString {ref : Reference} (restorable : ref.Restorable) :
    Reference.ofString ref.toString = ref := by
  obtain ⟨name, negated⟩ := ref
  cases negated with
  | true => simp [Reference.toString, Reference.ofString]
  | false =>
    have plain := restorable rfl
    simp only [Reference.toString, Reference.ofString, Bool.false_eq_true, if_false]
    split
    · rename_i cs chars
      exact absurd (by simp [chars]) plain
    · rfl

theorem Constant.shape_keeps (c : Constant) : Constant.shape.Keeps c := by
  refine ⟨rfl, required_keeps trivial (by decide) (required_keeps trivial (by decide) trivial)⟩

theorem Condition.shape_keeps (c : Condition) : Condition.shape.Keeps c := by
  have operator : Operator.shape.Keeps c.operator := Operator.ofName?_name c.operator
  refine ⟨rfl, by simp, fun _ => operator, by decide, ?_⟩
  apply optionalText_keeps (by decide)
  refine optionalList_keeps (fun _ _ => trivial) (by decide) ?_
  exact optionalText_keeps (by decide) trivial

theorem Predicate.shape_keeps (p : Predicate) : Predicate.shape.Keeps p := by
  refine ⟨rfl, required_keeps trivial (by decide) ?_⟩
  exact listed_keeps (fun c _ => c.shape_keeps) (by decide) trivial

theorem Effect.shape_keeps (e : Effect) : Effect.shape.Keeps e := by
  have action : Action.shape.Keeps e.action := Action.ofName?_name e.action
  refine ⟨rfl, required_keeps action (by decide) ?_⟩
  iterate 7 apply optionalText_keeps (by decide)
  refine ⟨?_, fun _ => trivial, by decide, trivial⟩
  intro omitted
  simp_all

theorem Rule.shape_keeps {r : Rule} (restorable : r.Restorable) : Rule.shape.Keeps r := by
  obtain ⟨unplaced, references⟩ := restorable
  refine ⟨?_, required_keeps trivial (by decide) ⟨by simp, fun _ => trivial, by decide, ?_⟩⟩
  · rw [← unplaced]
  · apply required_keeps r.effect.shape_keeps (by decide)
    refine optionalList_keeps ?_ (by decide) trivial
    intro ref member
    exact ⟨Reference.ofString_toString (references ref member), trivial⟩

theorem Document.shape_keeps {d : Document} (restorable : d.Restorable) :
    Document.shape.Keeps d := by
  refine ⟨rfl, ?_⟩
  apply optionalText_keeps (by decide)
  refine optionalList_keeps (fun _ _ => trivial) (by decide) ?_
  apply listed_keeps (fun c _ => c.shape_keeps) (by decide)
  apply listed_keeps (fun p _ => p.shape_keeps) (by decide)
  apply listed_keeps (fun r member => Rule.shape_keeps (restorable r member)) (by decide)
  exact optionalText_keeps (by decide) trivial

theorem Rule.restorable_of_yields {r : Rule} (yields : Rule.shape.Yields r) : r.Restorable := by
  obtain ⟨⟨name, isDefault, effect, references, ⟨⟩⟩, ⟨-, -, -, read, -⟩, rfl⟩ := yields
  refine ⟨rfl, fun ref member => ?_⟩
  rcases read with each | left
  · obtain ⟨s, -, rfl⟩ := each ref member
    exact Reference.ofString_restorable s
  · cases left
    cases member

theorem Document.restorable_of_yields {d : Document} (yields : Document.shape.Yields d) :
    d.Restorable := by
  obtain ⟨⟨_, _, _, _, rules, _, ⟨⟩⟩, ⟨-, -, -, -, read, -, -⟩, rfl⟩ := yields
  intro r member
  rcases read with each | left
  · exact Rule.restorable_of_yields (each r member)
  · cases left
    cases member

theorem fromText_eq_ok {α : Type} {shape : Shape α} {s : String} {a : α} :
    fromText shape s = .ok a ↔ shape.parseText s = .ok a := by
  cases parsed : shape.parseText s <;> simp [fromText, parsed, Except.mapError]

theorem fromText_restorable {s : String} {d : Document}
    (read : fromText Document.shape s = .ok d) : d.Restorable :=
  Document.restorable_of_yields (Document.shape.parseText_yields (fromText_eq_ok.1 read))

theorem fromText_pretty {d : Document} (restorable : d.Restorable) :
    fromText Document.shape d.pretty = .ok d :=
  fromText_eq_ok.2 (Document.shape.parseText_pretty (Document.shape_keeps restorable) (by decide))

/-- A document that was read from any text is read again from its indented text. In general a
    document comes back exactly if it is restorable, whatever its other parts and its texts hold. -/
theorem pretty_text_restores :
    (∀ s d, fromText Document.shape s = .ok d → fromText Document.shape d.pretty = .ok d) ∧
      ∀ d : Document, fromText Document.shape d.pretty = .ok d ↔ d.Restorable := by
  constructor
  · intro s d read
    exact fromText_pretty (fromText_restorable read)
  · intro d
    exact ⟨fromText_restorable, fromText_pretty⟩

/-- A text with what reading allows and writing never does: other names of fields, records by
    place, a value that is no text, escapes of characters that need none. -/
def looseText : String :=
  "\x7b\"constant\": [[\"c\", [1]]],
    \"rule\": [[\"\\u0001\\ud83d\\ude00\\/\", false, [\"allow\"], [\"!!p\", \"p\"]]]\x7d"

def ruled (references : List Reference) (index : Nat) : Document where
  description := none
  connectors := []
  constants := [⟨"c", "[1]"⟩]
  predicates := []
  rules := [⟨"\x01😀/", false, ⟨.allow, none, none, none, none, none, none, none, false⟩, references,
    index⟩]
  rawRego := none

/-- The document of the text above comes back; with a place for its rule, or with a plain reference
    that looks negated, it does not. -/
theorem pretty_text_restores_loose :
    let read := ruled [⟨"!p", true⟩, ⟨"p", false⟩] 0
    fromText Document.shape looseText = .ok read ∧
      fromText Document.shape read.pretty = .ok read ∧
      fromText Document.shape (ruled [] 1).pretty ≠ .ok (ruled [] 1) ∧
      fromText Document.shape (ruled [⟨"!p", false⟩] 0).pretty ≠ .ok (ruled [⟨"!p", false⟩] 0) := by
  intro read
  have parsed : fromText Document.shape looseText = .ok read := by decide +kernel
  refine ⟨parsed, pretty_text_restores.1 looseText read parsed, ?_, ?_⟩
  · intro restored
    have unplaced := ((pretty_text_restores.2 _).1 restored _ List.mem_cons_self).unplaced
    cases unplaced
  · intro restored
    have plain := ((pretty_text_restores.2 _).1 restored _ List.mem_cons_self).references
      ⟨"!p", false⟩ List.mem_cons_self rfl
    exact plain (by decide)

end RegoPolicy.Policy
