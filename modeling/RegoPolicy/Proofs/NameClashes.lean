import RegoPolicy.Proofs.ModuleHeads
import RegoPolicy.Proofs.NameCapture

/-!
The names that a document declares beside those that its module defines or uses by itself. The parts
of a module define different names unless a declared name is that of the list of connectors, or the
raw text defines a name of another part.
-/
namespace RegoPolicy.Rego

open Policy

def Opens (text name : String) : Prop :=
  ∃ h : Head, ∃ line ∈ text.toList.splitOn '\n', h.opens name line = true

/-- A part of a module defines the names that its lines open. Raw text may be any Rego, so what it
    defines is up to a reading of it. -/
def Part.Defines (reads : String → String → Prop) (d : Draft) (name : String) : Part → Prop
  | .raw => reads (Part.raw.text d) name
  | part => Opens (part.text d) name

def Part.names (doc : Document) : Part → List String
  | .connectors => if doc.connectors = [] then [] else ["included_connectors"]
  | .constants => doc.constantNames
  | .predicates => doc.predicateNames
  | .raw => []
  | .rules => doc.rules.map (·.name)

def declaredNames (doc : Document) : List String :=
  doc.constantNames ++ (doc.predicateNames ++ doc.rules.map (·.name))

/-- Names of the language that expressions start with: those in front of a dot or a bracket. -/
def globals : List String := (openings.filter fun o => o.mark ≠ ' ').map (·.word)

example : globals = ["input", "contains", "startswith", "endswith", "regex"] := by decide

/-- No declared name is one that the module defines or uses by itself. -/
structure Separate (doc : Document) : Prop where
  defined : doc.connectors ≠ [] → "included_connectors" ∉ declaredNames doc
  used : ∀ name ∈ globals, name ∉ declaredNames doc

def DefinedOnce (reads : String → String → Prop) (doc : Document) : Prop :=
  ∀ name, IsName name → ∀ part other : Part,
    part.Defines reads (Draft.ofDocument doc).checkReferences name →
      other.Defines reads (Draft.ofDocument doc).checkReferences name → part = other

def LeavesConnectors (doc : Document) : Prop :=
  doc.connectors = [] ∨ "included_connectors" ∉ declaredNames doc

def RawApart (reads : String → String → Prop) (doc : Document) : Prop :=
  ∀ name ∈ Part.connectors.names doc ++ declaredNames doc, ¬ reads (rawSection doc.rawRego) name

theorem declares_iff_mem (doc : Document) {part : Part} (made : part ≠ .raw) (name : String) :
    (∃ h, part.declares doc h name ≠ 0) ↔ name ∈ part.names doc := by
  cases part with
  | connectors => by_cases empty : doc.connectors = [] <;> simp [Part.declares, Part.names, empty]
  | constants => simp [Part.declares, Part.names, Document.constantNames, List.countP_eq_zero]
  | predicates => simp [Part.declares, Part.names, Document.predicateNames, List.countP_eq_zero]
  | raw => exact absurd rfl made
  | rules =>
    have fitting (r : Rule) : ∃ h : Head, h.fits r = true := by
      cases isDefault : r.isDefault with
      | true => exact ⟨.fallback, isDefault⟩
      | false => exact ⟨.conditional, by simp [Head.fits, isDefault]⟩
    simp only [Part.declares, Part.names, Ne, List.countP_eq_zero, List.mem_map]
    constructor
    · rintro ⟨h, some⟩
      simp only [Bool.and_eq_true, decide_eq_true_eq, not_forall, not_not] at some
      obtain ⟨r, member, -, same⟩ := some
      exact ⟨r, member, same⟩
    · rintro ⟨r, member, same⟩
      obtain ⟨h, fits⟩ := fitting r
      exact ⟨h, fun none => none r member (by simp [fits, same])⟩

/-- A part that is made of declarations defines what it has to, however raw text is read. -/
theorem defines_iff_mem {doc : Document} (wellFormed : doc.WellFormed)
    (reads : String → String → Prop) {part : Part} (made : part ≠ .raw) {name : String}
    (named : IsName name) :
    part.Defines reads (Draft.ofDocument doc).checkReferences name ↔ name ∈ part.names doc := by
  have lines : part.Defines reads (Draft.ofDocument doc).checkReferences name ↔
      Opens (part.text (Draft.ofDocument doc).checkReferences) name := by
    cases part with
    | raw => exact absurd rfl made
    | _ => rfl
  rw [lines, ← declares_iff_mem doc made]
  refine exists_congr fun h => ?_
  rw [← (part_shows wellFormed part).counted h name named, ← Nat.pos_iff_ne_zero,
    List.countP_pos_iff]

theorem defines_raw (doc : Document) (reads : String → String → Prop) (name : String) :
    Part.raw.Defines reads (Draft.ofDocument doc).checkReferences name ↔
      reads (rawSection doc.rawRego) name := by
  rw [ofDocument_eq]
  rfl

theorem mem_declaredNames {doc : Document} {name : String} :
    name ∈ declaredNames doc ↔ ∃ part : Part, part ≠ .connectors ∧ name ∈ part.names doc := by
  simp only [declaredNames, List.mem_append]
  constructor
  · rintro (constant | predicate | rule)
    · exact ⟨.constants, by decide, constant⟩
    · exact ⟨.predicates, by decide, predicate⟩
    · exact ⟨.rules, by decide, rule⟩
  · rintro ⟨part, own, member⟩
    cases part with
    | connectors => exact absurd rfl own
    | constants => exact .inl member
    | predicates => exact .inr (.inl member)
    | raw => cases member
    | rules => exact .inr (.inr member)

theorem mem_partNames {doc : Document} {name : String} :
    name ∈ Part.connectors.names doc ++ declaredNames doc ↔
      ∃ part : Part, name ∈ part.names doc := by
  rw [List.mem_append, mem_declaredNames]
  constructor
  · rintro (list | ⟨part, -, member⟩)
    · exact ⟨.connectors, list⟩
    · exact ⟨part, member⟩
  · rintro ⟨part, member⟩
    by_cases own : part = .connectors
    · exact .inl (own ▸ member)
    · exact .inr ⟨part, own, member⟩

theorem mem_connector_names {doc : Document} {name : String} :
    name ∈ Part.connectors.names doc ↔ doc.connectors ≠ [] ∧ name = "included_connectors" := by
  by_cases empty : doc.connectors = [] <;> simp [Part.names, empty]

theorem names_named {doc : Document} (wellFormed : doc.WellFormed) {part : Part} {name : String}
    (member : name ∈ part.names doc) : IsName name := by
  cases part with
  | connectors =>
    obtain ⟨-, rfl⟩ := mem_connector_names.1 member
    decide
  | constants => exact wellFormed.constant_named name member
  | predicates => exact wellFormed.predicate_named name member
  | raw => cases member
  | rules =>
    obtain ⟨r, declared, rfl⟩ := List.mem_map.1 member
    exact (wellFormed.rules r declared).name

theorem declared_once {doc : Document} (wellFormed : doc.WellFormed) {name : String}
    {part other : Part} (own : part ≠ .connectors) (others : other ≠ .connectors)
    (here : name ∈ part.names doc) (there : name ∈ other.names doc) : part = other := by
  have predicate (declared : name ∈ doc.predicateNames) : name ∉ doc.constantNames := by
    obtain ⟨p, inside, rfl⟩ := List.mem_map.1 declared
    exact (wellFormed.predicates p inside).free
  have rule (declared : name ∈ doc.rules.map (·.name)) :
      name ∉ doc.constantNames ∧ name ∉ doc.predicateNames := by
    obtain ⟨r, inside, rfl⟩ := List.mem_map.1 declared
    exact ⟨(wellFormed.rules r inside).freeOfConstants,
      (wellFormed.rules r inside).freeOfPredicates⟩
  cases part with
  | connectors => exact absurd rfl own
  | constants =>
    cases other with
    | connectors => exact absurd rfl others
    | constants => rfl
    | predicates => exact absurd here (predicate there)
    | raw => cases there
    | rules => exact absurd here (rule there).1
  | predicates =>
    cases other with
    | connectors => exact absurd rfl others
    | constants => exact absurd there (predicate here)
    | predicates => rfl
    | raw => cases there
    | rules => exact absurd here (rule there).2
  | raw => cases here
  | rules =>
    cases other with
    | connectors => exact absurd rfl others
    | constants => exact absurd there (rule here).1
    | predicates => exact absurd there (rule here).2
    | raw => cases there
    | rules => rfl

theorem connectors_apart {doc : Document} (leaves : LeavesConnectors doc) {name : String}
    {part : Part} (here : name ∈ part.names doc) (list : name ∈ Part.connectors.names doc) :
    part = .connectors := by
  obtain ⟨filled, rfl⟩ := mem_connector_names.1 list
  apply Decidable.byContradiction
  intro own
  rcases leaves with empty | free
  · exact filled empty
  · exact free (mem_declaredNames.2 ⟨part, own, here⟩)

theorem names_once {doc : Document} (wellFormed : doc.WellFormed) (leaves : LeavesConnectors doc)
    {name : String} {part other : Part} (here : name ∈ part.names doc)
    (there : name ∈ other.names doc) : part = other := by
  by_cases own : part = .connectors
  · subst own
    exact (connectors_apart leaves there here).symm
  · by_cases others : other = .connectors
    · subst others
      exact connectors_apart leaves here there
    · exact declared_once wellFormed own others here there

section Reading

variable {doc : Document} (wellFormed : doc.WellFormed) {reads : String → String → Prop}

include wellFormed

theorem DefinedOnce.leavesConnectors (once : DefinedOnce reads doc) : LeavesConnectors doc := by
  apply Decidable.or_iff_not_imp_left.2
  intro filled member
  obtain ⟨part, own, inside⟩ := mem_declaredNames.1 member
  have made : part ≠ .raw := by
    rintro rfl
    cases inside
  have named := names_named wellFormed inside
  refine own (once "included_connectors" named part .connectors ?_ ?_)
  · exact (defines_iff_mem wellFormed reads made named).2 inside
  · exact (defines_iff_mem wellFormed reads (by decide) named).2
      (mem_connector_names.2 ⟨filled, rfl⟩)

theorem DefinedOnce.rawApart (once : DefinedOnce reads doc) : RawApart reads doc := by
  intro name member read
  obtain ⟨part, inside⟩ := mem_partNames.1 member
  have made : part ≠ .raw := by
    rintro rfl
    cases inside
  have named := names_named wellFormed inside
  refine made (once name named part .raw ?_ ((defines_raw doc reads name).2 read))
  exact (defines_iff_mem wellFormed reads made named).2 inside

theorem definedOnce_iff : DefinedOnce reads doc ↔ LeavesConnectors doc ∧ RawApart reads doc := by
  constructor
  · exact fun once => ⟨once.leavesConnectors wellFormed, once.rawApart wellFormed⟩
  · rintro ⟨leaves, apart⟩ name named part other here there
    -- what the raw text defines is of no other part
    have raw {p : Part} (made : p ≠ .raw)
        (defines : p.Defines reads (Draft.ofDocument doc).checkReferences name)
        (read : Part.raw.Defines reads (Draft.ofDocument doc).checkReferences name) : False :=
      apart name (mem_partNames.2 ⟨p, (defines_iff_mem wellFormed reads made named).1 defines⟩)
        ((defines_raw doc reads name).1 read)
    by_cases made : part = .raw
    · subst made
      by_contra differ
      exact raw (Ne.symm differ) there here
    · by_cases others : other = .raw
      · subst others
        exact absurd there (raw made here)
      · exact names_once wellFormed leaves ((defines_iff_mem wellFormed reads made named).1 here)
          ((defines_iff_mem wellFormed reads others named).1 there)

end Reading

theorem separate_iff {doc : Document} (wellFormed : doc.WellFormed) :
    Separate doc ↔ "regex" ∉ declaredNames doc ∧ LeavesConnectors doc := by
  have reserved : ∀ name ∈ globals, name ≠ "regex" → name ∈ reservedNames := by decide
  constructor
  · rintro ⟨defined, used⟩
    exact ⟨used "regex" (by decide), Decidable.or_iff_not_imp_left.2 defined⟩
  · rintro ⟨noRegex, leaves⟩
    refine ⟨fun filled => leaves.resolve_left filled, fun name global member => ?_⟩
    by_cases same : name = "regex"
    · exact noRegex (same ▸ member)
    · obtain ⟨part, -, inside⟩ := mem_declaredNames.1 member
      exact (names_named wellFormed inside).2 (reserved name global same)

/-- Of the names that a module defines or uses by itself, a compiled document may declare two and no
    others: that of the call for patterns, and that of the list of connectors. Only the second makes
    two parts of the module define the same name, and else the raw text does, if it defines a name
    that another part does. -/
theorem declared_names_clash {doc : Document} {policy : Compiled}
    (compiled : doc.compile = .ok policy) :
    (Separate doc ↔ "regex" ∉ declaredNames doc ∧ LeavesConnectors doc) ∧
      ∀ reads, DefinedOnce reads doc ↔ LeavesConnectors doc ∧ RawApart reads doc := by
  have wellFormed := ((compile_eq_ok doc policy).1 compiled).1
  exact ⟨separate_iff wellFormed, fun _ => definedOnce_iff wellFormed⟩

instance (text name : String) : Decidable (Opens text name) :=
  decidable_of_iff
    (([.predicate, .assignment, .conditional, .fallback] : List Head).any fun h =>
      (text.toList.splitOn '\n').any (h.opens name)) (by
    have all (h : Head) : h ∈ ([.predicate, .assignment, .conditional, .fallback] : List Head) := by
      cases h <;> decide
    simp only [List.any_eq_true, Opens, all, true_and])

instance (doc : Document) : Decidable (RawApart Opens doc) :=
  inferInstanceAs (Decidable (∀ name ∈ _, ¬ Opens _ name))

def connected (constant predicate : String) (raw : Option String) : Document where
  description := none
  connectors := ["db"]
  constants := [⟨constant, "1"⟩]
  predicates := [⟨predicate, [⟨.matchesRegex, some "name", ["^a"], none⟩]⟩]
  rules := []
  rawRego := raw

/-- The list of connectors is defined twice if a constant has its name, and a predicate is if the
    raw text assigns to it; that of the call for patterns is not. -/
theorem connected_names_clash :
    (∃ policy, (connected "included_connectors" "short" none).compile = .ok policy ∧
      ¬ Separate (connected "included_connectors" "short" none) ∧
      ¬ DefinedOnce Opens (connected "included_connectors" "short" none)) ∧
    (∃ policy, (connected "limit" "regex" none).compile = .ok policy ∧
      ¬ Separate (connected "limit" "regex" none) ∧
      DefinedOnce Opens (connected "limit" "regex" none)) ∧
    (∃ policy, (connected "limit" "short" (some "short := 1")).compile = .ok policy ∧
      Separate (connected "limit" "short" (some "short := 1")) ∧
      ¬ DefinedOnce Opens (connected "limit" "short" (some "short := 1"))) ∧
    (∃ policy, (connected "limit" "short" (some "long := 1")).compile = .ok policy ∧
      Separate (connected "limit" "short" (some "long := 1")) ∧
      DefinedOnce Opens (connected "limit" "short" (some "long := 1"))) := by
  have first := compile_of_clean (connected "included_connectors" "short" none) (by decide +kernel)
  have second := compile_of_clean (connected "limit" "regex" none) (by decide +kernel)
  have third := compile_of_clean (connected "limit" "short" (some "short := 1")) (by decide +kernel)
  have fourth := compile_of_clean (connected "limit" "short" (some "long := 1")) (by decide +kernel)
  have taken : ¬ LeavesConnectors (connected "included_connectors" "short" none) := by
    rintro (empty | free)
    · cases empty
    · exact free (by decide)
  have assigned : Opens (rawSection (some "short := 1")) "short" := by decide +kernel
  refine ⟨⟨_, first, ?_, ?_⟩, ⟨_, second, ?_, ?_⟩, ⟨_, third, ?_, ?_⟩, ⟨_, fourth, ?_, ?_⟩⟩
  · exact fun holds => taken ((declared_names_clash first).1.1 holds).2
  · exact fun holds => taken (((declared_names_clash first).2 Opens).1 holds).1
  · exact fun holds => ((declared_names_clash second).1.1 holds).1 (by decide)
  · exact ((declared_names_clash second).2 Opens).2 ⟨.inr (by decide), by decide +kernel⟩
  · exact (declared_names_clash third).1.2 ⟨by decide, .inr (by decide)⟩
  · intro holds
    exact (((declared_names_clash third).2 Opens).1 holds).2 "short" (by decide) assigned
  · exact (declared_names_clash fourth).1.2 ⟨by decide, .inr (by decide)⟩
  · exact ((declared_names_clash fourth).2 Opens).2 ⟨.inr (by decide), by decide +kernel⟩

end RegoPolicy.Rego
