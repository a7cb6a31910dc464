import RegoPolicy.Proofs.SortedNames
import RegoPolicy.Proofs.WellFormed

/-!
Where the order of declarations has no meaning, it makes no difference to the module. Constants may
be declared in any order, predicates may change places with predicates of other names, and default
rules with other rules; the places that rules keep are not looked at.
-/
namespace RegoPolicy.Policy

open Rego

def Rule.unplaced (r : Rule) : Rule := { r with index := 0 }

/-- Documents that declare the same and differ at most in orders without meaning. -/
structure SameDeclarations (a b : Document) : Prop where
  description : a.description = b.description
  connectors : a.connectors = b.connectors
  rawRego : a.rawRego = b.rawRego
  constants : a.constants.Perm b.constants
  predicates : ∀ name, (a.predicates.filter fun p => p.name = name) =
    b.predicates.filter fun p => p.name = name
  conditional : (a.rules.filter fun r => !r.isDefault).map Rule.unplaced =
    (b.rules.filter fun r => !r.isDefault).map Rule.unplaced
  fallback : (a.rules.filter fun r => r.isDefault).map Rule.unplaced =
    (b.rules.filter fun r => r.isDefault).map Rule.unplaced

section RuleOrder

theorem placeRule_between {r : Rule} {front back : List Rule}
    (behind : ∀ s ∈ front, comesBefore r s = false) (before : ∀ s ∈ back, comesBefore r s = true) :
    placeRule r (front ++ back) = front ++ r :: back := by
  induction front with
  | nil =>
    cases back with
    | nil => rfl
    | cons s back =>
      rw [List.nil_append, placeRule, if_pos (before s List.mem_cons_self), List.nil_append]
  | cons s front ih =>
    have rest := ih fun t member => behind t (List.mem_cons_of_mem s member)
    rw [List.cons_append, placeRule, if_neg (by simp [behind s List.mem_cons_self]), rest,
      List.cons_append]

theorem placeRule_conditional {r : Rule} (conditional : r.isDefault = false) (rest : List Rule)
    (later : ∀ s ∈ rest, r.index < s.index) : placeRule r rest = r :: rest := by
  refine @placeRule_between r [] rest (by simp) fun s member => ?_
  have earlier := Nat.le_of_lt (later s member)
  cases kind : s.isDefault with
  | true => simp [comesBefore, conditional, kind]
  | false => simp [comesBefore, conditional, kind, earlier]

theorem placeRule_default {r : Rule} (fallback : r.isDefault = true) {front back : List Rule}
    (conditional : ∀ s ∈ front, s.isDefault = false) (defaults : ∀ s ∈ back, s.isDefault = true)
    (later : ∀ s ∈ back, r.index < s.index) : placeRule r (front ++ back) = front ++ r :: back := by
  apply placeRule_between
  · intro s member
    simp [comesBefore, fallback, conditional s member]
  · intro s member
    have earlier := Nat.le_of_lt (later s member)
    simp [comesBefore, fallback, defaults s member, earlier]

theorem orderRules_rising {rules : List Rule}
    (rising : rules.Pairwise fun r s => r.index < s.index) :
    orderRules rules =
      (rules.filter fun r => !r.isDefault) ++ rules.filter fun r => r.isDefault := by
  induction rules with
  | nil => rfl
  | cons r rest ih =>
    obtain ⟨later, tail⟩ := List.pairwise_cons.1 rising
    have step : orderRules (r :: rest) = placeRule r (orderRules rest) := rfl
    rw [step, ih tail]
    cases kind : r.isDefault with
    | false =>
      rw [placeRule_conditional kind]
      · simp [kind]
      · intro s member
        simp only [List.mem_append, List.mem_filter] at member
        rcases member with ⟨inside, _⟩ | ⟨inside, _⟩
        · exact later s inside
        · exact later s inside
    | true =>
      rw [placeRule_default kind]
      · simp [kind]
      · simp
      · simp
      · intro s member
        exact later s (List.mem_filter.1 member).1

theorem placed_rising (rules : List Rule) :
    (placed rules).Pairwise fun r s => r.index < s.index := by
  rw [placed, List.pairwise_map]
  have places : (rules.zipIdx.map Prod.snd).Pairwise fun i j => i < j := by
    rw [List.zipIdx_map_snd]
    exact List.pairwise_lt_range'
  exact List.pairwise_map.1 places

theorem map_filter_placed {β : Type} (keeps : Rule → Bool) (view : Rule → β) (rules : List Rule)
    (kept : ∀ r index, keeps { r with index := index } = keeps r)
    (seen : ∀ r index, view { r with index := index } = view r) :
    ((placed rules).filter keeps).map view = (rules.filter keeps).map view := by
  have pairs (l : List Rule) :
      (l.filter keeps).map view = ((l.map fun r => (keeps r, view r)).filter (·.1)).map (·.2) := by
    rw [List.filter_map, List.map_map]
    rfl
  rw [pairs, pairs, map_placed]
  intro r index
  rw [kept, seen]

theorem ruleSections_placed (rules : List Rule) :
    ruleSections (placed rules) =
      ((rules.filter fun r => !r.isDefault) ++ rules.filter fun r => r.isDefault).map
        fun r => rule r ++ "\n" := by
  rw [ruleSections, orderRules_rising (placed_rising rules), List.map_append, List.map_append]
  congr 1
  · exact map_filter_placed _ _ rules (fun _ _ => rfl) fun _ _ => rfl
  · exact map_filter_placed _ _ rules (fun _ _ => rfl) fun _ _ => rfl

end RuleOrder

theorem Rule.unplaced_wellFormed {constants predicates : List String} (r : Rule) :
    r.unplaced.WellFormed constants predicates ↔ r.WellFormed constants predicates := by
  constructor
  · rintro ⟨name, ofPredicates, ofConstants, unconditional, unfiltered, targets, references⟩
    exact ⟨name, ofPredicates, ofConstants, unconditional, unfiltered, targets, references⟩
  · rintro ⟨name, ofPredicates, ofConstants, unconditional, unfiltered, targets, references⟩
    exact ⟨name, ofPredicates, ofConstants, unconditional, unfiltered, targets, references⟩

namespace SameDeclarations

variable {a b : Document}

theorem symm (same : SameDeclarations a b) : SameDeclarations b a where
  description := same.description.symm
  connectors := same.connectors.symm
  rawRego := same.rawRego.symm
  constants := same.constants.symm
  predicates name := (same.predicates name).symm
  conditional := same.conditional.symm
  fallback := same.fallback.symm

theorem mem_predicates (same : SameDeclarations a b) (p : Predicate) :
    p ∈ a.predicates ↔ p ∈ b.predicates := by
  have blocks := congrArg (p ∈ ·) (same.predicates p.name)
  simpa using blocks

theorem mem_predicateNames (same : SameDeclarations a b) (name : String) :
    name ∈ a.predicateNames ↔ name ∈ b.predicateNames := by
  simp only [Document.predicateNames, List.mem_map, same.mem_predicates]

theorem mem_constantNames (same : SameDeclarations a b) (name : String) :
    name ∈ a.constantNames ↔ name ∈ b.constantNames :=
  (same.constants.map _).mem_iff

theorem map_rules {β : Type} (same : SameDeclarations a b) (view : Rule → β)
    (seen : ∀ r : Rule, view r.unplaced = view r) :
    (a.rules.filter fun r => !r.isDefault).map view =
        (b.rules.filter fun r => !r.isDefault).map view ∧
      (a.rules.filter fun r => r.isDefault).map view =
        (b.rules.filter fun r => r.isDefault).map view := by
  have through (l : List Rule) : l.map view = (l.map Rule.unplaced).map view := by
    rw [List.map_map]
    exact List.map_congr_left fun r _ => (seen r).symm
  constructor
  · rw [through, same.conditional, ← through]
  · rw [through, same.fallback, ← through]

theorem rules_perm (same : SameDeclarations a b) :
    (a.rules.map Rule.unplaced).Perm (b.rules.map Rule.unplaced) := by
  have split (l : List Rule) : (l.map Rule.unplaced).Perm
      ((l.filter fun r => r.isDefault).map Rule.unplaced ++
        (l.filter fun r => !r.isDefault).map Rule.unplaced) := by
    rw [← List.map_append]
    exact ((List.filter_append_perm (fun r => r.isDefault) l).map _).symm
  have whole := split a.rules
  rw [same.fallback, same.conditional] at whole
  exact whole.trans (split b.rules).symm

theorem forall_rules (same : SameDeclarations a b) {holds : Rule → Prop}
    (unplaced : ∀ r : Rule, holds r.unplaced ↔ holds r) (each : ∀ r ∈ a.rules, holds r) :
    ∀ r ∈ b.rules, holds r := by
  intro r member
  have seen : r.unplaced ∈ a.rules.map Rule.unplaced :=
    same.rules_perm.mem_iff.2 (List.mem_map_of_mem member)
  obtain ⟨s, inside, equal⟩ := List.mem_map.1 seen
  rw [← unplaced, ← equal, unplaced]
  exact each s inside

theorem condition_wellFormed (same : SameDeclarations a b) {c : Condition}
    (wellFormed : c.WellFormed a.constantNames) : c.WellFormed b.constantNames where
  subject := wellFormed.subject
  comparand := wellFormed.comparand
  path := wellFormed.path
  oneSource := wellFormed.oneSource
  declared name given := (same.mem_constantNames name).1 (wellFormed.declared name given)

theorem predicate_wellFormed (same : SameDeclarations a b) {p : Predicate}
    (wellFormed : p.WellFormed a.constantNames) : p.WellFormed b.constantNames where
  name := wellFormed.name
  free member := wellFormed.free ((same.mem_constantNames p.name).2 member)
  nonempty := wellFormed.nonempty
  conditions c member := same.condition_wellFormed (wellFormed.conditions c member)

theorem rule_wellFormed (same : SameDeclarations a b) {r : Rule}
    (wellFormed : r.WellFormed a.constantNames a.predicateNames) :
    r.WellFormed b.constantNames b.predicateNames where
  name := wellFormed.name
  freeOfPredicates member := wellFormed.freeOfPredicates ((same.mem_predicateNames r.name).2 member)
  freeOfConstants member := wellFormed.freeOfConstants ((same.mem_constantNames r.name).2 member)
  unconditional := wellFormed.unconditional
  unfiltered := wellFormed.unfiltered
  targets := wellFormed.targets
  references ref member := (same.mem_predicateNames ref.name).1 (wellFormed.references ref member)

theorem wellFormed (same : SameDeclarations a b) (wellFormed : a.WellFormed) : b.WellFormed where
  constants c member := wellFormed.constants c (same.constants.mem_iff.2 member)
  distinct := (same.constants.map _).nodup_iff.1 wellFormed.distinct
  predicates p member :=
    same.predicate_wellFormed (wellFormed.predicates p ((same.mem_predicates p).2 member))
  rules := same.forall_rules Rule.unplaced_wellFormed fun r member =>
    same.rule_wellFormed (wellFormed.rules r member)
  oneDefault := by
    have names := (same.map_rules (·.name) fun _ => rfl).2
    rw [Document.defaultNames, ← names]
    exact wellFormed.oneDefault

theorem predicateTable_eq (same : SameDeclarations a b) :
    predicateTable a.predicates = predicateTable b.predicates := by
  have names := sortedNames_congr same.mem_predicateNames
  simp only [Document.predicateNames] at names
  apply Table.ext_entries
  rw [predicateTable_entries, predicateTable_entries, names]
  exact List.map_congr_left fun name _ => congrArg (name, ·) (same.predicates name)

theorem ruleSections_eq (same : SameDeclarations a b) :
    ruleSections (placed a.rules) = ruleSections (placed b.rules) := by
  obtain ⟨conditional, fallback⟩ := same.map_rules (fun r => rule r ++ "\n") fun _ => rfl
  rw [ruleSections_placed, ruleSections_placed, List.map_append, List.map_append, conditional,
    fallback]

theorem noRules_eq (same : SameDeclarations a b) :
    (placed a.rules).isEmpty = (placed b.rules).isEmpty := by
  have lengths := same.rules_perm.length_eq
  simp only [List.length_map] at lengths
  rw [Bool.eq_iff_iff, List.isEmpty_iff_length_eq_zero, List.isEmpty_iff_length_eq_zero]
  simp [placed, lengths]

theorem moduleText_eq (same : SameDeclarations a b) (wellFormed : a.WellFormed) :
    moduleText (Draft.ofDocument a).checkReferences =
      moduleText (Draft.ofDocument b).checkReferences := by
  have constants := constantTable_of_perm wellFormed.distinct same.constants
  have needs : importSection (Draft.ofDocument a).checkReferences =
      importSection (Draft.ofDocument b).checkReferences := by
    simp only [importSection, needsIf, needsIn, Draft.checkReferences, Draft.report, ofDocument_eq,
      same.predicateTable_eq, same.noRules_eq]
  have parts : sections (Draft.ofDocument a).checkReferences =
      sections (Draft.ofDocument b).checkReferences := by
    unfold sections
    rw [needs]
    simp only [Draft.checkReferences, Draft.report, ofDocument_eq, same.description,
      same.connectors, same.rawRego, constants, same.predicateTable_eq, same.ruleSections_eq]
  rw [moduleText, moduleText, parts]

theorem compile_of (same : SameDeclarations a b) {policy : Compiled}
    (compiled : a.compile = .ok policy) : b.compile = .ok policy := by
  obtain ⟨checked, text⟩ := (compile_eq_ok a policy).1 compiled
  refine (compile_eq_ok b policy).2 ⟨same.wellFormed checked, ?_⟩
  rw [text, same.moduleText_eq checked]

end SameDeclarations

/-- Documents that declare the same compile to the same policy, or neither compiles. -/
theorem compile_ignores_order {a b : Document} (same : SameDeclarations a b) (policy : Compiled) :
    a.compile = .ok policy ↔ b.compile = .ok policy :=
  ⟨same.compile_of, same.symm.compile_of⟩

def inOneOrder : Document where
  description := none
  connectors := ["db"]
  constants := [⟨"zeta", "1"⟩, ⟨"alpha", "[2]"⟩]
  predicates :=
    [⟨"hot", [⟨.equals, some "a", [], some "zeta"⟩]⟩,
     ⟨"cold", [⟨.member, some "b", [], some "alpha"⟩]⟩,
     ⟨"hot", [⟨.present, none, [], none⟩]⟩]
  rules :=
    [⟨"allow", true, ⟨.block, none, none, none, none, none, none, none, false⟩, [], 7⟩,
     ⟨"allow", false, ⟨.allow, none, none, none, none, none, none, none, false⟩,
       [⟨"hot", false⟩], 7⟩,
     ⟨"hide", false, ⟨.mask, none, none, none, none, none, none, none, true⟩,
       [⟨"cold", true⟩], 0⟩]
  rawRego := none

def inOtherOrder : Document where
  description := none
  connectors := ["db"]
  constants := [⟨"alpha", "[2]"⟩, ⟨"zeta", "1"⟩]
  predicates :=
    [⟨"cold", [⟨.member, some "b", [], some "alpha"⟩]⟩,
     ⟨"hot", [⟨.equals, some "a", [], some "zeta"⟩]⟩,
     ⟨"hot", [⟨.present, none, [], none⟩]⟩]
  rules :=
    [⟨"allow", false, ⟨.allow, none, none, none, none, none, none, none, false⟩,
       [⟨"hot", false⟩], 3⟩,
     ⟨"hide", false, ⟨.mask, none, none, none, none, none, none, none, true⟩,
       [⟨"cold", true⟩], 3⟩,
     ⟨"allow", true, ⟨.block, none, none, none, none, none, none, none, false⟩, [], 1⟩]
  rawRego := none

theorem compile_ignores_order_moved :
    SameDeclarations inOneOrder inOtherOrder ∧ inOneOrder ≠ inOtherOrder ∧
      ∃ policy, inOneOrder.compile = .ok policy ∧ inOtherOrder.compile = .ok policy := by
  have same : SameDeclarations inOneOrder inOtherOrder := by
    refine ⟨rfl, rfl, rfl, .swap _ _ _, fun name => ?_, by decide, by decide⟩
    by_cases hot : "hot" = name
    · subst hot
      decide
    · by_cases cold : "cold" = name
      · subst cold
        decide
      · simp [inOneOrder, inOtherOrder, hot, cold]
  have compiled := compile_of_clean inOneOrder (by decide +kernel)
  exact ⟨same, by decide, _, compiled, (compile_ignores_order same _).1 compiled⟩

end RegoPolicy.Policy
