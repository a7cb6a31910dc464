import RegoPolicy.Proofs.SortedNames
import RegoPolicy.Proofs.WellFormed

/-!
All that is found in a document, in the order in which it is told. The order is said of the lists of
the document alone: each declaration at its place, then the conditions by the names of their
predicates, then the references of each rule. No finding keeps another one back.
-/
namespace RegoPolicy.Policy

namespace Document

def constantIssues (doc : Document) (place : Nat) (c : Constant) : List Issue :=
  c.issues ++ only (c.name ∈ (doc.constants.take place).map (·.name)) (.nameTaken .earlierConstant)

def predicateIssues (doc : Document) (p : Predicate) : List Issue :=
  checkName p.name ++ only (p.name ∈ doc.constantNames) (.nameTaken .constant) ++
    only p.conditions.isEmpty (.missing .conditions)

def ruleIssues (doc : Document) (place : Nat) (r : Rule) : List Issue :=
  r.issues ++
    (if r.name ∈ doc.predicateNames then [.nameTaken .predicate]
      else if r.name ∈ doc.constantNames then [.nameTaken .constant]
      else []) ++
    only (r.isDefault ∧ ∃ s ∈ doc.rules.take place, s.isDefault ∧ s.name = r.name)
      (.nameTaken .earlierDefault)

def conditionIssues (doc : Document) (c : Condition) : List Issue :=
  c.issues ++
    match c.constant with
    | none => []
    | some name =>
      only (name ≠ "" ∧ name ∉ doc.constantNames)
        (.undefined .constant name (sortedNames doc.constantNames))

def referenceIssues (doc : Document) (r : Rule) : List Issue :=
  (r.whenAllOf.filter fun ref => ref.name ∉ doc.predicateNames).map fun ref =>
    .undefined .predicate ref.name (sortedNames doc.predicateNames)

/-- The findings on the conditions of a predicate. Its blocks are numbered if there are several. -/
def conditionFindings (doc : Document) (name : String) : List Finding :=
  let blocks := doc.predicates.filter fun p => p.name = name
  blocks.zipIdx.flatMap fun (p, block) =>
    p.conditions.zipIdx.flatMap fun (c, place) =>
      findingsAt (.condition name (if 1 < blocks.length then some block else none) place)
        (doc.conditionIssues c)

def diagnosis (doc : Document) : List Finding :=
  (doc.constants.zipIdx.flatMap fun (c, place) =>
    findingsAt (.constant place c.name) (doc.constantIssues place c)) ++
  (doc.predicates.zipIdx.flatMap fun (p, place) =>
    findingsAt (.predicate place p.name) (doc.predicateIssues p)) ++
  (doc.rules.zipIdx.flatMap fun (r, place) =>
    findingsAt (.rule place r.name) (doc.ruleIssues place r)) ++
  (sortedNames doc.predicateNames).flatMap doc.conditionFindings ++
  (doc.rules.zipIdx.flatMap fun (r, place) =>
    findingsAt (.rule place r.name) (doc.referenceIssues r))

end Document

theorem inOrder_eq_flatMap {α β : Type} (tell : List α → α → List β) (before rest : List α) :
    inOrder tell before rest = (rest.zipIdx before.length).flatMap fun (a, place) =>
      tell ((before ++ rest).take place) a := by
  induction rest generalizing before with
  | nil => rfl
  | cons a rest ih =>
    have later := ih (before ++ [a])
    simp only [List.length_append, List.length_singleton, List.append_assoc,
      List.singleton_append] at later
    rw [inOrder, List.zipIdx_cons, List.flatMap_cons, later]
    simp

theorem flatMap_zipIdx_congr {α β : Type} {l : List α} {f g : α × Nat → List β}
    (same : ∀ a place, place < l.length → f (a, place) = g (a, place)) :
    l.zipIdx.flatMap f = l.zipIdx.flatMap g := by
  apply List.flatMap_congr
  rintro ⟨a, place⟩ member
  have inside := List.getElem?_eq_some_iff.1 (List.mk_mem_zipIdx_iff_getElem?.1 member)
  exact same a place inside.1

theorem inOrder_by_place {α β : Type} {tell : List α → α → List β} {told : α × Nat → List β}
    {l : List α}
    (same : ∀ a place, (l.take place).length = place → tell (l.take place) a = told (a, place)) :
    inOrder tell [] l = l.zipIdx.flatMap told := by
  rw [inOrder_eq_flatMap]
  refine flatMap_zipIdx_congr fun a place inside => same a place ?_
  rw [List.length_take]
  omega

theorem any_named {α : Type} (l : List α) (nameOf : α → String) (name : String) :
    (l.any fun a => nameOf a = name) = decide (name ∈ l.map nameOf) := by
  rw [Bool.eq_iff_iff]
  simp

theorem any_constant_named (doc : Document) (name : String) :
    (doc.constants.any fun c => c.name = name) = decide (name ∈ doc.constantNames) :=
  any_named doc.constants (·.name) name

theorem any_predicate_named (doc : Document) (name : String) :
    (doc.predicates.any fun p => p.name = name) = decide (name ∈ doc.predicateNames) :=
  any_named doc.predicates (·.name) name

theorem constants_diagnosed (doc : Document) :
    inOrder constantFindings [] doc.constants =
      doc.constants.zipIdx.flatMap fun (c, place) =>
        findingsAt (.constant place c.name) (doc.constantIssues place c) := by
  refine inOrder_by_place fun c place length => ?_
  simp only [constantFindings, Document.constantIssues, length, any_named]

theorem predicates_diagnosed (doc : Document) :
    inOrder (predicateFindings doc.constants) [] doc.predicates =
      doc.predicates.zipIdx.flatMap fun (p, place) =>
        findingsAt (.predicate place p.name) (doc.predicateIssues p) := by
  refine inOrder_by_place fun p place length => ?_
  simp only [predicateFindings, Predicate.issues, Document.predicateIssues, length,
    any_constant_named]

theorem nameConflicts_diagnosed (doc : Document) (place : Nat) (r : Rule) :
    r.issues ++ nameConflicts doc (doc.rules.take place) r = doc.ruleIssues place r := by
  have earlier :
      (r.isDefault && (doc.rules.take place).any fun s => s.isDefault && s.name = r.name) =
        decide (r.isDefault ∧ ∃ s ∈ doc.rules.take place, s.isDefault ∧ s.name = r.name) := by
    rw [Bool.eq_iff_iff]
    simp
  simp only [nameConflicts, Document.ruleIssues, any_constant_named, any_predicate_named, earlier,
    decide_eq_true_eq, List.append_assoc]
  simp only [only, decide_eq_true_eq]

theorem rules_diagnosed (doc : Document) :
    inOrder (ruleFindings doc) [] doc.rules =
      doc.rules.zipIdx.flatMap fun (r, place) =>
        findingsAt (.rule place r.name) (doc.ruleIssues place r) := by
  refine inOrder_by_place fun r place length => ?_
  simp only [ruleFindings, nameConflicts_diagnosed, length]

theorem draft_constants (doc : Document) :
    (Draft.ofDocument doc).constants.keys = sortedNames doc.constantNames ∧
      ∀ name, (Draft.ofDocument doc).constants.contains name =
        decide (name ∈ doc.constantNames) := by
  rw [ofDocument_eq]
  refine ⟨constantTable_keys doc.constants, fun name => ?_⟩
  rw [contains_constantTable, any_constant_named]

theorem draft_predicates (doc : Document) :
    (Draft.ofDocument doc).predicates.keys = sortedNames doc.predicateNames ∧
      ∀ name, (Draft.ofDocument doc).predicates.contains name =
        decide (name ∈ doc.predicateNames) := by
  rw [ofDocument_eq]
  refine ⟨predicateTable_keys doc.predicates, fun name => ?_⟩
  rw [contains_predicateTable, any_predicate_named]

theorem conditionIssues_diagnosed (doc : Document) (c : Condition) :
    (Draft.ofDocument doc).conditionIssues c = doc.conditionIssues c := by
  obtain ⟨keys, held⟩ := draft_constants doc
  simp only [Draft.conditionIssues, keys, held, Document.conditionIssues, Condition.constantName,
    filled]
  congr 1
  cases c.constant with
  | none => rfl
  | some name =>
    by_cases empty : name = ""
    · simp [empty, only]
    · by_cases declared : name ∈ doc.constantNames
      · simp [empty, declared, only]
      · simp [Option.filter_some, empty, declared, only]

theorem blockFindings_diagnosed (doc : Document) (name : String) :
    (Draft.ofDocument doc).blockFindings name (blocksNamed doc.predicates name) =
      doc.conditionFindings name := by
  unfold Draft.blockFindings Document.conditionFindings blocksNamed
  simp only [conditionIssues_diagnosed]

theorem conditions_diagnosed (doc : Document) :
    ((Draft.ofDocument doc).predicates.entries.flatMap fun (name, blocks) =>
      (Draft.ofDocument doc).blockFindings name blocks) =
        (sortedNames doc.predicateNames).flatMap doc.conditionFindings := by
  have entries : (Draft.ofDocument doc).predicates.entries =
      (sortedNames doc.predicateNames).map fun name => (name, blocksNamed doc.predicates name) := by
    rw [ofDocument_eq]
    exact predicateTable_entries doc.predicates
  rw [entries, List.flatMap_map]
  exact List.flatMap_congr fun name _ => blockFindings_diagnosed doc name

theorem referenceIssues_diagnosed (doc : Document) (r : Rule) (place : Nat) :
    (Draft.ofDocument doc).ruleReferenceFindings { r with index := place } =
      findingsAt (.rule place r.name) (doc.referenceIssues r) := by
  obtain ⟨keys, held⟩ := draft_predicates doc
  simp only [Draft.ruleReferenceFindings, Rule.location, keys, held, Document.referenceIssues,
    decide_not]

theorem references_diagnosed (doc : Document) :
    (Draft.ofDocument doc).rules.flatMap (Draft.ofDocument doc).ruleReferenceFindings =
      doc.rules.zipIdx.flatMap fun (r, place) =>
        findingsAt (.rule place r.name) (doc.referenceIssues r) := by
  have rules : (Draft.ofDocument doc).rules = placed doc.rules := by rw [ofDocument_eq]
  rw [rules, placed, List.flatMap_map]
  exact flatMap_zipIdx_congr fun r place _ => referenceIssues_diagnosed doc r place

/-- The checks find what is to be found in a document, all of it and in order, and a document with
    findings is refused with just these. -/
theorem findings_are_diagnosis (doc : Document) :
    (Draft.ofDocument doc).checkReferences.findings = doc.diagnosis ∧
      doc.validate = if doc.diagnosis = [] then .ok () else .error (.invalid doc.diagnosis) := by
  have findings : (Draft.ofDocument doc).checkReferences.findings = doc.diagnosis := by
    have declared : (Draft.ofDocument doc).findings = declarationFindings doc := by
      rw [ofDocument_eq]
    simp only [Draft.checkReferences, Draft.report, Draft.referenceFindings, declared,
      declarationFindings, constants_diagnosed, predicates_diagnosed, rules_diagnosed,
      conditions_diagnosed, references_diagnosed, Document.diagnosis, List.append_assoc]
  exact ⟨findings, by rw [validate_eq, findings]⟩

end RegoPolicy.Policy
