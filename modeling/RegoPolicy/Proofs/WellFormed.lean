import RegoPolicy.Policy.Compile
import RegoPolicy.Proofs.Declarations
import RegoPolicy.Proofs.Names
import RegoPolicy.Proofs.Scanner

/-!
Which documents are well-formed, said of their lists alone, and that the checks accept exactly
these. A document compiles if and only if it is well-formed.
-/
namespace RegoPolicy.Policy

open Text Json

/-- A text that is set to something. -/
def Gives (field : Option String) (s : String) : Prop := field = some s ∧ s ≠ ""

def Document.constantNames (doc : Document) : List String := doc.constants.map (·.name)

def Document.predicateNames (doc : Document) : List String := doc.predicates.map (·.name)

def Document.defaultNames (doc : Document) : List String :=
  (doc.rules.filter (·.isDefault)).map (·.name)

structure Constant.WellFormed (c : Constant) : Prop where
  name : IsName c.name
  value : IsText (ofString c.value)

structure Condition.WellFormed (constants : List String) (c : Condition) : Prop where
  subject : c.operator.isExistence = false → ∃ path, Gives c.subject path
  comparand : c.operator.isExistence = false → c.values ≠ [] ∨ ∃ name, Gives c.constant name
  path : ∀ path, Gives c.subject path → IsDotted path
  oneSource : c.values = [] ∨ ∀ name, ¬ Gives c.constant name
  declared : ∀ name, Gives c.constant name → name ∈ constants

structure Predicate.WellFormed (constants : List String) (p : Predicate) : Prop where
  name : IsName p.name
  free : p.name ∉ constants
  nonempty : p.conditions ≠ []
  conditions : ∀ c ∈ p.conditions, c.WellFormed constants

/-- Masking and decrypting take one target, the other actions none or one. -/
def Effect.RightTargets (e : Effect) : Prop :=
  if e.action = .mask ∨ e.action = .decrypt then e.targets.length = 1 else e.targets.length ≤ 1

structure Rule.WellFormed (constants predicates : List String) (r : Rule) : Prop where
  name : IsName r.name
  freeOfPredicates : r.name ∉ predicates
  freeOfConstants : r.name ∉ constants
  unconditional : r.isDefault = true → r.whenAllOf = []
  unfiltered : r.isDefault = true → ∀ target, r.effect.target = some target → target = .allColumns
  targets : r.effect.RightTargets
  references : ∀ ref ∈ r.whenAllOf, ref.name ∈ predicates

structure Document.WellFormed (doc : Document) : Prop where
  constants : ∀ c ∈ doc.constants, c.WellFormed
  distinct : doc.constantNames.Nodup
  predicates : ∀ p ∈ doc.predicates, p.WellFormed doc.constantNames
  rules : ∀ r ∈ doc.rules, r.WellFormed doc.constantNames doc.predicateNames
  oneDefault : doc.defaultNames.Nodup

theorem Document.WellFormed.constant_named {doc : Document} (wellFormed : doc.WellFormed) :
    ∀ name ∈ doc.constantNames, IsName name := by
  simpa [Document.constantNames] using fun c member => (wellFormed.constants c member).name

theorem Document.WellFormed.predicate_named {doc : Document} (wellFormed : doc.WellFormed) :
    ∀ name ∈ doc.predicateNames, IsName name := by
  simpa [Document.predicateNames] using fun p member => (wellFormed.predicates p member).name

theorem Document.WellFormed.reference_named {doc : Document} (wellFormed : doc.WellFormed)
    {r : Rule} (member : r ∈ doc.rules) : ∀ ref ∈ r.whenAllOf, IsName ref.name := by
  intro ref inside
  exact wellFormed.predicate_named ref.name ((wellFormed.rules r member).references ref inside)

theorem only_eq_nil {α : Type} (holds : Bool) (a : α) : only holds a = [] ↔ holds = false := by
  cases holds <;> simp [only]

theorem filled_eq_some (field : Option String) (s : String) :
    filled field = some s ↔ Gives field s := by
  simp [filled, Gives, Option.filter_eq_some_iff]

theorem filled_isNone (field : Option String) :
    (filled field).isNone = false ↔ ∃ s, Gives field s := by
  simp only [← filled_eq_some]
  cases filled field <;> simp

theorem checkName_eq_nil (name : String) : checkName name = [] ↔ IsName name := by
  rw [← nameFault?_eq_none]
  unfold checkName
  split <;> simp_all

theorem Constant.issues_eq_nil (c : Constant) : c.issues = [] ↔ c.WellFormed := by
  unfold Constant.issues
  rw [List.append_eq_nil_iff, checkName_eq_nil, only_eq_nil, Bool.not_eq_false',
    isLiteral_iff_isText]
  exact ⟨fun ⟨name, value⟩ => ⟨name, value⟩, fun ⟨name, value⟩ => ⟨name, value⟩⟩

theorem Predicate.issues_eq_nil (declared : String → Bool) (p : Predicate) :
    p.issues declared = [] ↔
      IsName p.name ∧ declared p.name = false ∧ p.conditions ≠ [] := by
  unfold Predicate.issues
  simp only [List.append_eq_nil_iff, checkName_eq_nil, only_eq_nil, and_assoc]
  simp

theorem Condition.badPath_eq_none (c : Condition) :
    c.badPath = none ↔ ∀ path, Gives c.subject path → IsDotted path := by
  simp only [← filled_eq_some, ← isPath_iff_isDotted]
  simp [Condition.badPath, Condition.path, Option.filter_eq_none_iff]

theorem Condition.issues_eq_nil (c : Condition) (constants : List String) :
    c.issues = [] ∧ (∀ name, Gives c.constant name → name ∈ constants) ↔
      c.WellFormed constants := by
  have bad : c.badPath.toList.map Issue.pathInvalid = [] ↔ c.badPath = none := by
    cases c.badPath <;> simp
  unfold Condition.issues
  simp only [List.append_eq_nil_iff, only_eq_nil, bad, Condition.badPath_eq_none, Condition.path,
    Condition.constantName]
  constructor
  · rintro ⟨⟨⟨⟨subject, path⟩, comparand⟩, source⟩, declared⟩
    refine ⟨?_, ?_, path, ?_, declared⟩
    · intro compares
      rw [← filled_isNone]
      simpa [compares] using subject
    · intro compares
      rw [← filled_isNone]
      cases values : c.values with
      | nil => exact .inr (by simpa [compares, values] using comparand)
      | cons v rest => exact .inl (by simp)
    · cases values : c.values with
      | nil => exact .inl rfl
      | cons v rest =>
        refine .inr fun name given => ?_
        rw [← filled_eq_some] at given
        simp [values, given] at source
  · rintro ⟨subject, comparand, path, source, declared⟩
    refine ⟨⟨⟨⟨?_, path⟩, ?_⟩, ?_⟩, declared⟩
    · cases compares : c.operator.isExistence with
      | true => rfl
      | false => simpa using (filled_isNone _).2 (subject compares)
    · cases compares : c.operator.isExistence with
      | true => rfl
      | false =>
        rcases comparand compares with values | given
        · simp [values]
        · rw [(filled_isNone _).2 given]
          simp
    · rcases source with values | absent
      · simp [values]
      · simp only [← filled_eq_some] at absent
        cases given : filled c.constant with
        | none => simp
        | some name => exact absurd given (absent name)

theorem Effect.filters_eq_false (e : Effect) :
    e.filters = false ↔ ∀ target, e.target = some target → target = .allColumns := by
  unfold Effect.filters
  cases e.target with
  | none => simp
  | some target => cases target <;> simp

theorem Effect.issues_eq_nil (e : Effect) : e.issues = [] ↔ e.RightTargets := by
  unfold Effect.issues Effect.RightTargets
  cases e.action <;> cases targets : e.targets <;> simp [Action.requiresTarget, only]

theorem Rule.issues_eq_nil (r : Rule) :
    r.issues = [] ↔ IsName r.name ∧ (r.isDefault = true → r.whenAllOf = []) ∧
      (r.isDefault = true → ∀ target, r.effect.target = some target → target = .allColumns) ∧
      r.effect.RightTargets := by
  unfold Rule.issues
  simp only [List.append_eq_nil_iff, checkName_eq_nil, only_eq_nil, Effect.issues_eq_nil,
    Bool.and_eq_false_imp, Effect.filters_eq_false, and_assoc]
  simp

theorem pairwise_iff_split {α : Type} {R : α → α → Prop} (l : List α) :
    l.Pairwise R ↔ ∀ front a back, l = front ++ a :: back → ∀ b ∈ front, R b a := by
  constructor
  · rintro pairs front a back rfl b member
    exact (List.pairwise_append.1 pairs).2.2 b member a List.mem_cons_self
  · intro split
    induction l using List.reverseRecOn with
    | nil => exact .nil
    | append_singleton l a ih =>
      rw [List.pairwise_append]
      refine ⟨ih ?_, List.pairwise_singleton _ _, ?_⟩
      · rintro front c back rfl b member
        exact split front c (back ++ [a]) (by simp) b member
      · intro b member c last
        rw [List.mem_singleton.1 last]
        exact split l a [] rfl b member

theorem constants_clean_iff (constants : List Constant) :
    inOrder constantFindings [] constants = [] ↔
      (∀ c ∈ constants, c.WellFormed) ∧ (constants.map (·.name)).Nodup := by
  rw [inOrder_eq_nil, List.Nodup, List.pairwise_map, pairwise_iff_split]
  simp only [List.nil_append, constantFindings, findingsAt_eq_nil, List.append_eq_nil_iff,
    Constant.issues_eq_nil, only_eq_nil, List.any_eq_false, decide_eq_true_eq]
  constructor
  · intro clean
    refine ⟨?_, fun front a back split => (clean front a back split).2⟩
    intro c member
    obtain ⟨front, back, split⟩ := List.append_of_mem member
    exact (clean front c back split).1
  · rintro ⟨each, distinct⟩ front a back split
    exact ⟨each a (by simp [split]), distinct front a back split⟩

theorem predicates_clean_iff (constants : List Constant) (predicates : List Predicate) :
    inOrder (predicateFindings constants) [] predicates = [] ↔
      ∀ p ∈ predicates, IsName p.name ∧ p.name ∉ constants.map (·.name) ∧ p.conditions ≠ [] := by
  rw [inOrder_eq_nil]
  simp only [predicateFindings, findingsAt_eq_nil, Predicate.issues_eq_nil, List.any_eq_false,
    decide_eq_true_eq, List.mem_map, not_exists, not_and]
  constructor
  · intro clean p member
    obtain ⟨front, back, split⟩ := List.append_of_mem member
    exact clean front p back split
  · rintro each front p back split
    exact each p (by simp [split])

theorem nameConflicts_eq_nil (doc : Document) (before : List Rule) (r : Rule) :
    nameConflicts doc before r = [] ↔
      r.name ∉ doc.predicateNames ∧ r.name ∉ doc.constantNames ∧
        ∀ s ∈ before, s.isDefault = true → r.isDefault = true → s.name ≠ r.name := by
  have taken : (if doc.predicates.any fun p => p.name = r.name then [Issue.nameTaken .predicate]
      else only (doc.constants.any fun c => c.name = r.name) (.nameTaken .constant)) = [] ↔
        r.name ∉ doc.predicateNames ∧ r.name ∉ doc.constantNames := by
    simp only [Document.predicateNames, Document.constantNames, List.mem_map]
    split
    · rename_i found
      simp only [List.any_eq_true, decide_eq_true_eq] at found
      simp [found]
    · rename_i absent
      rw [only_eq_nil]
      simp only [List.any_eq_true, decide_eq_true_eq] at absent
      simp [absent]
  unfold nameConflicts
  rw [List.append_eq_nil_iff, taken, only_eq_nil, Bool.and_eq_false_imp, List.any_eq_false,
    and_assoc]
  refine and_congr_right fun _ => and_congr_right fun _ => ?_
  constructor
  · intro distinct s member earlier later
    simpa [earlier] using distinct later s member
  · intro distinct later s member
    simpa using fun earlier => distinct s member earlier later

theorem rules_clean_iff (doc : Document) :
    inOrder (ruleFindings doc) [] doc.rules = [] ↔
      (∀ r ∈ doc.rules, r.issues = [] ∧ r.name ∉ doc.predicateNames ∧ r.name ∉ doc.constantNames) ∧
        doc.defaultNames.Nodup := by
  rw [inOrder_eq_nil, Document.defaultNames, List.Nodup, List.pairwise_map, List.pairwise_filter,
    pairwise_iff_split]
  simp only [List.nil_append, ruleFindings, findingsAt_eq_nil, List.append_eq_nil_iff,
    nameConflicts_eq_nil]
  constructor
  · intro clean
    refine ⟨?_, fun front r back split => (clean front r back split).2.2.2⟩
    intro r member
    obtain ⟨front, back, split⟩ := List.append_of_mem member
    obtain ⟨issues, predicates, constants, _⟩ := clean front r back split
    exact ⟨issues, predicates, constants⟩
  · rintro ⟨each, distinct⟩ front r back split
    obtain ⟨issues, predicates, constants⟩ := each r (by simp [split])
    exact ⟨issues, predicates, constants, distinct front r back split⟩

theorem conditionIssues_eq_nil (doc : Document) (c : Condition) :
    (Draft.ofDocument doc).conditionIssues c = [] ↔ c.WellFormed doc.constantNames := by
  have undeclared : (c.constantName.filter fun name =>
        !(constantTable doc.constants).contains name) = none ↔
      ∀ name, Gives c.constant name → name ∈ doc.constantNames := by
    simp only [← filled_eq_some, Condition.constantName, Document.constantNames,
      Option.filter_eq_none_iff, contains_constantTable]
    simp
  rw [← Condition.issues_eq_nil, ← undeclared]
  simp only [Draft.conditionIssues, ofDocument_eq, List.append_eq_nil_iff, List.map_eq_nil_iff]
  simp

theorem flatMap_zipIdx_eq_nil {α β : Type} (l : List α) (tell : α × Nat → List β)
    (clean : α → Prop) (each : ∀ a index, tell (a, index) = [] ↔ clean a) :
    l.zipIdx.flatMap tell = [] ↔ ∀ a ∈ l, clean a := by
  rw [List.flatMap_eq_nil_iff]
  constructor
  · intro all a member
    obtain ⟨index, found⟩ := List.mem_iff_getElem?.1 member
    exact (each a index).1 (all (a, index) (List.mk_mem_zipIdx_iff_getElem?.2 found))
  · rintro all ⟨a, index⟩ member
    exact (each a index).2 (all a (List.fst_mem_of_mem_zipIdx member))

theorem blockFindings_eq_nil (doc : Document) (name : String) (blocks : List Predicate) :
    (Draft.ofDocument doc).blockFindings name blocks = [] ↔
      ∀ p ∈ blocks, ∀ c ∈ p.conditions, c.WellFormed doc.constantNames := by
  unfold Draft.blockFindings
  refine flatMap_zipIdx_eq_nil _ _ _ fun p block => ?_
  refine flatMap_zipIdx_eq_nil _ _ _ fun c index => ?_
  rw [findingsAt_eq_nil, conditionIssues_eq_nil]

theorem ruleReferenceFindings_eq_nil (doc : Document) (r : Rule) :
    (Draft.ofDocument doc).ruleReferenceFindings r = [] ↔
      ∀ ref ∈ r.whenAllOf, ref.name ∈ doc.predicateNames := by
  simp [Draft.ruleReferenceFindings, findingsAt_eq_nil, ofDocument_eq, contains_predicateTable,
    Document.predicateNames]

theorem referenceFindings_eq_nil (doc : Document) :
    (Draft.ofDocument doc).referenceFindings = [] ↔
      (∀ p ∈ doc.predicates, ∀ c ∈ p.conditions, c.WellFormed doc.constantNames) ∧
        ∀ r ∈ doc.rules, ∀ ref ∈ r.whenAllOf, ref.name ∈ doc.predicateNames := by
  have rules : (∀ r ∈ (Draft.ofDocument doc).rules, ∀ ref ∈ r.whenAllOf,
        ref.name ∈ doc.predicateNames) ↔
      ∀ r ∈ doc.rules, ∀ ref ∈ r.whenAllOf, ref.name ∈ doc.predicateNames := by
    rw [ofDocument_eq]
    exact forall_placed _ _ fun _ _ => rfl
  unfold Draft.referenceFindings
  rw [List.append_eq_nil_iff, List.flatMap_eq_nil_iff, List.flatMap_eq_nil_iff]
  simp only [blockFindings_eq_nil, ruleReferenceFindings_eq_nil, rules]
  refine and_congr_left fun _ => ?_
  constructor
  · intro all p member
    obtain ⟨entry, found, inside⟩ := (mem_draft_blocks doc p).2 member
    exact all entry found p inside
  · intro all entry found p inside
    exact all p ((mem_draft_blocks doc p).1 ⟨entry, found, inside⟩)

/-- Nothing is found in a document if and only if it is well-formed. -/
theorem findings_eq_nil_iff (doc : Document) :
    (Draft.ofDocument doc).checkReferences.findings = [] ↔ doc.WellFormed := by
  have declared : (Draft.ofDocument doc).findings = declarationFindings doc := by
    rw [ofDocument_eq]
  simp only [Draft.checkReferences, Draft.report, declared, declarationFindings,
    List.append_eq_nil_iff, constants_clean_iff, predicates_clean_iff, rules_clean_iff,
    referenceFindings_eq_nil, Rule.issues_eq_nil]
  constructor
  · rintro ⟨⟨⟨⟨constants, distinct⟩, predicates⟩, rules, oneDefault⟩, conditions, references⟩
    refine ⟨constants, distinct, ?_, ?_, oneDefault⟩
    · intro p member
      obtain ⟨name, free, nonempty⟩ := predicates p member
      exact ⟨name, free, nonempty, conditions p member⟩
    · intro r member
      obtain ⟨⟨name, unconditional, unfiltered, targets⟩, ofPredicates, ofConstants⟩ :=
        rules r member
      exact ⟨name, ofPredicates, ofConstants, unconditional, unfiltered, targets,
        references r member⟩
  · rintro ⟨constants, distinct, predicates, rules, oneDefault⟩
    refine ⟨⟨⟨⟨constants, distinct⟩, ?_⟩, ?_, oneDefault⟩, ?_, ?_⟩
    · intro p member
      have block := predicates p member
      exact ⟨block.name, block.free, block.nonempty⟩
    · intro r member
      have rule := rules r member
      exact ⟨⟨rule.name, rule.unconditional, rule.unfiltered, rule.targets⟩,
        rule.freeOfPredicates, rule.freeOfConstants⟩
    · exact fun p member => (predicates p member).conditions
    · exact fun r member => (rules r member).references

theorem prepare_eq (doc : Document) : doc.prepare =
    if (Draft.ofDocument doc).checkReferences.findings = [] then
      .ok (Draft.ofDocument doc).checkReferences
    else .error (.invalid (Draft.ofDocument doc).checkReferences.findings) := by
  simp only [Document.prepare, Draft.isValid, List.isEmpty_iff]

theorem validate_eq (doc : Document) : doc.validate =
    if (Draft.ofDocument doc).checkReferences.findings = [] then .ok ()
    else .error (.invalid (Draft.ofDocument doc).checkReferences.findings) := by
  unfold Document.validate
  rw [prepare_eq]
  split <;> rfl

theorem compile_eq (doc : Document) : doc.compile =
    if (Draft.ofDocument doc).checkReferences.findings = [] then
      .ok (.ofText (Rego.moduleText (Draft.ofDocument doc).checkReferences))
    else .error (.invalid (Draft.ofDocument doc).checkReferences.findings) := by
  unfold Document.compile
  rw [prepare_eq]
  split
  · rename_i clean
    simp [Draft.generate, Draft.isValid, clean, bind, Except.bind, pure, Except.pure]
  · rfl

theorem validate_iff_wellFormed (doc : Document) : doc.validate = .ok () ↔ doc.WellFormed := by
  rw [validate_eq, ← findings_eq_nil_iff]
  split
  · rename_i clean
    simp [clean]
  · rename_i found
    simp [found]

theorem validate_eq_error (doc : Document) (findings : List Finding) :
    doc.validate = .error (.invalid findings) ↔
      findings = (Draft.ofDocument doc).checkReferences.findings ∧ findings ≠ [] := by
  rw [validate_eq]
  split
  · rename_i clean
    simp [clean]
  · rename_i found
    rw [Except.error.injEq, CompileError.invalid.injEq]
    constructor
    · rintro rfl
      exact ⟨rfl, found⟩
    · rintro ⟨same, -⟩
      exact same.symm

/-- Only a well-formed document compiles, and what it compiles to is the module of its draft. -/
theorem compile_eq_ok (doc : Document) (policy : Compiled) :
    doc.compile = .ok policy ↔ doc.WellFormed ∧
      policy = .ofText (Rego.moduleText (Draft.ofDocument doc).checkReferences) := by
  rw [compile_eq, ← findings_eq_nil_iff]
  split
  · rename_i clean
    rw [and_iff_right clean, Except.ok.injEq, eq_comm]
  · rename_i found
    simp [found]

theorem compile_of_clean (doc : Document)
    (clean : (Draft.ofDocument doc).checkReferences.findings = []) :
    doc.compile = .ok (.ofText (Rego.moduleText (Draft.ofDocument doc).checkReferences)) := by
  rw [compile_eq, if_pos clean]

theorem compile_of_findings {doc : Document}
    (found : (Draft.ofDocument doc).checkReferences.findings ≠ []) :
    doc.compile = .error (.invalid (Draft.ofDocument doc).checkReferences.findings) := by
  rw [compile_eq, if_neg found]

end RegoPolicy.Policy
