import RegoPolicy.Command.Report
import RegoPolicy.Proofs.BodyLines
import RegoPolicy.Proofs.Diagnosis

/-!
The report on a refused document, line by line. Names and paths stand quoted in a message, so that
no line feed gets into it, except for the names that an undefined reference could have meant: these
are listed as they are. The report has one line for each finding exactly if no line feed stands in a
list of names that the document makes the checks tell.
-/
namespace RegoPolicy.Text

theorem not_mem_toDigits {c : Char} (other : ∀ d < 16, c ≠ Nat.digitChar d) {base : Nat}
    (least : 1 < base) (most : base ≤ 16) (n : Nat) : c ∉ Nat.toDigits base n := by
  induction n using Nat.strongRecOn with
  | ind n ih =>
    -- the last digit is one of sixteen, the others are those of a smaller number
    rw [Nat.toDigits_eq_if least]
    split
    · exact List.mem_singleton.not.2 (other n (by omega))
    · have smaller : n / base < n := Nat.div_lt_self (by omega) least
      have digit : n % base < base := Nat.mod_lt n (by omega)
      have last := other (n % base) (by omega)
      simp [ih (n / base) smaller, last]

theorem toDigits_flat {base : Nat} (least : 1 < base) (most : base ≤ 16) (n : Nat) :
    '\n' ∉ Nat.toDigits base n :=
  not_mem_toDigits (by decide) least most n

theorem shown_flat (c : Char) : '\n' ∉ shown c := by
  unfold shown
  iterate 6 (split; · decide)
  split
  · simp [hexDigits, toDigits_flat]
  · rename_i feed _ _ _ _
    simpa using Ne.symm feed

theorem quoted_flat (s : String) : '\n' ∉ (quoted s).toList := by
  simp [quoted, shown_flat]

end RegoPolicy.Text

namespace RegoPolicy.Policy

open Text

theorem flat_concat {a b : String} (left : '\n' ∉ a.toList) (right : '\n' ∉ b.toList) :
    '\n' ∉ (a ++ b).toList := by
  rw [String.toList_append]
  exact List.not_mem_append left right

/-- The characters of a literal are at hand, while `String.toList` would decode them. -/
theorem flat_literal {chars : List Char} (flat : '\n' ∉ chars) :
    '\n' ∉ (String.ofList chars).toList := by
  rw [String.toList_ofList]
  exact flat

theorem bracketed_flat (n : Nat) : '\n' ∉ (bracketed n).toList := by
  have digits : '\n' ∉ (toString n).toList := by
    rw [Nat.toString_eq_ofList_toDigits, String.toList_ofList]
    exact toDigits_flat (by decide) (by decide) n
  exact flat_concat (flat_concat (flat_literal (by decide)) digits) (flat_literal (by decide))

theorem location_flat (l : Location) : '\n' ∉ l.text.toList := by
  have titled (title : String) (plain : '\n' ∉ title.toList) (index : Nat) (name : String) :
      '\n' ∉ (title ++ bracketed index ++ " " ++ quoted name).toList :=
    flat_concat (flat_concat (flat_concat plain (bracketed_flat index)) (flat_literal (by decide)))
      (quoted_flat name)
  cases l with
  | constant index name => exact titled "constant" (flat_literal (by decide)) index name
  | predicate index name => exact titled "predicate" (flat_literal (by decide)) index name
  | rule index name => exact titled "rule" (flat_literal (by decide)) index name
  | condition owner block index =>
    have front : '\n' ∉ ("predicate " ++ quoted owner).toList :=
      flat_concat (flat_literal (by decide)) (quoted_flat owner)
    have close : '\n' ∉ " condition".toList := flat_literal (by decide)
    cases block with
    | none => exact flat_concat (flat_concat front close) (bracketed_flat index)
    | some block =>
      exact flat_concat (flat_concat (flat_concat front (bracketed_flat block)) close)
        (bracketed_flat index)

/-- The names that an issue lists as they are. -/
def Issue.listed : Issue → List String
  | .undefined _ _ available => available
  | _ => []

theorem mem_intercalate {c : Char} {separator : String} (apart : c ∉ separator.toList)
    (parts : List String) :
    c ∈ (String.intercalate separator parts).toList ↔ ∃ part ∈ parts, c ∈ part.toList := by
  induction parts with
  | nil => simp
  | cons a parts ih =>
    cases parts with
    | nil => simp
    | cons b parts =>
      rw [String.intercalate_cons_cons, String.toList_append, String.toList_append,
        List.mem_append, List.mem_append, ih]
      simp only [apart, or_false, List.mem_cons, exists_eq_or_imp]

theorem mem_framed {c : Char} {front inner close : String} (before : c ∉ front.toList)
    (after : c ∉ close.toList) : c ∈ (front ++ inner ++ close).toList ↔ c ∈ inner.toList := by
  simp [before, after]

theorem undefined_feed (kind : ReferenceKind) (name : String) (available : List String) :
    '\n' ∈ (Issue.undefined kind name available).text.toList ↔
      ∃ other ∈ available, '\n' ∈ other.toList := by
  have kinds : '\n' ∉ kind.text.toList := by cases kind <;> exact flat_literal (by decide)
  have named : '\n' ∉ ("references undefined " ++ kind.text ++ " " ++ quoted name).toList :=
    flat_concat (flat_concat (flat_concat (flat_literal (by decide)) kinds)
      (flat_literal (by decide))) (quoted_flat name)
  have front : '\n' ∉ ("references undefined " ++ kind.text ++ " " ++ quoted name ++
      " - available " ++ kind.text ++ "s: [").toList :=
    flat_concat (flat_concat (flat_concat named (flat_literal (by decide))) kinds)
      (flat_literal (by decide))
  have names := mem_intercalate (flat_literal (by decide) : '\n' ∉ ", ".toList) available
  exact (mem_framed front (flat_literal (by decide))).trans names

theorem issue_flat {i : Issue}
    (unlisted : ∀ kind name available, i ≠ .undefined kind name available) :
    '\n' ∉ i.text.toList := by
  have acting (action : Action) : '\n' ∉ action.name.toList := by
    cases action <;> exact flat_literal (by decide)
  cases i with
  | nameInvalid name => exact flat_concat (quoted_flat name) (flat_literal (by decide))
  | nameReserved name => exact flat_concat (quoted_flat name) (flat_literal (by decide))
  | nameTaken holder =>
    have taken : '\n' ∉ holder.text.toList := by cases holder <;> exact flat_literal (by decide)
    exact flat_concat (flat_concat (flat_literal (by decide)) taken) (flat_literal (by decide))
  | missing gap =>
    have field : '\n' ∉ gap.field.toList := by cases gap <;> exact flat_literal (by decide)
    have hint : '\n' ∉ gap.hint.toList := by
      cases gap with
      | conditions => exact flat_literal (by decide)
      | subject => exact flat_literal (by decide)
      | values operator => exact flat_concat (quoted_flat operator.name) (flat_literal (by decide))
    exact flat_concat (flat_concat (flat_concat (flat_literal (by decide)) field)
      (flat_literal (by decide))) hint
  | literalInvalid => exact flat_literal (by decide)
  | pathInvalid path => exact flat_concat (quoted_flat path) (flat_literal (by decide))
  | valuesAndConstant => exact flat_literal (by decide)
  | undefined kind name available => exact absurd rfl (unlisted kind name available)
  | conditionalDefault => exact flat_literal (by decide)
  | filteringDefault action =>
    exact flat_concat (flat_concat (flat_concat (flat_literal (by decide)) (acting action))
      (flat_literal (by decide))) (flat_literal (by decide))
  | noTarget action =>
    exact flat_concat (flat_concat (acting action) (flat_literal (by decide)))
      (flat_literal (by decide))
  | severalTargets action =>
    exact flat_concat (flat_concat (acting action) (flat_literal (by decide)))
      (flat_literal (by decide))

theorem message_feed (f : Finding) :
    '\n' ∈ f.message.toList ↔ ∃ name ∈ f.issue.listed, '\n' ∈ name.toList := by
  have issue : '\n' ∈ f.issue.text.toList ↔ ∃ name ∈ f.issue.listed, '\n' ∈ name.toList := by
    cases shape : f.issue with
    | undefined kind name available => exact undefined_feed kind name available
    | _ => simpa [Issue.listed] using issue_flat (by simp)
  have colon : '\n' ∉ ": ".toList := flat_literal (by decide)
  simp only [Finding.message, String.toList_append, List.mem_append, location_flat, colon, issue,
    false_or]

def listedNames (findings : List Finding) : List String :=
  findings.flatMap fun f => f.issue.listed

theorem listedNames_append (a b : List Finding) :
    listedNames (a ++ b) = listedNames a ++ listedNames b :=
  List.flatMap_append

theorem listedNames_findingsAt (location : Location) (issues : List Issue) :
    listedNames (findingsAt location issues) = issues.flatMap Issue.listed :=
  List.flatMap_map _ _ _

theorem checkName_lists_nothing (name : String) : (checkName name).flatMap Issue.listed = [] := by
  unfold checkName
  split <;> rfl

theorem only_lists (holds : Bool) (i : Issue) :
    (only holds i).flatMap Issue.listed = if holds then i.listed else [] := by
  cases holds <;> simp [only]

theorem condition_lists_nothing (c : Condition) : c.issues.flatMap Issue.listed = [] := by
  have paths : (c.badPath.toList.map Issue.pathInvalid).flatMap Issue.listed = [] := by
    cases c.badPath <;> rfl
  simp only [Condition.issues, List.flatMap_append, only_lists, paths, Issue.listed, ite_self,
    List.append_nil]

theorem rule_lists_nothing (r : Rule) : r.issues.flatMap Issue.listed = [] := by
  have effects : r.effect.issues.flatMap Issue.listed = [] := by
    unfold Effect.issues
    split
    · rfl
    · simp only [only_lists, Issue.listed, ite_self]
  simp only [Rule.issues, List.flatMap_append, checkName_lists_nothing, only_lists, effects,
    Issue.listed, ite_self, List.append_nil]

theorem inOrder_lists_nothing {α : Type} {tell : List α → α → List Finding}
    (each : ∀ before a, listedNames (tell before a) = []) (before l : List α) :
    listedNames (inOrder tell before l) = [] := by
  induction l generalizing before with
  | nil => rfl
  | cons a rest ih => rw [inOrder, listedNames_append, each, ih, List.append_nil]

theorem declarations_list_nothing (doc : Document) :
    listedNames (declarationFindings doc) = [] := by
  have constants : listedNames (inOrder constantFindings [] doc.constants) = [] := by
    refine inOrder_lists_nothing (fun before c => ?_) [] doc.constants
    simp only [constantFindings, listedNames_findingsAt, Constant.issues, List.flatMap_append,
      checkName_lists_nothing, only_lists, Issue.listed, ite_self, List.append_nil]
  have predicates :
      listedNames (inOrder (predicateFindings doc.constants) [] doc.predicates) = [] := by
    refine inOrder_lists_nothing (fun before p => ?_) [] doc.predicates
    simp only [predicateFindings, listedNames_findingsAt, Predicate.issues, List.flatMap_append,
      checkName_lists_nothing, only_lists, Issue.listed, ite_self, List.append_nil]
  have rules : listedNames (inOrder (ruleFindings doc) [] doc.rules) = [] := by
    refine inOrder_lists_nothing (fun before r => ?_) [] doc.rules
    have conflicts : (nameConflicts doc before r).flatMap Issue.listed = [] := by
      unfold nameConflicts
      split <;> simp [only_lists, Issue.listed]
    rw [ruleFindings, listedNames_findingsAt, List.flatMap_append, rule_lists_nothing, conflicts,
      List.append_nil]
  rw [declarationFindings, listedNames_append, listedNames_append, constants, predicates, rules]
  rfl

def Document.StrayConstant (doc : Document) : Prop :=
  ∃ p ∈ doc.predicates, ∃ c ∈ p.conditions, ∃ name, Gives c.constant name ∧
    name ∉ doc.constantNames

def Document.StrayPredicate (doc : Document) : Prop :=
  ∃ r ∈ doc.rules, ∃ ref ∈ r.whenAllOf, ref.name ∉ doc.predicateNames

theorem mem_condition_lists (doc : Document) (c : Condition) (name : String) :
    name ∈ ((Draft.ofDocument doc).conditionIssues c).flatMap Issue.listed ↔
      (∃ other, Gives c.constant other ∧ other ∉ doc.constantNames) ∧
        name ∈ doc.constantNames := by
  rw [conditionIssues_diagnosed, Document.conditionIssues, List.flatMap_append,
    condition_lists_nothing, List.nil_append]
  cases c.constant with
  | none => simp [Gives]
  | some other => simp [Gives, only_lists, Issue.listed, mem_sortedNames, and_assoc]

theorem mem_lists_zipIdx {α : Type} (l : List α) (tell : α × Nat → List Finding)
    (lists : α → Prop) {name : String}
    (each : ∀ a index, name ∈ listedNames (tell (a, index)) ↔ lists a) :
    name ∈ listedNames (l.zipIdx.flatMap tell) ↔ ∃ a ∈ l, lists a := by
  rw [listedNames, List.flatMap_assoc, List.mem_flatMap]
  constructor
  · rintro ⟨⟨a, index⟩, member, listed⟩
    exact ⟨a, List.fst_mem_of_mem_zipIdx member, (each a index).1 listed⟩
  · rintro ⟨a, member, listed⟩
    obtain ⟨index, found⟩ := List.mem_iff_getElem?.1 member
    exact ⟨(a, index), List.mk_mem_zipIdx_iff_getElem?.2 found, (each a index).2 listed⟩

theorem mem_block_lists (doc : Document) (owner : String) (blocks : List Predicate)
    (name : String) :
    name ∈ listedNames ((Draft.ofDocument doc).blockFindings owner blocks) ↔
      ∃ p ∈ blocks, ∃ c ∈ p.conditions,
        (∃ other, Gives c.constant other ∧ other ∉ doc.constantNames) ∧
          name ∈ doc.constantNames := by
  unfold Draft.blockFindings
  refine mem_lists_zipIdx _ _ _ fun p block => ?_
  refine mem_lists_zipIdx _ _ _ fun c index => ?_
  rw [listedNames_findingsAt, mem_condition_lists]

theorem mem_reference_lists (doc : Document) (r : Rule) (name : String) :
    name ∈ listedNames ((Draft.ofDocument doc).ruleReferenceFindings r) ↔
      (∃ ref ∈ r.whenAllOf, ref.name ∉ doc.predicateNames) ∧ name ∈ doc.predicateNames := by
  obtain ⟨keys, held⟩ := draft_predicates doc
  simp only [Draft.ruleReferenceFindings, listedNames_findingsAt, keys, held]
  simp [Issue.listed, mem_sortedNames]

theorem mem_conditions_list (doc : Document) (name : String) :
    name ∈ listedNames ((Draft.ofDocument doc).predicates.entries.flatMap
      fun (owner, blocks) => (Draft.ofDocument doc).blockFindings owner blocks) ↔
        doc.StrayConstant ∧ name ∈ doc.constantNames := by
  rw [listedNames, List.flatMap_assoc, List.mem_flatMap]
  constructor
  · rintro ⟨entry, stored, listed⟩
    obtain ⟨p, block, c, inside, stray, named⟩ := (mem_block_lists doc _ _ name).1 listed
    exact ⟨⟨p, (mem_draft_blocks doc p).1 ⟨entry, stored, block⟩, c, inside, stray⟩, named⟩
  · rintro ⟨⟨p, declared, c, inside, stray⟩, named⟩
    obtain ⟨entry, stored, block⟩ := (mem_draft_blocks doc p).2 declared
    exact ⟨entry, stored, (mem_block_lists doc _ _ name).2 ⟨p, block, c, inside, stray, named⟩⟩

theorem mem_references_list (doc : Document) (name : String) :
    name ∈ listedNames ((Draft.ofDocument doc).rules.flatMap
      (Draft.ofDocument doc).ruleReferenceFindings) ↔
        doc.StrayPredicate ∧ name ∈ doc.predicateNames := by
  have rules : (Draft.ofDocument doc).rules = placed doc.rules := by rw [ofDocument_eq]
  rw [rules, placed, List.flatMap_map]
  refine (mem_lists_zipIdx doc.rules _
    (fun r => (∃ ref ∈ r.whenAllOf, ref.name ∉ doc.predicateNames) ∧ name ∈ doc.predicateNames)
    fun r index => mem_reference_lists doc { r with index := index } name).trans ?_
  constructor
  · rintro ⟨r, member, stray, named⟩
    exact ⟨⟨r, member, stray⟩, named⟩
  · rintro ⟨⟨r, member, stray⟩, named⟩
    exact ⟨r, member, stray, named⟩

/-- What the findings of a document list: its constants if one is stray, its predicates likewise. -/
theorem mem_listedNames (doc : Document) (name : String) :
    name ∈ listedNames (Draft.ofDocument doc).checkReferences.findings ↔
      (doc.StrayConstant ∧ name ∈ doc.constantNames) ∨
        (doc.StrayPredicate ∧ name ∈ doc.predicateNames) := by
  have declared : (Draft.ofDocument doc).findings = declarationFindings doc := by
    rw [ofDocument_eq]
  rw [Draft.checkReferences, Draft.report, declared, listedNames_append,
    declarations_list_nothing, List.nil_append, Draft.referenceFindings, listedNames_append,
    List.mem_append, mem_conditions_list, mem_references_list]

structure Document.ListsFlat (doc : Document) : Prop where
  constants : doc.StrayConstant → ∀ name ∈ doc.constantNames, '\n' ∉ name.toList
  predicates : doc.StrayPredicate → ∀ name ∈ doc.predicateNames, '\n' ∉ name.toList

theorem messages_flat_iff (doc : Document) :
    (∀ f ∈ (Draft.ofDocument doc).checkReferences.findings, '\n' ∉ f.message.toList) ↔
      doc.ListsFlat := by
  -- a line feed gets into a message only with a name that the message lists
  have listed : (∀ f ∈ (Draft.ofDocument doc).checkReferences.findings, '\n' ∉ f.message.toList) ↔
      ∀ name ∈ listedNames (Draft.ofDocument doc).checkReferences.findings,
        '\n' ∉ name.toList := by
    simp only [message_feed, listedNames, List.mem_flatMap]
    constructor
    · rintro flat name ⟨f, member, listed⟩ feed
      exact flat f member ⟨name, listed, feed⟩
    · rintro flat f member ⟨name, listed, feed⟩
      exact flat name ⟨f, member, listed⟩ feed
  rw [listed]
  simp only [mem_listedNames]
  constructor
  · intro flat
    exact ⟨fun stray name member => flat name (.inl ⟨stray, member⟩),
      fun stray name member => flat name (.inr ⟨stray, member⟩)⟩
  · rintro flat name (⟨stray, member⟩ | ⟨stray, member⟩)
    · exact flat.constants stray name member
    · exact flat.predicates stray name member

end RegoPolicy.Policy

namespace RegoPolicy.Command

open Policy

theorem lines_are_texts_iff (texts : List (List Char)) :
    (texts.flatMap fun text => text ++ ['\n']).splitOn '\n' = texts ++ [[]] ↔
      ∀ text ∈ texts, '\n' ∉ text := by
  have split := Rego.splitOn_ended texts []
  rw [List.append_nil, List.splitOn_nil] at split
  rw [split, List.append_left_inj]
  exact Rego.flatMap_splitOn_iff texts

theorem report_text (findings : List Finding) :
    (errorText (.compile (.invalid findings)) .text).toList =
      (findings.map fun f => f.message.toList).flatMap fun text => text ++ ['\n'] := by
  simp [errorText, RunError.messages, String.toList_join, List.flatMap_map]

/-- A document that is refused has a message with a line feed exactly if it has a stray reference
    beside a declared name, of the kind that is looked for, with a line feed in it. Exactly in the
    other cases the lines of the report are the messages. -/
theorem report_lines_iff {doc : Document} {findings : List Finding}
    (refused : doc.validate = .error (.invalid findings)) :
    ((∀ f ∈ findings, '\n' ∉ f.message.toList) ↔ doc.ListsFlat) ∧
      ((errorText (.compile (.invalid findings)) .text).toList.splitOn '\n' =
        (findings.map fun f => f.message.toList) ++ [[]] ↔ doc.ListsFlat) := by
  obtain ⟨rfl, -⟩ := (validate_eq_error doc findings).1 refused
  have flat := messages_flat_iff doc
  refine ⟨flat, ?_⟩
  rw [report_text, lines_are_texts_iff, ← flat]
  exact List.forall_mem_map

/-- A document with line feeds in the names of a constant and a rule, in a path and in a reference,
    and with the given constant to compare with. -/
def folded (constant : Option String) : Document where
  description := none
  connectors := []
  constants := [⟨"a\nb", "\x7b"⟩]
  predicates := [⟨"p", [⟨.equals, some "x\ny", [], constant⟩]⟩]
  rules := [⟨"r\n", false, ⟨.allow, none, none, none, none, none, none, none, false⟩,
    [⟨"q\n", true⟩], 0⟩]
  rawRego := none

/-- Where no constant is missed, the report has a line for each finding; a constant that is not
    declared brings the name of the other one into a message, which then takes two lines. -/
theorem folded_report_lines :
    (∃ findings, (folded none).validate = .error (.invalid findings) ∧
      (errorText (.compile (.invalid findings)) .text).toList.splitOn '\n' =
        (findings.map fun f => f.message.toList) ++ [[]]) ∧
    (∃ findings, (folded (some "c")).validate = .error (.invalid findings) ∧
      (∃ f ∈ findings, '\n' ∈ f.message.toList) ∧
      (errorText (.compile (.invalid findings)) .text).toList.splitOn '\n' ≠
        (findings.map fun f => f.message.toList) ++ [[]]) := by
  have plain := (validate_eq_error (folded none) _).2 ⟨rfl, by decide +kernel⟩
  have stray := (validate_eq_error (folded (some "c")) _).2 ⟨rfl, by decide +kernel⟩
  have flat : (folded none).ListsFlat := by
    refine ⟨?_, fun _ => by decide⟩
    rintro ⟨p, member, c, inside, name, given, -⟩
    rw [List.mem_singleton.1 member] at inside
    rw [List.mem_singleton.1 inside] at given
    cases given.1
  have broken : ¬ (folded (some "c")).ListsFlat := by
    intro flat
    refine flat.constants ?_ "a\nb" (by decide) (by decide)
    exact ⟨_, List.mem_cons_self, _, List.mem_cons_self, "c", ⟨rfl, by decide⟩, by decide⟩
  have lines := report_lines_iff stray
  refine ⟨⟨_, plain, (report_lines_iff plain).2.2 flat⟩, ⟨_, stray, ?_, ?_⟩⟩
  · by_contra none
    refine broken (lines.1.1 fun f member feed => none ⟨f, member, feed⟩)
  · exact fun same => broken (lines.2.1 same)

end RegoPolicy.Command
