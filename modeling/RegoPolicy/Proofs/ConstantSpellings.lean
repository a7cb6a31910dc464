import RegoPolicy.Proofs.DocumentPlaces
import RegoPolicy.Proofs.ReportLines
import RegoPolicy.Proofs.WrittenValues

/-!
The two spellings of a constant. A value that stands in a document itself has to be had as a value,
so its numbers have to be in range, its strings have to be texts and it may go only so deep. A
string that holds the text of the value is taken as it is, and its content only has to be of the
grammar.
-/
namespace RegoPolicy.Json

/-- A tree that goes at most so many levels deep, with numbers in range and strings that are
    texts. -/
inductive Tree.Within : Nat → Tree → Prop where
  | null (levels : Nat) : Within levels .null
  | bool (levels : Nat) (b : Bool) : Within levels (.bool b)
  | number (levels : Nat) {negative : Bool} {n : Numeral} (fits : (n.value? negative).isSome) :
      Within levels (.number negative n)
  | string (levels : Nat) {q : Quotation} (text : q.text?.isSome) : Within levels (.string q)
  | list {levels : Nat} {items : List Tree} (each : ∀ t ∈ items, Within levels t) :
      Within (levels + 1) (.list items)
  | object {levels : Nat} {members : List (Quotation × Tree)}
      (keys : ∀ m ∈ members, m.1.text?.isSome) (each : ∀ m ∈ members, Within levels m.2) :
      Within (levels + 1) (.object members)

theorem mapM_isSome {α β : Type} (f : α → Option β) (l : List α) :
    (l.mapM f).isSome ↔ ∀ a ∈ l, (f a).isSome := by
  induction l with
  | nil => simp
  | cons a l ih =>
    rw [List.mapM_cons, List.forall_mem_cons, ← ih]
    cases f a <;> cases l.mapM f <;> simp

theorem foldlM_isSome {α σ : Type} {f : σ → α → Option σ} {held : α → Prop}
    (step : ∀ state a, (f state a).isSome ↔ held a) (l : List α) (state : σ) :
    (l.foldlM f state).isSome ↔ ∀ a ∈ l, held a := by
  induction l generalizing state with
  | nil => simp
  | cons a l ih =>
    rw [List.foldlM_cons, List.forall_mem_cons, ← step state a]
    cases f state a with
    | none => simp
    | some next => simpa using ih next

theorem decodeEntry_isSome (value : Tree → Option Value) (entries : List (String × Value))
    (m : Quotation × Tree) :
    (decodeEntry value entries m).isSome ↔ m.1.text?.isSome ∧ (value m.2).isSome := by
  unfold decodeEntry
  cases m.1.text? <;> cases value m.2 <;> simp

theorem Tree.value?_isSome : (levels : Nat) → (t : Tree) →
    ((t.value? levels).isSome ↔ t.Within levels)
  | levels, .null => by
    rw [Tree.value?]
    exact iff_of_true rfl (.null levels)
  | levels, .bool b => by
    rw [Tree.value?]
    exact iff_of_true rfl (.bool levels b)
  | levels, .number negative n => by
    rw [Tree.value?, Option.isSome_map]
    exact ⟨.number levels, fun | .number _ fits => fits⟩
  | levels, .string q => by
    rw [Tree.value?, Option.isSome_map]
    exact ⟨.string levels, fun | .string _ text => text⟩
  | 0, .list items => by
    rw [Tree.value?]
    exact iff_of_false (by simp) (fun within => by cases within)
  | 0, .object members => by
    rw [Tree.value?]
    exact iff_of_false (by simp) (fun within => by cases within)
  | levels + 1, .list items => by
    rw [Tree.value?, Option.isSome_map, mapM_isSome]
    constructor
    · intro each
      exact .list fun t inside => (Tree.value?_isSome levels t).1 (each t inside)
    · rintro (- | - | - | - | each | -) t inside
      exact (Tree.value?_isSome levels t).2 (each t inside)
  | levels + 1, .object members => by
    rw [Tree.value?, Option.isSome_map, foldlM_isSome (decodeEntry_isSome (Tree.value? levels))]
    constructor
    · intro each
      exact .object (fun m inside => (each m inside).1)
        fun m inside => (Tree.value?_isSome levels m.2).1 (each m inside).2
    · intro within m inside
      cases within with
      | object keys each =>
        exact ⟨keys m inside, (Tree.value?_isSome levels m.2).2 (each m inside)⟩

theorem Tree.value?_eq_string {levels : Nat} {t : Tree} {s : String}
    (value : t.value? levels = some (.string s)) : ∃ q, t = .string q := by
  cases t with
  | string q => exact ⟨q, rfl⟩
  | null => simp [Tree.value?] at value
  | bool b => simp [Tree.value?] at value
  | number negative n => simp [Tree.value?] at value
  | list items => cases levels <;> simp [Tree.value?] at value
  | object members => cases levels <;> simp [Tree.value?] at value

end RegoPolicy.Json

namespace RegoPolicy.Policy

open Json

section Findings

theorem issues_findingsAt (location : Location) (issues : List Issue) :
    (findingsAt location issues).map Finding.issue = issues := by
  rw [findingsAt, List.map_map]
  exact List.map_id issues

theorem mem_only {α : Type} (holds : Bool) (a b : α) : a ∈ only holds b ↔ holds = true ∧ a = b := by
  cases holds <;> simp [only]

theorem inOrder_tells {α : Type} {tell : List α → α → List Finding} {issue : Issue}
    (told : α → Prop) (each : ∀ before a, issue ∈ (tell before a).map Finding.issue ↔ told a)
    (before l : List α) :
    issue ∈ (inOrder tell before l).map Finding.issue ↔ ∃ a ∈ l, told a := by
  induction l generalizing before with
  | nil => simp [inOrder]
  | cons a rest ih =>
    rw [inOrder, List.map_append, List.mem_append, each, ih]
    simp

theorem checkName_no_literal (name : String) : Issue.literalInvalid ∉ checkName name := by
  unfold checkName
  split <;> simp

theorem condition_no_literal (doc : Document) (c : Condition) :
    Issue.literalInvalid ∉ (Draft.ofDocument doc).conditionIssues c := by
  rw [conditionIssues_diagnosed, Document.conditionIssues, Condition.issues]
  cases c.constant with
  | none => simp [mem_only]
  | some name => simp [mem_only]

theorem rule_no_literal (r : Rule) : Issue.literalInvalid ∉ r.issues := by
  have effect : Issue.literalInvalid ∉ r.effect.issues := by
    unfold Effect.issues
    split <;> simp [mem_only]
  simp [Rule.issues, mem_only, checkName_no_literal, effect]

theorem declarations_tell_literal (doc : Document) :
    Issue.literalInvalid ∈ (declarationFindings doc).map Finding.issue ↔
      ∃ c ∈ doc.constants, isLiteral c.value = false := by
  have constants : Issue.literalInvalid ∈
        (inOrder constantFindings [] doc.constants).map Finding.issue ↔
      ∃ c ∈ doc.constants, isLiteral c.value = false := by
    refine inOrder_tells _ (fun before c => ?_) [] doc.constants
    simp [constantFindings, issues_findingsAt, Constant.issues, mem_only, checkName_no_literal]
  have predicates : ¬ Issue.literalInvalid ∈
      (inOrder (predicateFindings doc.constants) [] doc.predicates).map Finding.issue := by
    rw [inOrder_tells (fun _ => False) (fun before p => ?_) [] doc.predicates]
    · simp
    · simp [predicateFindings, issues_findingsAt, Predicate.issues, mem_only,
        checkName_no_literal]
  have rules : ¬ Issue.literalInvalid ∈
      (inOrder (ruleFindings doc) [] doc.rules).map Finding.issue := by
    rw [inOrder_tells (fun _ => False) (fun before r => ?_) [] doc.rules]
    · simp
    · have conflicts : Issue.literalInvalid ∉ nameConflicts doc before r := by
        unfold nameConflicts
        split <;> simp [mem_only]
      simp [ruleFindings, issues_findingsAt, rule_no_literal, conflicts]
  simp only [declarationFindings, List.map_append, List.mem_append, constants, predicates, rules,
    or_false]

theorem references_tell_no_literal (doc : Document) {f : Finding}
    (found : f ∈ (Draft.ofDocument doc).referenceFindings) : f.issue ≠ .literalInvalid := by
  rcases List.mem_append.1 found with conditions | references
  · obtain ⟨entry, -, block⟩ := List.mem_flatMap.1 conditions
    obtain ⟨p, -, condition⟩ := List.mem_flatMap.1 block
    obtain ⟨c, -, told⟩ := List.mem_flatMap.1 condition
    obtain ⟨issue, member, rfl⟩ := List.mem_map.1 told
    rintro rfl
    exact condition_no_literal doc c.1 member
  · obtain ⟨r, -, told⟩ := List.mem_flatMap.1 references
    obtain ⟨issue, member, rfl⟩ := List.mem_map.1 told
    obtain ⟨ref, -, rfl⟩ := List.mem_map.1 member
    simp

/-- A literal is found to be invalid if and only if some constant has a value that is none. -/
theorem literal_found_iff (doc : Document) :
    (∃ f ∈ (Draft.ofDocument doc).checkReferences.findings, f.issue = .literalInvalid) ↔
      ∃ c ∈ doc.constants, isLiteral c.value = false := by
  have declared : (Draft.ofDocument doc).findings = declarationFindings doc := by
    rw [ofDocument_eq]
  rw [Draft.checkReferences, Draft.report, declared, ← declarations_tell_literal, List.mem_map]
  constructor
  · rintro ⟨f, found, literal⟩
    rcases List.mem_append.1 found with first | later
    · exact ⟨f, first, literal⟩
    · exact absurd literal (references_tell_no_literal doc later)
  · rintro ⟨f, found, literal⟩
    exact ⟨f, List.mem_append_left _ found, literal⟩

end Findings

inductive ValueAt : (Tree → Tree) → Prop where
  | mk {outer inner : Tree → Tree} (constants : FieldAt .document 2 outer)
      (before after : List Tree) (constant : FieldAt .constant 1 inner) :
      ValueAt fun v => outer (.list (before ++ inner v :: after))

/-- A text of a document in which no literal is found to be invalid. -/
def Accepted (s : String) : Prop :=
  ∃ doc, fromText Document.shape s = .ok doc ∧ ∀ findings,
    doc.validate = .error (.invalid findings) → ∀ f ∈ findings, f.issue ≠ .literalInvalid

theorem accepted_of_clean {s : String} {doc : Document}
    (parsed : fromText Document.shape s = .ok doc) (clean : doc.validate = .ok ()) :
    Accepted s := by
  refine ⟨doc, parsed, fun findings refused => ?_⟩
  rw [clean] at refused
  cases refused

theorem accepted_iff {s : String} {t : Tree} (text : TextOf s t) :
    Accepted s ↔ ∃ doc, Document.shape.decode levelLimit t = some doc ∧
      ∀ c ∈ doc.constants, isLiteral c.value = true := by
  unfold Accepted
  refine exists_congr fun doc => and_congr (fromText_tree _ text doc) ?_
  have found := not_congr (literal_found_iff doc)
  simp only [not_exists, not_and, Bool.not_eq_false] at found
  rw [← found]
  constructor
  · intro told f member
    apply told _ ((validate_eq_error doc _).2 ⟨rfl, List.ne_nil_of_mem member⟩) f member
  · rintro told findings refused
    obtain ⟨rfl, -⟩ := (validate_eq_error doc findings).1 refused
    exact told

/-- What does not stand as a string is kept as a text of the grammar. -/
theorem direct_isLiteral {levels : Nat} {v : Tree} {text : String} (other : ∀ q, v ≠ .string q)
    (decoded : Shape.literal.decode levels v = some text) : isLiteral text = true := by
  rw [Shape.decode] at decoded
  obtain ⟨value, had, rfl⟩ := Option.map_eq_some_iff.1 decoded
  cases value with
  | string s =>
    obtain ⟨q, rfl⟩ := Tree.value?_eq_string had
    exact absurd rfl (other q)
  | _ => exact compact_isLiteral _

theorem literals_around {n : Nat} (around : Around Constant n) {c : Constant}
    (valid : isLiteral c.value = true) :
    (∀ other ∈ around.put c, isLiteral other.value = true) ↔
      ∀ other ∈ around.front ++ around.back, isLiteral other.value = true := by
  simp only [Around.put, List.forall_mem_append, List.forall_mem_cons, valid, true_and]

/-- A constant whose value stands in the document itself is accepted if and only if it is with the
    text of the value in a string, and the value is within the limits of the reader. -/
theorem direct_accepted_iff {hole : Tree → Tree} (place : ValueAt hole)
    {literal direct quoted : String} {v : Tree} {q : Quotation} (value : TextOf literal v)
    (other : ∀ q, v ≠ .string q) (content : q.text? = some literal)
    (first : TextOf direct (hole v)) (second : TextOf quoted (hole (.string q))) :
    Accepted direct ↔ Accepted quoted ∧ v.Within 124 := by
  have valid : isLiteral literal = true := (isLiteral_iff_textOf literal).2 ⟨v, value⟩
  have string : Shape.literal.decode 124 (.string q) = some literal := by
    rw [Shape.decode, Tree.value?, content]
    rfl
  have limits : v.Within 124 ↔ (Shape.literal.decode 124 v).isSome := by
    rw [← Tree.value?_isSome, Shape.decode, Option.isSome_map]
  have levels : levelLimit = 124 + 3 := rfl
  rw [accepted_iff first, accepted_iff second, limits, levels]
  obtain ⟨constants, before, after, constant⟩ := place
  rcases constant_fills constants before after constant 124 with nothing | ⟨around, decoded⟩
  · simp only [nothing, reduceCtorEq, false_and, exists_false]
  · simp only [decoded, string]
    cases read : Shape.literal.decode 124 v with
    | none => simp
    | some text =>
      have kept := direct_isLiteral other read
      simp [-List.mem_append, literals_around, valid, kept]

def constantText (name value : String) : String :=
  "\x7b\"constants\":[\x7b\"name\":" ++ quote name ++ ",\"value\":" ++ value ++ "\x7d]\x7d"

def constantTree (name : String) (v : Tree) : Tree :=
  .object [keyed "constants" (.list [.object
    [keyed "name" (.string (.ofText name)), keyed "value" v]])]

theorem constantTree_place (name : String) : ValueAt (constantTree name) :=
  .mk (.object rfl (takes_name "constants" (by decide)) [] []) [] []
    (.object rfl (takes_name "value" (by decide)) [keyed "name" (.string (.ofText name))] [])

def hugeNumeral : Numeral where
  whole := [.char '1']
  fraction := []
  exponent := .char 'e' :: ([] ++ [.char '9', .char '9', .char '9'])
  isWhole := .digits _ [] 1 rfl (by decide) (by simp)
  isFraction := .none
  isExponent := .some (.inl rfl) .none ⟨by decide, by decide⟩

/-- A number beyond the largest is of the grammar, but is none to the reader. -/
theorem huge_number_spelled_apart :
    ∃ (v : Tree) (q : Quotation), IsName "c" ∧ TextOf "[1e999]" v ∧ (∀ q, v ≠ .string q) ∧
      q.text? = some "[1e999]" ∧ TextOf (constantText "c" "[1e999]") (constantTree "c" v) ∧
      TextOf (constantText "c" (quote "[1e999]")) (constantTree "c" (.string q)) ∧
      ¬ Accepted (constantText "c" "[1e999]") ∧ Accepted (constantText "c" (quote "[1e999]")) := by
  refine ⟨.list [.number false hugeNumeral], .ofText "[1e999]", by decide +kernel, ?_, ?_,
    Quotation.text?_ofText _, ?_, ?_, ?_, ?_⟩
  · exact textOf_symbols (by decide +kernel)
  · exact fun q same => nomatch same
  · exact textOf_symbols (by decide +kernel)
  · exact textOf_symbols (by decide +kernel)
  · rintro ⟨doc, parsed, -⟩
    have failed : (fromText Document.shape (constantText "c" "[1e999]")).toOption = none := by
      decide +kernel
    rw [parsed] at failed
    cases failed
  · have parsed : fromText Document.shape (constantText "c" (quote "[1e999]")) =
        .ok ⟨none, [], [⟨"c", "[1e999]"⟩], [], [], none⟩ := by decide +kernel
    exact accepted_of_clean parsed (by decide +kernel)

/-- A list of a text and a word is accepted in both spellings. -/
theorem mixed_list_accepted :
    Accepted (constantText "c" "[\"a\",true]") ∧
      Accepted (constantText "c" (quote "[\"a\",true]")) := by
  have value : TextOf "[\"a\",true]" (.list [.string (.ofText "a"), .bool true]) :=
    textOf_symbols (by decide +kernel)
  have direct : TextOf (constantText "c" "[\"a\",true]")
      (constantTree "c" (.list [.string (.ofText "a"), .bool true])) :=
    textOf_symbols (by decide +kernel)
  have string : TextOf (constantText "c" (quote "[\"a\",true]"))
      (constantTree "c" (.string (.ofText "[\"a\",true]"))) := textOf_symbols (by decide +kernel)
  have parsed : fromText Document.shape (constantText "c" (quote "[\"a\",true]")) =
      .ok ⟨none, [], [⟨"c", "[\"a\",true]"⟩], [], [], none⟩ := by decide +kernel
  have quoted := accepted_of_clean parsed (by decide +kernel)
  have limits : (Tree.list [.string (.ofText "a"), .bool true]).Within 124 :=
    (Tree.value?_isSome 124 _).1 (by decide +kernel)
  have other (q : Quotation) : Tree.list [.string (.ofText "a"), .bool true] ≠ .string q :=
    fun same => nomatch same
  exact ⟨(direct_accepted_iff (constantTree_place "c") value other (Quotation.text?_ofText _) direct
    string).2 ⟨quoted, limits⟩, quoted⟩

end RegoPolicy.Policy
