import RegoPolicy.Proofs.Trees
import RegoPolicy.Proofs.WellFormed

/-!
What the expressions of conditions are about. The left operand is the input or a path below it, the
right one a declared constant or a JSON text with one part for each value. A value that is a JSON
text stands there as it is, and every other value as a string of it.
-/
namespace RegoPolicy.Json

open Text

theorem textOf_isLiteral {s : String} {t : Tree} (tree : TextOf s t) : isLiteral s = true :=
  (isLiteral_iff_textOf s).2 ⟨t, tree⟩

theorem textOf_quote (s : String) : TextOf (quote s) (.string (.ofText s)) := by
  apply textOf_symbols
  rw [ofString_quote]
  rfl

theorem joined_texts {parts : List (String × Tree)} (each : ∀ part ∈ parts, TextOf part.1 part.2)
    {lead : List Symbol} (blank : Blank lead) :
    ∃ texts, HaveTrees texts (parts.map (·.2)) ∧
      Joined texts (lead ++ ofString (String.intercalate ", " (parts.map (·.1)))) := by
  -- Every part but the first has space in front from its separator.
  induction parts generalizing lead with
  | nil => exact ⟨[], .nil, by simpa [ofString] using .none blank⟩
  | cons part parts ih =>
    obtain ⟨before, text, after, spaced, tree, closing, split⟩ := each part List.mem_cons_self
    have front := blank_append blank spaced
    have gap : Blank [.char ' '] := by simp [Blank, isSpace]
    obtain ⟨texts, trees, joined⟩ :=
      ih (fun other member => each other (List.mem_cons_of_mem part member)) gap
    cases parts with
    | nil =>
      refine ⟨[text], .cons tree .nil, ?_⟩
      have alone : Joined [text] _ := .last front closing
      simpa [split] using alone
    | cons next parts =>
      have comma : ofString ", " = [.char ',', .char ' '] := by decide
      cases trees with
      | @cons first _ texts _ head tail =>
        refine ⟨text :: first :: texts, .cons tree (.cons head tail), ?_⟩
        have longer : Joined (text :: first :: texts) _ := .more front closing joined
        simpa [ofString_append, split, comma] using longer

theorem textOf_list {parts : List (String × Tree)} (each : ∀ part ∈ parts, TextOf part.1 part.2) :
    TextOf ("[" ++ String.intercalate ", " (parts.map (·.1)) ++ "]")
      (.list (parts.map (·.2))) := by
  obtain ⟨texts, trees, joined⟩ := joined_texts each blank_nil
  have opening : ofString "[" = [.char '['] := by decide
  have closing : ofString "]" = [.char ']'] := by decide
  refine ⟨[], _, [], blank_nil, .list trees joined, blank_nil, ?_⟩
  simp [ofString_append, opening, closing]

end RegoPolicy.Json

namespace RegoPolicy.Rego

open Policy Json

/-- A text that stands for a value, with its tree: the value itself if it is a JSON text, and
    otherwise a string that is read as the value. -/
def StandsFor (value text : String) (t : Tree) : Prop :=
  TextOf text t ∧ ((isLiteral value = true ∧ text = value) ∨
    (isLiteral value = false ∧ ∃ q, t = .string q ∧ q.text? = some value))

def ListsValues (values : List String) (text : String) : Prop :=
  ∃ parts : List (String × Tree),
    List.Forall₂ (fun value part => StandsFor value part.1 part.2) values parts ∧
    text = "[" ++ String.intercalate ", " (parts.map (·.1)) ++ "]" ∧
    TextOf text (.list (parts.map (·.2)))

inductive LeftOperand (c : Condition) : String → Prop where
  | whole (unset : ∀ path, ¬ Gives c.subject path) : LeftOperand c "input"
  | below {path : String} (given : Gives c.subject path) (dotted : IsDotted path) :
      LeftOperand c ("input." ++ path)

/-- What the expression of a condition compares with: the declared constant that it names, or a JSON
    text made of its values. Only one value of a test other than on membership stands alone. -/
inductive RightOperand (constants : List String) (c : Condition) (text : String) : Prop where
  | constant (given : Gives c.constant text) (declared : text ∈ constants)
  | single (value : String) (alone : c.values = [value])
      (plain : c.operator.isMembership = false) (literal : isLiteral text = true)
      (stands : ∃ t, StandsFor value text t)
  | list (some : c.values ≠ []) (wanted : c.operator.isMembership = true ∨ c.values.length ≠ 1)
      (literal : isLiteral text = true) (lists : ListsValues c.values text)

theorem operand_literal {value : String} (literal : isLiteral value = true) :
    operand value = value := by
  rw [operand, if_pos literal]

theorem operand_stands (value : String) : ∃ t, StandsFor value (operand value) t := by
  unfold operand
  split
  · rename_i literal
    obtain ⟨t, tree⟩ := (isLiteral_iff_textOf value).1 literal
    exact ⟨t, tree, .inl ⟨literal, rfl⟩⟩
  · rename_i other
    exact ⟨_, textOf_quote value, .inr ⟨by simpa using other, _, rfl, Quotation.text?_ofText value⟩⟩

theorem operands_stand (values : List String) :
    ∃ parts : List (String × Tree), parts.map (·.1) = values.map operand ∧
      List.Forall₂ (fun value part => StandsFor value part.1 part.2) values parts ∧
      ∀ part ∈ parts, TextOf part.1 part.2 := by
  induction values with
  | nil => exact ⟨[], rfl, .nil, by simp⟩
  | cons value values ih =>
    obtain ⟨t, stands⟩ := operand_stands value
    obtain ⟨parts, texts, others, trees⟩ := ih
    refine ⟨(operand value, t) :: parts, by simp [texts], .cons stands others, ?_⟩
    exact List.forall_mem_cons.2 ⟨stands.1, trees⟩

theorem operands_listed (values : List String) :
    ListsValues values ("[" ++ String.intercalate ", " (values.map operand) ++ "]") := by
  obtain ⟨parts, texts, stand, trees⟩ := operands_stand values
  rw [← texts]
  exact ⟨parts, stand, rfl, textOf_list trees⟩

theorem ListsValues.isLiteral {values : List String} {text : String}
    (lists : ListsValues values text) : Json.isLiteral text = true := by
  obtain ⟨_, _, _, tree⟩ := lists
  exact textOf_isLiteral tree

section Conditions

variable {constants : List String} {c : Condition}

theorem inputPath_operand (wellFormed : c.WellFormed constants) : LeftOperand c (inputPath c) := by
  unfold inputPath Condition.path
  split
  · rename_i path found
    have given := (filled_eq_some _ _).1 found
    exact .below given (wellFormed.path path given)
  · rename_i none
    refine .whole fun path given => ?_
    rw [(filled_eq_some _ _).2 given] at none
    cases none

/-- The check for something to compare with keeps the empty text out. -/
theorem comparand_operand (wellFormed : c.WellFormed constants)
    (compares : c.operator.isExistence = false) : RightOperand constants c (comparand c) := by
  unfold comparand Condition.constantName
  split
  · rename_i name found
    have given := (filled_eq_some _ _).1 found
    exact .constant given (wellFormed.declared name given)
  · rename_i unset
    have some : c.values ≠ [] := by
      rcases wellFormed.comparand compares with values | ⟨name, given⟩
      · exact values
      · rw [(filled_eq_some _ _).2 given] at unset
        cases unset
    have listed := operands_listed c.values
    split
    · rename_i none
      exact absurd none some
    · rename_i value alone
      split
      · rename_i membership
        simp only [alone, List.map_cons, List.map_nil, String.intercalate_singleton] at listed
        exact .list some (.inl membership) listed.isLiteral (alone ▸ listed)
      · rename_i plain
        obtain ⟨t, stands⟩ := operand_stands value
        exact .single value alone (by simpa using plain) (textOf_isLiteral stands.1) ⟨t, stands⟩
    · rename_i several
      refine .list some (.inr fun one => ?_) listed.isLiteral listed
      obtain ⟨value, alone⟩ := List.length_eq_one_iff.1 one
      exact several value alone

end Conditions

/-- Every condition of a compiled document is the template of its operator, filled with a path below
    the input and, if it compares, with a declared constant or a JSON text of its values. -/
theorem condition_fills_template {doc : Document} {policy : Compiled}
    (compiled : doc.compile = .ok policy) {p : Predicate} (block : p ∈ doc.predicates)
    {c : Condition} (inside : c ∈ p.conditions) :
    ∃ left right,
      (condition c).toList = (pieces c.operator).flatMap (Piece.fill left right) ∧
      LeftOperand c left ∧
      (c.operator.isExistence = false → RightOperand doc.constantNames c right) := by
  have wellFormed := ((compile_eq_ok doc policy).1 compiled).1
  have checked := (wellFormed.predicates p block).conditions c inside
  exact ⟨inputPath c, comparand c, expression_pieces _ _ _, inputPath_operand checked,
    comparand_operand checked⟩

/-- A document whose conditions take their operands from a text that is no JSON, from a JSON text
    with space around it, from several values and from a constant. -/
def weighing : Document where
  description := none
  connectors := []
  constants := [⟨"limits", "[1, 2]"⟩]
  predicates := [⟨"weighed",
    [⟨.equals, some "user.name", ["say \"]\"\n"], none⟩,
      ⟨.anyMember, some "user.groups", [" [1] "], none⟩,
      ⟨.greater, some "size", ["1", "x, y"], none⟩,
      ⟨.allMember, some "sizes", [], some "limits"⟩,
      ⟨.absent, none, [], none⟩]⟩]
  rules := []
  rawRego := none

/-- Its lines, and that each of them is made of operands. -/
theorem weighing_fills_templates :
    (∃ policy, weighing.compile = .ok policy) ∧
    (weighing.predicates.flatMap (·.conditions)).map condition =
      ["input.user.name == \"say \\\"]\\\"\\n\"",
        "some _x in input.user.groups; _x in [ [1] ]",
        "input.size > [1, \"x, y\"]",
        "every _x in input.sizes \x7b _x in limits \x7d",
        "not input"] ∧
    ∀ p ∈ weighing.predicates, ∀ c ∈ p.conditions, ∃ left right,
      (condition c).toList = (pieces c.operator).flatMap (Piece.fill left right) ∧
      LeftOperand c left ∧
      (c.operator.isExistence = false → RightOperand weighing.constantNames c right) := by
  have compiled := compile_of_clean weighing (by decide +kernel)
  exact ⟨⟨_, compiled⟩, by decide +kernel,
    fun p block c inside => condition_fills_template compiled block inside⟩

end RegoPolicy.Rego
