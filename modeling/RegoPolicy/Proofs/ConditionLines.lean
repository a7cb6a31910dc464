import RegoPolicy.Proofs.ColumnBindings

/-!
How many lines conditions take. Paths, names of constants and quoted values hold no line feeds, so
the feeds in the text of a condition are those of the values that are JSON texts, which stand there
as they are. A block has one line for each condition exactly if these values have none.
-/
namespace RegoPolicy.Rego

open Policy Json

def feeds (s : String) : Nat := s.toList.count '\n'

/-- The values that stand in the text of a condition as they are. -/
def pasted (c : Condition) : List String :=
  if c.operator.isExistence then [] else c.values.filter isLiteral

section Feeds

theorem feeds_append (a b : String) : feeds (a ++ b) = feeds a + feeds b := by
  simp [feeds]

theorem feeds_eq_zero (s : String) : feeds s = 0 ↔ '\n' ∉ s.toList := List.count_eq_zero

theorem feeds_join_cons (s : String) (texts : List String) :
    feeds (String.join (s :: texts)) = feeds s + feeds (String.join texts) := by
  rw [String.join_cons, feeds_append]

theorem feeds_join_eq_zero (texts : List String) :
    feeds (String.join texts) = 0 ↔ ∀ s ∈ texts, '\n' ∉ s.toList := by
  simp [feeds_eq_zero, String.toList_join]

theorem feeds_intercalate {separator : String} (apart : feeds separator = 0) (parts : List String) :
    feeds (String.intercalate separator parts) = feeds (String.join parts) := by
  induction parts with
  | nil => rfl
  | cons a parts ih =>
    cases parts with
    | nil => simp
    | cons b parts =>
      rw [String.intercalate_cons_cons, feeds_append, feeds_append, apart, ih, feeds_join_cons a]
      omega

theorem length_splitOn (cs : List Char) : (cs.splitOn '\n').length = cs.count '\n' + 1 := by
  induction cs with
  | nil => simp
  | cons c cs ih =>
    rw [List.splitOn_cons_eq_if_modifyHead, List.count_cons]
    by_cases feed : c = '\n'
    · simp [feed, ih]
    · simp [feed, ih]

end Feeds

section Conditions

theorem feeds_operand (value : String) :
    feeds (operand value) = if isLiteral value then feeds value else 0 := by
  unfold operand
  split
  · rfl
  · exact (feeds_eq_zero _).2 (quote_flat value)

theorem feeds_operands (values : List String) :
    feeds (String.join (values.map operand)) = feeds (String.join (values.filter isLiteral)) := by
  induction values with
  | nil => rfl
  | cons value values ih =>
    rw [List.map_cons, feeds_join_cons, ih, feeds_operand]
    cases literal : isLiteral value <;> simp [literal, feeds_append]

def Piece.isFlat : Piece → Bool
  | .fixed text => !text.toList.contains '\n'
  | _ => true

def Piece.isValue : Piece → Bool
  | .value => true
  | _ => false

theorem count_pieces {path value : String} (straight : feeds path = 0) {ps : List Piece}
    (fixed : ps.all Piece.isFlat = true) :
    (ps.flatMap (Piece.fill path value)).count '\n' = ps.countP Piece.isValue * feeds value := by
  induction ps with
  | nil => simp
  | cons piece ps ih =>
    rw [List.all_cons, Bool.and_eq_true] at fixed
    rw [List.flatMap_cons, List.count_append, ih fixed.2, List.countP_cons]
    cases piece with
    | fixed text =>
      have flat : '\n' ∉ text.toList := by simpa [Piece.isFlat] using fixed.1
      simp [Piece.fill, Piece.isValue, List.count_eq_zero.2 flat]
    | path =>
      have flat : path.toList.count '\n' = 0 := straight
      simp [Piece.fill, Piece.isValue, flat]
    | value =>
      simp only [Piece.fill, Piece.isValue, feeds, if_true, Nat.succ_mul]
      omega

theorem feeds_expression (o : Operator) {path : String} (straight : feeds path = 0)
    (value : String) :
    feeds (expression o path value) = if o.isExistence then 0 else feeds value := by
  have fixed : (pieces o).all Piece.isFlat = true := by cases o <;> decide
  have once : (pieces o).countP Piece.isValue = if o.isExistence then 0 else 1 := by
    cases o <;> rfl
  rw [feeds, expression_pieces, count_pieces straight fixed, once]
  split <;> simp

variable {constants : List String} {c : Condition}

theorem feeds_comparand (unset : c.constantName = none) :
    feeds (comparand c) = feeds (String.join (c.values.filter isLiteral)) := by
  have opening : feeds "[" = 0 := by decide
  have closing : feeds "]" = 0 := by decide
  have comma : feeds ", " = 0 := by decide
  have listed (values : List String) :
      feeds ("[" ++ String.intercalate ", " (values.map operand) ++ "]") =
        feeds (String.join (values.filter isLiteral)) := by
    rw [feeds_append, feeds_append, opening, closing, feeds_intercalate comma, feeds_operands]
    omega
  unfold comparand
  rw [unset]
  split
  · cases ‹none = some _›
  · split
    · rename_i none
      rw [none]
      rfl
    · rename_i value alone
      rw [alone]
      split
      · simpa using listed [value]
      · simpa using feeds_operands [value]
    · exact listed c.values

theorem feeds_condition (named : ∀ name ∈ constants, IsName name)
    (wellFormed : c.WellFormed constants) :
    feeds (condition c) = feeds (String.join (pasted c)) := by
  have straight : feeds (inputPath c) = 0 :=
    (feeds_eq_zero _).2 (not_mem_inputPath wellFormed (by decide) (by decide))
  have value : feeds (comparand c) = feeds (String.join (c.values.filter isLiteral)) := by
    cases found : c.constantName with
    | none => exact feeds_comparand found
    | some name =>
      have given := (filled_eq_some _ _).1 found
      have identifier := (named name (wellFormed.declared name given)).1
      have text : comparand c = name := by
        unfold comparand
        rw [found]
      have none : c.values = [] :=
        wellFormed.oneSource.resolve_right fun unset => unset name given
      rw [text, none, (feeds_eq_zero name).2 (not_mem_identifier identifier (by decide))]
      rfl
  rw [condition, feeds_expression _ straight, value, pasted]
  cases c.operator.isExistence <;> rfl

theorem pasted_flat_iff (named : ∀ name ∈ constants, IsName name)
    (wellFormed : c.WellFormed constants) :
    '\n' ∉ (condition c).toList ↔ ∀ value ∈ pasted c, '\n' ∉ value.toList := by
  rw [← feeds_eq_zero, feeds_condition named wellFormed, feeds_join_eq_zero]

end Conditions

structure BlockLines (p : Predicate) : Prop where
  flat : ∀ c ∈ p.conditions,
    '\n' ∉ (condition c).toList ↔ ∀ value ∈ pasted c, '\n' ∉ value.toList
  lines : blockBody (predicate p) = p.conditions.map (fun c => indented (condition c)) ↔
    ∀ c ∈ p.conditions, ∀ value ∈ pasted c, '\n' ∉ value.toList
  count : (blockBody (predicate p)).length =
    p.conditions.length + feeds (String.join (p.conditions.flatMap pasted))

theorem blockBody_predicate {p : Predicate} (named : IsName p.name) :
    blockBody (predicate p) =
      (p.conditions.map fun c => indented (condition c)).flatMap (·.splitOn '\n') := by
  have flat : '\n' ∉ p.name.toList := not_mem_identifier named.1 (by decide)
  rw [predicate, blockBody_definition flat, List.map_map]
  rfl

theorem length_blockBody {p : Predicate} {constants : List String}
    (named : ∀ name ∈ constants, IsName name) (wellFormed : p.WellFormed constants) :
    (blockBody (predicate p)).length =
      p.conditions.length + feeds (String.join (p.conditions.flatMap pasted)) := by
  have checked := wellFormed.conditions
  rw [blockBody_predicate wellFormed.name]
  generalize p.conditions = conditions at checked
  induction conditions with
  | nil => rfl
  | cons c conditions ih =>
    have rest := ih fun other member => checked other (List.mem_cons_of_mem c member)
    have here := feeds_condition named (checked c List.mem_cons_self)
    have line : ((indented (condition c)).splitOn '\n').length = feeds (condition c) + 1 := by
      rw [length_splitOn, indented, List.count_append]
      simp [feeds]
    have joined : String.join (pasted c ++ conditions.flatMap pasted) =
        String.join (pasted c) ++ String.join (conditions.flatMap pasted) := String.join_append
    rw [List.map_cons, List.flatMap_cons, List.length_append, rest, line, here, List.flatMap_cons,
      joined, feeds_append, List.length_cons]
    omega

/-- The blocks of a compiled document stand in its module. The text of a condition is one line
    exactly if no value that stands in it as it is has a line feed. A block has one line for each
    condition exactly if this holds of all of them, and one more line for each such line feed. -/
theorem condition_lines_iff {doc : Document} {policy : Compiled}
    (compiled : doc.compile = .ok policy) {p : Predicate} (block : p ∈ doc.predicates) :
    (predicate p).toList <:+: policy.rego.toList ∧ BlockLines p := by
  obtain ⟨wellFormed, rfl⟩ := (compile_eq_ok doc policy).1 compiled
  have named := wellFormed.constant_named
  have checked := wellFormed.predicates p block
  have flat : ∀ c ∈ p.conditions,
      '\n' ∉ (condition c).toList ↔ ∀ value ∈ pasted c, '\n' ∉ value.toList :=
    fun c inside => pasted_flat_iff named (checked.conditions c inside)
  refine ⟨predicate_emitted block, flat, ?_, length_blockBody named checked⟩
  rw [blockBody_predicate checked.name, flatMap_splitOn_iff, List.forall_mem_map]
  refine forall₂_congr fun c inside => ?_
  rw [← flat c inside]
  simp [indented]

/-- A document with line feeds in values: between the items of a JSON list, in a text that is no
    JSON, and in a value that its test does not look at. -/
def spread : Document where
  description := none
  connectors := []
  constants := [⟨"limits", "[1,\n2]"⟩]
  predicates :=
    [⟨"wide", [⟨.equals, some "x", ["[1,\n2]"], none⟩, ⟨.present, some "y", [], none⟩]⟩,
     ⟨"narrow", [⟨.equals, some "x", ["a\nb", "1"], none⟩, ⟨.absent, none, ["[\n]"], none⟩,
       ⟨.member, some "x", [], some "limits"⟩]⟩]
  rules := []
  rawRego := none

/-- The list takes two lines; the other conditions take one each. -/
theorem spread_lines :
    ∃ policy, spread.compile = .ok policy ∧
      (∀ p ∈ spread.predicates, (predicate p).toList <:+: policy.rego.toList ∧ BlockLines p) ∧
      spread.predicates.map (fun p => p.conditions.map condition) =
        [["input.x == [1,\n2]", "input.y"],
          ["input.x == [\"a\\nb\", 1]", "not input", "input.x in limits"]] ∧
      spread.predicates.map (fun p => (blockBody (predicate p)).length) = [3, 3] := by
  have compiled := compile_of_clean spread (by decide +kernel)
  refine ⟨_, compiled, fun p block => condition_lines_iff compiled block, by decide +kernel, ?_⟩
  decide +kernel

end RegoPolicy.Rego
