import Mathlib.Data.List.Basic
import RegoPolicy.Proofs.BodyLines

/-!
The templates of operators, place by place. Whatever a condition compares with, its text tells its
operator, its path and what it compares with: two templates differ in front of the first value, and
a path ends where a character stands that no path holds.
-/
namespace RegoPolicy.Rego

open Policy

/-- A place of a template: a character that always stands there, or one of the operands. -/
inductive Cell where
  | char (c : Char)
  | path
  | value
  deriving DecidableEq

def Cell.fill (path value : List Char) : Cell → List Char
  | .char c => [c]
  | .path => path
  | .value => value

def Piece.cells : Piece → List Cell
  | .fixed text => text.toList.map .char
  | .path => [.path]
  | .value => [.value]

def cells (o : Operator) : List Cell := (pieces o).flatMap Piece.cells

theorem expression_cells (o : Operator) (path value : String) :
    (expression o path value).toList = (cells o).flatMap (Cell.fill path.toList value.toList) := by
  rw [expression_pieces, cells, List.flatMap_assoc]
  congr 1
  funext p
  cases p with
  | fixed text => simp [Piece.fill, Piece.cells, Cell.fill, List.flatMap_map]
  | path => simp [Piece.fill, Piece.cells, Cell.fill]
  | value => simp [Piece.fill, Piece.cells, Cell.fill]

def isPathChar (c : Char) : Bool := c = '.' || isNameChar c

structure PathText (path : List Char) : Prop where
  start : path.head? = some 'i'
  chars : ∀ c ∈ path, isPathChar c = true

def endsPath : List Cell → Bool
  | [] => true
  | .char c :: _ => !isPathChar c
  | _ => false

/-- Whether two templates differ in front of the first value, whatever paths they are filled
    with. -/
def toldApart : List Cell → List Cell → Bool
  | .char c :: ps, .char d :: qs => c ≠ d || toldApart ps qs
  | .path :: ps, .path :: qs => endsPath ps && endsPath qs && toldApart ps qs
  | .char c :: _, .path :: _ => c ≠ 'i'
  | .path :: _, .char d :: _ => d ≠ 'i'
  | .char _ :: _, [] => true
  | [], .char _ :: _ => true
  | _, _ => false

def locates : List Cell → Bool
  | .char _ :: ps => locates ps
  | .path :: ps => endsPath ps
  | _ => false

theorem endsPath_stops {ps : List Cell} (ends : endsPath ps = true) (path value : List Char) :
    ∀ c, (ps.flatMap (Cell.fill path value)).head? = some c → isPathChar c = false := by
  intro c first
  match ps with
  | [] => simp at first
  | .char d :: ps =>
    obtain rfl : d = c := by simpa [Cell.fill] using first
    simpa [endsPath] using ends

theorem locates_sound {ps : List Cell} (found : locates ps = true) {path other : List Char}
    (left : ∀ c ∈ path, isPathChar c = true) (right : ∀ c ∈ other, isPathChar c = true)
    {value compared : List Char}
    (same : ps.flatMap (Cell.fill path value) = ps.flatMap (Cell.fill other compared)) :
    path = other := by
  fun_induction locates ps with
  | case1 c ps ih => exact ih found (by simpa [Cell.fill] using same)
  | case2 ps =>
    exact (leading_run left right (endsPath_stops found _ _) (endsPath_stops found _ _) same).1
  | case3 => cases found

theorem toldApart_sound {ps qs : List Cell} (apart : toldApart ps qs = true)
    {path other : List Char} (left : PathText path) (right : PathText other)
    (value compared : List Char) :
    ps.flatMap (Cell.fill path value) ≠ qs.flatMap (Cell.fill other compared) := by
  intro same
  fun_induction toldApart ps qs with
  | case1 c ps d qs ih =>
    obtain ⟨rfl, others⟩ : c = d ∧ _ := by simpa [Cell.fill] using same
    exact ih (by simpa using apart) others
  | case2 ps qs ih =>
    simp only [Bool.and_eq_true] at apart
    obtain ⟨⟨leftEnds, rightEnds⟩, apart⟩ := apart
    have rests := (leading_run left.chars right.chars (endsPath_stops leftEnds _ _)
      (endsPath_stops rightEnds _ _) same).2
    exact ih apart rests
  | case3 c ps qs =>
    obtain ⟨rest, rfl⟩ := List.head?_eq_some_iff.1 right.start
    have first : c = 'i' := (List.cons.inj same).1
    simp [first] at apart
  | case4 ps d qs =>
    obtain ⟨rest, rfl⟩ := List.head?_eq_some_iff.1 left.start
    have first : 'i' = d := (List.cons.inj same).1
    simp [← first] at apart
  | case5 c ps => cases same
  | case6 d qs => cases same
  | case7 => cases apart

theorem value_of_fill {ps : List Cell} (once : ps.count .value = 1)
    {path value compared : List Char}
    (same : ps.flatMap (Cell.fill path value) = ps.flatMap (Cell.fill path compared)) :
    value = compared := by
  induction ps with
  | nil => cases once
  | cons p ps ih =>
    cases p with
    | char c => exact ih (by simpa using once) (by simpa [Cell.fill] using same)
    | path => exact ih (by simpa using once) (by simpa [Cell.fill] using same)
    | value =>
      have none : .value ∉ ps := List.count_eq_zero.1 (by simpa using once)
      have rest : ps.flatMap (Cell.fill path value) = ps.flatMap (Cell.fill path compared) := by
        apply List.flatMap_congr
        intro p member
        cases p with
        | char c => rfl
        | path => rfl
        | value => exact absurd member none
      rw [List.flatMap_cons, List.flatMap_cons, rest] at same
      exact List.append_cancel_right same

theorem cells_toldApart (o q : Operator) (differ : o ≠ q) :
    toldApart (cells o) (cells q) = true := by
  have table : (Operator.all.all fun o => Operator.all.all fun q =>
      o = q || toldApart (cells o) (cells q)) = true := by decide
  have row := List.all_eq_true.1 table o (Operator.mem_all o)
  simpa [differ] using List.all_eq_true.1 row q (Operator.mem_all q)

/-- Only the pattern of a regular expression stands in front of its path, which is then found from
    the end. -/
theorem cells_locate (o : Operator) :
    locates (cells o) = true ∨ locates (cells o).reverse = true := by
  cases o <;> decide

theorem cells_value (o : Operator) (compares : o.isExistence = false) :
    (cells o).count .value = 1 := by
  revert compares
  cases o <;> decide

theorem cells_path {o : Operator} {path other : List Char}
    (left : ∀ c ∈ path, isPathChar c = true) (right : ∀ c ∈ other, isPathChar c = true)
    {value compared : List Char}
    (same : (cells o).flatMap (Cell.fill path value) =
      (cells o).flatMap (Cell.fill other compared)) : path = other := by
  rcases cells_locate o with front | back
  · exact locates_sound front left right same
  · -- Read from the end, the path stands in front of the pattern.
    have turned (path value : List Char) :
        ((cells o).flatMap (Cell.fill path value)).reverse =
          (cells o).reverse.flatMap (Cell.fill path.reverse value.reverse) := by
      rw [List.reverse_flatMap]
      congr 1
      funext p
      cases p <;> rfl
    have mirrored := congrArg List.reverse same
    rw [turned, turned] at mirrored
    have paths := locates_sound back (by simpa using left) (by simpa using right) mirrored
    exact List.reverse_injective paths

/-- The text of an expression tells its operator, its path and what it compares with. -/
theorem expression_inj {o q : Operator} {path other value compared : String}
    (left : PathText path.toList) (right : PathText other.toList)
    (same : expression o path value = expression q other compared) :
    o = q ∧ path = other ∧ (o.isExistence = false → value = compared) := by
  have filled := congrArg String.toList same
  rw [expression_cells, expression_cells] at filled
  have operators : o = q := by
    by_contra differ
    exact toldApart_sound (cells_toldApart o q differ) left right _ _ filled
  subst operators
  have paths := cells_path left.chars right.chars filled
  rw [paths] at filled
  refine ⟨rfl, String.toList_injective paths, fun compares => ?_⟩
  exact String.toList_injective (value_of_fill (cells_value o compares) filled)

theorem expression_existence {o : Operator} (existence : o.isExistence = true)
    (path value compared : String) : expression o path value = expression o path compared := by
  cases o with
  | present => rfl
  | absent => rfl
  | _ => cases existence

theorem inputPath_text {c : Condition} (free : c.issues = []) : PathText (inputPath c).toList := by
  have wellFormed : c.WellFormed (filled c.constant).toList := by
    rw [← Condition.issues_eq_nil]
    refine ⟨free, fun name given => ?_⟩
    simp [(filled_eq_some _ _).2 given]
  refine ⟨?_, fun d member => ?_⟩
  · unfold inputPath
    split <;> simp
  · by_contra outside
    simp only [isPathChar, Bool.or_eq_true, decide_eq_true_eq, not_or, Bool.not_eq_true] at outside
    exact not_mem_inputPath wellFormed outside.1 outside.2 member

theorem inputPath_inj {c d : Condition} (same : inputPath c = inputPath d) : c.path = d.path := by
  have apart (path : String) : "input." ++ path ≠ "input" := by
    intro equal
    simpa using congrArg String.toList equal
  unfold inputPath at same
  cases first : c.path with
  | none =>
    cases second : d.path with
    | none => rfl
    | some path =>
      rw [first, second] at same
      exact absurd same.symm (apart path)
  | some path =>
    cases second : d.path with
    | none =>
      rw [first, second] at same
      exact absurd same (apart path)
    | some other =>
      rw [first, second] at same
      have paths : path.toList = other.toList := by simpa using congrArg String.toList same
      rw [String.toList_injective paths]

/-- Two conditions without issues have one text exactly if they have one operator and one path, and
    compare with one text if they compare at all. -/
theorem condition_eq_iff {c d : Condition} (left : c.issues = []) (right : d.issues = []) :
    condition c = condition d ↔
      c.operator = d.operator ∧ c.path = d.path ∧
        (c.operator.isExistence = false → comparand c = comparand d) := by
  constructor
  · intro same
    obtain ⟨operators, paths, values⟩ :=
      expression_inj (inputPath_text left) (inputPath_text right) same
    exact ⟨operators, inputPath_inj paths, values⟩
  · rintro ⟨operators, paths, values⟩
    have inputs : inputPath c = inputPath d := by rw [inputPath, inputPath, paths]
    unfold condition
    rw [← operators, inputs]
    cases existence : c.operator.isExistence with
    | true => exact expression_existence existence _ _ _
    | false => rw [values existence]

def matching (pattern : String) (constant : Option String) : Condition :=
  ⟨.matchesRegex, some "user.name", [pattern], constant⟩

/-- A pattern with a comma and the JSON string of it make one expression, and then they are one
    pattern. -/
theorem matching_eq :
    (matching "^a, b$" none).issues = [] ∧ (matching "\"^a, b$\"" (some "")).issues = [] ∧
      condition (matching "^a, b$" none) = condition (matching "\"^a, b$\"" (some "")) ∧
      comparand (matching "^a, b$" none) = comparand (matching "\"^a, b$\"" (some "")) := by
  have left : (matching "^a, b$" none).issues = [] := by decide +kernel
  have right : (matching "\"^a, b$\"" (some "")).issues = [] := by decide +kernel
  have same : condition (matching "^a, b$" none) = condition (matching "\"^a, b$\"" (some "")) := by
    decide +kernel
  obtain ⟨-, -, compared⟩ := (condition_eq_iff left right).1 same
  exact ⟨left, right, same, compared rfl⟩

end RegoPolicy.Rego
