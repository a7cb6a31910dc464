import RegoPolicy.Policy.Document

/-!
Conditions as Rego expressions.
-/
namespace RegoPolicy.Rego

open Policy Json

/-- A text that is a JSON literal stands for that value, every other text for itself as a string. -/
def operand (value : String) : String :=
  if isLiteral value then value else quote value

/-- What a condition compares with: a constant, a single value, or a list. Membership tests take a
    list even of one value. -/
def comparand (c : Condition) : String :=
  match c.constantName with
  | some name => name
  | none =>
    match c.values with
    | [] => ""
    | [single] =>
      if c.operator.isMembership then "[" ++ operand single ++ "]" else operand single
    | values => "[" ++ String.intercalate ", " (values.map operand) ++ "]"

def inputPath (c : Condition) : String :=
  match c.path with
  | some path => "input." ++ path
  | none => "input"

def expression (o : Operator) (path value : String) : String :=
  match o with
  | .equals => path ++ " == " ++ value
  | .notEquals => path ++ " != " ++ value
  | .member => path ++ " in " ++ value
  | .notMember => "not " ++ path ++ " in " ++ value
  | .anyMember => "some _x in " ++ path ++ "; _x in " ++ value
  | .allMember => "every _x in " ++ path ++ " \x7b _x in " ++ value ++ " \x7d"
  | .noMember => "not (some _x in " ++ path ++ "; _x in " ++ value ++ ")"
  | .contains => "contains(" ++ path ++ ", " ++ value ++ ")"
  | .notContains => "not contains(" ++ path ++ ", " ++ value ++ ")"
  | .startsWith => "startswith(" ++ path ++ ", " ++ value ++ ")"
  | .endsWith => "endswith(" ++ path ++ ", " ++ value ++ ")"
  | .matchesRegex => "regex.match(" ++ value ++ ", " ++ path ++ ")"
  | .greater => path ++ " > " ++ value
  | .less => path ++ " < " ++ value
  | .greaterOrEqual => path ++ " >= " ++ value
  | .lessOrEqual => path ++ " <= " ++ value
  | .present => path
  | .absent => "not " ++ path

/-- A piece of an expression: a text that is always the same, the path, or what is compared with. -/
inductive Piece where
  | fixed (text : String)
  | path
  | value
  deriving DecidableEq

def Piece.fill (path value : String) : Piece → List Char
  | .fixed text => text.toList
  | .path => path.toList
  | .value => value.toList

def pieces : Operator → List Piece
  | .equals => [.path, .fixed " == ", .value]
  | .notEquals => [.path, .fixed " != ", .value]
  | .member => [.path, .fixed " in ", .value]
  | .notMember => [.fixed "not ", .path, .fixed " in ", .value]
  | .anyMember => [.fixed "some _x in ", .path, .fixed "; _x in ", .value]
  | .allMember => [.fixed "every _x in ", .path, .fixed " \x7b _x in ", .value, .fixed " \x7d"]
  | .noMember => [.fixed "not (some _x in ", .path, .fixed "; _x in ", .value, .fixed ")"]
  | .contains => [.fixed "contains(", .path, .fixed ", ", .value, .fixed ")"]
  | .notContains => [.fixed "not contains(", .path, .fixed ", ", .value, .fixed ")"]
  | .startsWith => [.fixed "startswith(", .path, .fixed ", ", .value, .fixed ")"]
  | .endsWith => [.fixed "endswith(", .path, .fixed ", ", .value, .fixed ")"]
  | .matchesRegex => [.fixed "regex.match(", .value, .fixed ", ", .path, .fixed ")"]
  | .greater => [.path, .fixed " > ", .value]
  | .less => [.path, .fixed " < ", .value]
  | .greaterOrEqual => [.path, .fixed " >= ", .value]
  | .lessOrEqual => [.path, .fixed " <= ", .value]
  | .present => [.path]
  | .absent => [.fixed "not ", .path]

theorem expression_pieces (o : Operator) (path value : String) :
    (expression o path value).toList = (pieces o).flatMap (Piece.fill path value) := by
  unfold expression pieces
  cases o <;>
    simp only [String.toList_append, List.flatMap_cons, List.flatMap_nil, Piece.fill,
      List.append_assoc, List.append_nil]

def condition (c : Condition) : String := expression c.operator (inputPath c) (comparand c)

end RegoPolicy.Rego
