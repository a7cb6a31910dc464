/-!
Which texts can name something in a policy, and which are paths below the input.
-/
namespace RegoPolicy.Policy

def isLetter (c : Char) : Bool :=
  ('a' ≤ c && c ≤ 'z') || ('A' ≤ c && c ≤ 'Z') || c = '_'

def isNameChar (c : Char) : Bool := isLetter c || ('0' ≤ c && c ≤ '9')

def isIdentifierChars : List Char → Bool
  | [] => false
  | c :: rest => isLetter c && rest.all isNameChar

def isIdentifier (s : String) : Bool := isIdentifierChars s.toList

def reservedNames : List String :=
  ["input", "data", "true", "false", "null", "if", "in", "some", "every", "not", "with", "as",
   "default", "else", "package", "import", "count", "sum", "max", "min", "contains",
   "startswith", "endswith"]

def isReserved (s : String) : Bool := reservedNames.contains s

inductive NameFault where
  | invalid
  | reserved
  deriving DecidableEq

def nameFault? (s : String) : Option NameFault :=
  if !isIdentifier s then some .invalid
  else if isReserved s then some .reserved
  else none

/-- Reads a path one character at a time; `fresh` tells that a name has to start. -/
def isPathFrom : Bool → List Char → Bool
  | fresh, [] => !fresh
  | true, c :: rest => isLetter c && isPathFrom false rest
  | false, c :: rest => if c = '.' then isPathFrom true rest else isNameChar c && isPathFrom false rest

def isPath (s : String) : Bool := isPathFrom true s.toList

end RegoPolicy.Policy
