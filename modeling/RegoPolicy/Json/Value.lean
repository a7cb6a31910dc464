import RegoPolicy.Decimal.Shortest
import RegoPolicy.Table
import RegoPolicy.Text.Hex

/-!
JSON values and their two written forms: compact, and indented by two spaces a level.
-/
namespace RegoPolicy.Json

open Decimal

/-- A number without fraction and exponent that fits a 64-bit word is kept as an integer, every
    other one is a double with its sign. -/
inductive Number where
  | integer (n : Int)
  | real (negative : Bool) (magnitude : Double)
  deriving DecidableEq

inductive Value where
  | null
  | bool (b : Bool)
  | number (n : Number)
  | string (s : String)
  | array (items : List Value)
  | object (members : List (String × Value))

def realLayout : Layout := ⟨-5, 15⟩

def Number.write : Number → String
  | .integer n => toString n
  | .real negative d =>
    let sign := if negative then ['-'] else []
    let digits := if d.mantissa = 0 then ['0', '.', '0'] else realLayout.write (shortest d)
    String.ofList (sign ++ digits)

/-- How one character stands in a written string: control characters, the quote and the backslash
    are escaped, and nothing else is. -/
def escape (c : Char) : List Char :=
  if c = '"' then ['\\', '"']
  else if c = '\\' then ['\\', '\\']
  else if c = '\x08' then ['\\', 'b']
  else if c = '\x0c' then ['\\', 'f']
  else if c = '\n' then ['\\', 'n']
  else if c = '\r' then ['\\', 'r']
  else if c = '\t' then ['\\', 't']
  else if c.toNat < 0x20 then ['\\', 'u', '0', '0'] ++ Text.hexPair c.toNat
  else [c]

def quote (s : String) : String :=
  String.ofList (['"'] ++ s.toList.flatMap escape ++ ['"'])

mutual

def Value.compact : Value → String
  | .null => "null"
  | .bool true => "true"
  | .bool false => "false"
  | .number n => n.write
  | .string s => quote s
  | .array items => "[" ++ String.intercalate "," (compactItems items) ++ "]"
  | .object members => "\x7b" ++ String.intercalate "," (compactMembers members) ++ "\x7d"

def compactItems : List Value → List String
  | [] => []
  | v :: rest => v.compact :: compactItems rest

def compactMembers : List (String × Value) → List String
  | [] => []
  | (name, v) :: rest => (quote name ++ ":" ++ v.compact) :: compactMembers rest

end

def lineStart (level : Nat) : String :=
  String.ofList ('\n' :: List.replicate (2 * level) ' ')

def onLines (level : Nat) (opening : String) (items : List String) (closing : String) : String :=
  if items.isEmpty then opening ++ closing
  else
    opening ++ lineStart (level + 1) ++
      String.intercalate ("," ++ lineStart (level + 1)) items ++ lineStart level ++ closing

mutual

def Value.prettyAt (level : Nat) : Value → String
  | .null => "null"
  | .bool true => "true"
  | .bool false => "false"
  | .number n => n.write
  | .string s => quote s
  | .array items => onLines level "[" (prettyItems (level + 1) items) "]"
  | .object members => onLines level "\x7b" (prettyMembers (level + 1) members) "\x7d"

def prettyItems (level : Nat) : List Value → List String
  | [] => []
  | v :: rest => v.prettyAt level :: prettyItems level rest

def prettyMembers (level : Nat) : List (String × Value) → List String
  | [] => []
  | (name, v) :: rest =>
    (quote name ++ ": " ++ v.prettyAt level) :: prettyMembers level rest

end

def Value.pretty (v : Value) : String := v.prettyAt 0

end RegoPolicy.Json
