import RegoPolicy.Text.Quoted
import RegoPolicy.Text.Symbol
import RegoPolicy.Json.Value

/-!
What can be wrong with a JSON text, where that is noticed, and the message that says so.
-/
namespace RegoPolicy.Json

open Text

inductive Found where
  | null
  | bool (b : Bool)
  | number (n : Number)
  | string (s : String)
  | sequence
  | map
  deriving DecidableEq

def Found.describe : Found → String
  | .null => "null"
  | .bool b => "boolean `" ++ (if b then "true" else "false") ++ "`"
  | .number (.integer n) => "integer `" ++ (Number.integer n).write ++ "`"
  | .number (.real negative d) => "floating point `" ++ (Number.real negative d).write ++ "`"
  | .string s => "string " ++ quoted s
  | .sequence => "sequence"
  | .map => "map"

inductive Cause where
  | endInValue
  | endInList
  | endInObject
  | endInString
  | expectedValue
  | expectedColon
  | expectedListEnd
  | expectedObjectEnd
  | expectedWord
  | trailingComma
  | trailingCharacters
  | keyNotString
  | tooDeep
  | invalidNumber
  | numberOutOfRange
  | invalidEscape
  | controlCharacter
  | loneSurrogate
  | brokenSurrogate
  | invalidCodePoint
  | wrongType (found : Found) (wanted : String)
  | unknownVariant (found : String) (known : List String)
  | duplicateField (name : String)
  | missingField (name : String)
  | wrongLength (index : Nat) (record : String) (fields : Nat)
  deriving DecidableEq

def backticked (s : String) : String := "`" ++ s ++ "`"

def Cause.describe : Cause → String
  | .endInValue => "EOF while parsing a value"
  | .endInList => "EOF while parsing a list"
  | .endInObject => "EOF while parsing an object"
  | .endInString => "EOF while parsing a string"
  | .expectedValue => "expected value"
  | .expectedColon => "expected `:`"
  | .expectedListEnd => "expected `,` or `]`"
  | .expectedObjectEnd => "expected `,` or `\x7d`"
  | .expectedWord => "expected ident"
  | .trailingComma => "trailing comma"
  | .trailingCharacters => "trailing characters"
  | .keyNotString => "key must be a string"
  | .tooDeep => "recursion limit exceeded"
  | .invalidNumber => "invalid number"
  | .numberOutOfRange => "number out of range"
  | .invalidEscape => "invalid escape"
  | .controlCharacter => "control character (\\u0000-\\u001F) found while parsing a string"
  | .loneSurrogate => "lone leading surrogate in hex escape"
  | .brokenSurrogate => "unexpected end of hex escape"
  | .invalidCodePoint => "invalid unicode code point"
  | .wrongType found wanted => "invalid type: " ++ found.describe ++ ", expected " ++ wanted
  | .unknownVariant found known =>
    "unknown variant " ++ backticked found ++ ", expected one of " ++
      String.intercalate ", " (known.map backticked)
  | .duplicateField name => "duplicate field " ++ backticked name
  | .missingField name => "missing field " ++ backticked name
  | .wrongLength index record fields =>
    "invalid length " ++ toString index ++ ", expected struct " ++ record ++ " with " ++
      toString fields ++ (if fields = 1 then " element" else " elements")

/-- A cause and its place, given by how many bytes of the text are left there. `ahead` tells that
    a byte after that place has been looked at, which a stream has then already passed. -/
structure Fault where
  cause : Cause
  left : Nat
  ahead : Bool
  deriving DecidableEq

def Fault.next (cause : Cause) (input : List Symbol) : Fault := ⟨cause, width input - 1, false⟩

def Fault.here (cause : Cause) (input : List Symbol) : Fault := ⟨cause, width input, false⟩

def Fault.looking (cause : Cause) (input : List Symbol) : Fault :=
  ⟨cause, width input, !input.isEmpty⟩

inductive SourceKind where
  | text
  | stream
  deriving DecidableEq

structure Problem where
  cause : Cause
  position : Position
  deriving DecidableEq

def Fault.locate (kind : SourceKind) (input : List Symbol) (f : Fault) : Problem :=
  let passed := width input - f.left
  match kind with
  | .text => ⟨f.cause, Position.after input passed⟩
  | .stream => ⟨f.cause, Position.after input (if f.ahead then passed + 1 else passed)⟩

def Problem.message (p : Problem) : String :=
  p.cause.describe ++ " at line " ++ toString p.position.line ++ " column " ++
    toString p.position.column

end RegoPolicy.Json
