import RegoPolicy.Policy.Document

/-!
Documents from texts, streams and files, and the error if there is none to be had.
-/
namespace RegoPolicy.Policy

open Json

inductive DocumentError where
  | malformed (problem : Problem)
  | unknownOperator (name : String)
  | unknownAction (name : String)
  | notUtf8
  deriving DecidableEq

def notUtf8Text : String := "stream did not contain valid UTF-8"

def DocumentError.message : DocumentError → String
  | .malformed problem => "Serialization error: " ++ problem.message
  | .unknownOperator name => "Unknown operator: " ++ name
  | .unknownAction name => "Unknown action: " ++ name
  | .notUtf8 => "IO error: " ++ notUtf8Text

def fromText {α : Type} (shape : Shape α) (s : String) : Except DocumentError α :=
  (shape.parseText s).mapError .malformed

def Document.fromStream (bytes : List UInt8) : Except DocumentError Document :=
  (Document.shape.parse .stream (Text.decode bytes)).mapError .malformed

/-- Reads a document from the bytes of a file, which have to be a text. -/
def Document.fromFile (bytes : List UInt8) : Except DocumentError Document :=
  match Text.toString? (Text.decode bytes) with
  | none => .error .notUtf8
  | some s => fromText Document.shape s

def operatorNamed (name : String) : Except DocumentError Operator :=
  match Operator.ofName? name with
  | some o => .ok o
  | none => .error (.unknownOperator name)

def actionNamed (name : String) : Except DocumentError Action :=
  match Action.ofName? name with
  | some a => .ok a
  | none => .error (.unknownAction name)

end RegoPolicy.Policy
