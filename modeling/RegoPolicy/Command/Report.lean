import RegoPolicy.Command.Arguments
import RegoPolicy.Command.Files
import RegoPolicy.Policy.Compile

/-!
A run of the command: from the bytes of its input to what it prints and the code it ends with.
-/
namespace RegoPolicy.Command

open Policy Json

inductive RunError where
  | unreadable (input : String) (failure : ReadFailure)
  | compile (error : CompileError)
  deriving DecidableEq

def RunError.message : RunError → String
  | .unreadable input failure =>
    "Failed to read " ++ (if input = standardInput then "stdin" else input) ++ ": " ++ failure.text
  | .compile error => error.message

def RunError.messages : RunError → List String
  | .compile (.invalid findings) => findings.map Finding.message
  | error => [error.message]

def RunError.exitCode : RunError → Nat
  | .compile (.invalid _) => 2
  | _ => 1

def policyText (c : Compiled) (format : Format) (idOnly : Bool) : String :=
  if idOnly then c.id ++ "\n"
  else match format with
    | .text => c.rego
    | .json => (Compiled.shape.write c).compact ++ "\n"

def errorText (error : RunError) (format : Format) : String :=
  match format with
  | .text => String.join (error.messages.map (· ++ "\n"))
  | .json =>
    (Value.object [("errors", .array (error.messages.map .string))]).compact ++ "\n"

def run (s : Settings) (source : Except ReadFailure (List UInt8)) : Except RunError String := do
  let text ←
    match source with
    | .error failure => .error (.unreadable s.input failure)
    | .ok bytes =>
      match Text.toString? (Text.decode bytes) with
      | none => .error (.unreadable s.input .notUtf8)
      | some text => .ok text
  let compiled ← (compileText text).mapError .compile
  return policyText compiled s.format s.idOnly

structure Outcome where
  exitCode : Nat
  stdout : String
  stderr : String
  deriving DecidableEq

/-- Reports in JSON go where a policy would go, reports in text apart from it. The lines of the log,
    which go to the stream of errors as well, are left out: a warning on every document that is
    refused, and whatever else the level of the log lets through. -/
def outcome (s : Settings) (source : Except ReadFailure (List UInt8)) : Outcome :=
  match run s source with
  | .ok text => ⟨0, text, ""⟩
  | .error error =>
    let text := errorText error s.format
    match s.format with
    | .text => ⟨error.exitCode, "", text⟩
    | .json => ⟨error.exitCode, text, ""⟩

end RegoPolicy.Command
