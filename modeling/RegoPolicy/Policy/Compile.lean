import RegoPolicy.Digest
import RegoPolicy.Policy.Source
import RegoPolicy.Rego.Module

/-!
From a document to a policy: all findings, or the Rego module with the identity of its text.
-/
namespace RegoPolicy.Policy

open Json

structure Compiled where
  id : String
  rego : String
  deriving DecidableEq

def Compiled.ofText (rego : String) : Compiled := ⟨Digest.identity rego, rego⟩

def Compiled.shape : Shape Compiled :=
  .record "CompiledPolicy"
    (required "id" .text (required "rego" .text .done))
    (fun (id, rego, ()) => ⟨id, rego⟩)
    (fun c => (c.id, c.rego, ()))

inductive CompileError where
  | document (error : DocumentError)
  | invalid (findings : List Finding)
  deriving DecidableEq

def CompileError.message : CompileError → String
  | .document error => "Invalid document: " ++ error.message
  | .invalid findings =>
    "Validation failed:\n" ++ String.intercalate "\n" (findings.map Finding.message)

def Draft.generate (d : Draft) : Except CompileError String :=
  if d.isValid then .ok (Rego.moduleText d) else .error (.invalid d.findings)

def Document.prepare (doc : Document) : Except CompileError Draft :=
  let d := (Draft.ofDocument doc).checkReferences
  if d.isValid then .ok d else .error (.invalid d.findings)

def Document.validate (doc : Document) : Except CompileError Unit := do
  let _ ← doc.prepare

def Document.compile (doc : Document) : Except CompileError Compiled := do
  let d ← doc.prepare
  return .ofText (← d.generate)

def compileText (s : String) : Except CompileError Compiled := do
  let doc ← (fromText Document.shape s).mapError .document
  doc.compile

end RegoPolicy.Policy
