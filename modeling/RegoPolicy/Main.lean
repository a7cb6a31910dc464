import RegoPolicy.Command.Report

/-!
The command itself: reads the environment and the input, and prints the outcome.
-/
namespace RegoPolicy.Command

def usage : String :=
  "Compile a declarative policy document into Rego\n\n" ++
    "Usage: rego-doc [OPTIONS] [INPUT]\n\n" ++
    "Arguments:\n" ++
    "  [INPUT]  Path to the JSON policy document, or `-` for stdin [env: REGO_DOC_INPUT]\n\n" ++
    "Options:\n" ++
    "  -f, --format <FORMAT>  Output format: text or json [env: REGO_DOC_FORMAT]\n" ++
    "      --id-only          Print only the content identifier\n" ++
    "  -h, --help             Print help\n" ++
    "  -V, --version          Print version\n"

def Refusal.text : Refusal → String
  | .help => usage
  | .version => "rego-doc 0.1.0\n"
  | .invalidValue => "error: invalid value for '--format <FORMAT>'\n\n" ++ usage
  | .unknownArgument => "error: unexpected argument found\n\n" ++ usage
  | .argumentConflict => "error: an argument cannot be used multiple times\n\n" ++ usage
  | .tooManyValues => "error: unexpected value for an argument\n\n" ++ usage

/-- Opening fails with the name of the file, reading what is open fails without it. -/
def readFailure : IO.Error → ReadFailure
  | .inappropriateType (some _) _ _ => .notDirectory
  | .inappropriateType none _ _ => .isDirectory
  | .permissionDenied _ _ _ => .denied
  | .invalidArgument _ 22 _ => .nulInName
  | .invalidArgument _ _ "name too long" => .nameTooLong
  | .noFileOrDirectory _ _ _ => .notFound
  | error => .other error.toString

def readInput (s : Settings) : IO (Except ReadFailure (List UInt8)) := do
  try
    let bytes ←
      if s.readsStandardInput then (← IO.getStdin).readBinToEnd else IO.FS.readBinFile s.input
    return .ok bytes.toList
  catch error => return .error (readFailure error)

end RegoPolicy.Command

open RegoPolicy.Command in
def main (args : List String) : IO UInt32 := do
  let env : Environment := ⟨← IO.getEnv "REGO_DOC_INPUT", ← IO.getEnv "REGO_DOC_FORMAT"⟩
  match settings args env with
  | .error refusal =>
    if refusal.exitCode = 0 then IO.print refusal.text else IO.eprint refusal.text
    return refusal.exitCode.toUInt32
  | .ok s =>
    let result := outcome s (← readInput s)
    IO.print result.stdout
    IO.eprint result.stderr
    return result.exitCode.toUInt32
