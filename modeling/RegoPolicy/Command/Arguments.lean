/-!
The command line: one input, a format, and a switch. What the arguments leave open comes from the
environment, and then from the defaults.

An option that stands apart from its value waits for it, and is settled by what follows.
-/
namespace RegoPolicy.Command

inductive Format where
  | text
  | json
  deriving DecidableEq

def Format.ofName? (s : String) : Option Format :=
  if s = "text" then some .text else if s = "json" then some .json else none

inductive Refusal where
  | help
  | version
  | invalidValue
  | unknownArgument
  | argumentConflict
  | tooManyValues
  deriving DecidableEq

def Refusal.exitCode : Refusal → Nat
  | .help | .version => 0
  | _ => 2

/-- The format option, when it has been named and is not settled yet. -/
inductive Waiting where
  | nothing
  | value
  | settling (value : String)
  deriving DecidableEq

structure Progress where
  input : Option String
  format : Option Format
  idOnly : Bool
  waiting : Waiting
  deriving DecidableEq

def Progress.start : Progress := ⟨none, none, false, .nothing⟩

abbrev Step := Except Refusal Progress

def Progress.setFormat (p : Progress) (value : String) : Step :=
  if p.format.isSome then .error .argumentConflict
  else match Format.ofName? value with
    | some f => .ok { p with format := some f, waiting := .nothing }
    | none => .error .invalidValue

def Progress.settle (p : Progress) : Step :=
  match p.waiting with
  | .nothing => .ok p
  | .value => .error .invalidValue
  | .settling value => p.setFormat value

def Progress.attachFormat (p : Progress) (value : String) : Step := do
  let p ← p.settle
  p.setFormat value

def Progress.awaitFormat (p : Progress) : Step := do
  let p ← p.settle
  return { p with waiting := .value }

def Progress.switchIdOnly (p : Progress) : Step := do
  let p ← p.settle
  if p.idOnly then .error .argumentConflict else .ok { p with idOnly := true }

def Progress.stop (p : Progress) (why : Refusal) : Step := do
  let _ ← p.settle
  .error why

/-- A second input is one too many, whatever waits. -/
def Progress.takeInput (p : Progress) (value : String) : Step :=
  if p.input.isSome then .error .unknownArgument
  else do
    let p ← p.settle
    return { p with input := some value }

def splitEquals : List Char → List Char × Option (List Char)
  | [] => ([], none)
  | c :: rest =>
    if c = '=' then ([], some rest)
    else
      let (name, value) := splitEquals rest
      (c :: name, value)

def Progress.longOption (p : Progress) (option : List Char) : Step :=
  let (name, value) := splitEquals option
  match String.ofList name, value with
  | "format", some value => p.attachFormat (String.ofList value)
  | "format", none => p.awaitFormat
  | "id-only", none => p.switchIdOnly
  | "help", none => p.stop .help
  | "version", none => p.stop .version
  | "id-only", some _ | "help", some _ | "version", some _ => .error .tooManyValues
  | _, _ => .error .unknownArgument

def dropEquals : List Char → List Char
  | '=' :: rest => rest
  | cs => cs

/-- Options by their short names, after the hyphen. Each of them takes the rest or ends the run. -/
def Progress.shortOptions (p : Progress) : List Char → Step
  | 'f' :: [] => p.awaitFormat
  | 'f' :: rest => p.attachFormat (String.ofList (dropEquals rest))
  | 'h' :: _ => p.stop .help
  | 'V' :: _ => p.stop .version
  | _ => .error .unknownArgument

def Progress.inputs (p : Progress) : List String → Step
  | [] => .ok p
  | arg :: rest => do
    let p ← p.takeInput arg
    p.inputs rest

def Progress.plain (p : Progress) (arg : String) : Step :=
  if p.waiting = .value then .ok { p with waiting := .settling arg } else p.takeInput arg

def Progress.arguments (p : Progress) : List String → Step
  | [] => .ok p
  | arg :: rest =>
    match arg.toList with
    | ['-', '-'] => p.inputs rest
    | '-' :: '-' :: option => do
      let p ← p.longOption option
      p.arguments rest
    | ['-'] => do
      let p ← p.plain arg
      p.arguments rest
    | '-' :: options => do
      let p ← p.shortOptions options
      p.arguments rest
    | _ => do
      let p ← p.plain arg
      p.arguments rest

structure Environment where
  input : Option String
  format : Option String

structure Settings where
  input : String
  format : Format
  idOnly : Bool
  deriving DecidableEq

def standardInput : String := "-"

def Settings.readsStandardInput (s : Settings) : Bool := s.input = standardInput

def settings (args : List String) (env : Environment) : Except Refusal Settings := do
  let p ← Progress.start.arguments args
  let p ← p.settle
  let format ←
    match p.format, env.format with
    | some f, _ => .ok f
    | none, none => .ok .text
    | none, some value =>
      match Format.ofName? value with
      | some f => .ok f
      | none => .error .invalidValue
  return ⟨(p.input.or env.input).getD standardInput, format, p.idOnly⟩

end RegoPolicy.Command
