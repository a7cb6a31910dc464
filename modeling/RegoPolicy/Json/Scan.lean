import RegoPolicy.Json.Numeral

/-!
Finds the end of a JSON value without keeping it. There is no limit on how deep the value may nest,
so the open brackets stand on a list.
-/
namespace RegoPolicy.Json

open Text

inductive Bracket where
  | list
  | object
  deriving DecidableEq

def Bracket.atEnd : Bracket → Cause
  | .list => .endInList
  | .object => .endInObject

def Bracket.notClosed : Bracket → Cause
  | .list => .expectedListEnd
  | .object => .expectedObjectEnd

def Bracket.closing : Bracket → Symbol
  | .list => .char ']'
  | .object => .char '}'

def scanKey (input : List Symbol) : Except Fault (List Symbol) :=
  match skipSpace input with
  | [] => .error (.here .endInObject [])
  | .char '"' :: rest => do
    let rest ← scanString rest
    match skipSpace rest with
    | [] => .error (.here .endInObject [])
    | .char ':' :: rest => .ok rest
    | rest => .error (.next .expectedColon rest)
  | rest => .error (.next .keyNotString rest)

def Bracket.scanToValue : Bracket → List Symbol → Except Fault (List Symbol)
  | .list, input => .ok input
  | .object, input => scanKey input

def scanScalar (s : Symbol) (rest : List Symbol) : Except Fault (List Symbol) :=
  match s with
  | .char 'n' => expectWord ['u', 'l', 'l'] rest
  | .char 't' => expectWord ['r', 'u', 'e'] rest
  | .char 'f' => expectWord ['a', 'l', 's', 'e'] rest
  | .char '"' => scanString rest
  | .char '-' => scanNumber rest
  | s => if (digit? s).isSome then scanNumber (s :: rest) else .error (.next .expectedValue (s :: rest))

def opens? : Symbol → Option Bracket
  | .char '[' => some .list
  | .char '{' => some .object
  | _ => none

inductive Stage where
  | before
  | after
  deriving DecidableEq

/-- Each step takes at least one symbol, so the input bounds how many steps there are. -/
def scanWithin : List Symbol → Stage → List Bracket → List Symbol → Except Fault (List Symbol)
  | _, .after, [], input => .ok input
  | [], .before, _, input => .error (.here .endInValue input)
  | [], .after, b :: _, input => .error (.here b.atEnd input)
  | _ :: bound, .before, outer, input =>
    match skipSpace input with
    | [] => .error (.here .endInValue [])
    | s :: rest =>
      match opens? s with
      | none => do
        let rest ← scanScalar s rest
        scanWithin bound .after outer rest
      | some b =>
        match skipSpace rest with
        | [] => .error (.here b.atEnd [])
        | t :: inner =>
          if t = b.closing then scanWithin bound .after outer inner
          else do
            let rest ← b.scanToValue (t :: inner)
            scanWithin bound .before (b :: outer) rest
  | _ :: bound, .after, b :: outer, input =>
    match skipSpace input with
    | [] => .error (.here b.atEnd [])
    | s :: rest =>
      if s = b.closing then scanWithin bound .after outer rest
      else if s = .char ',' then do
        let rest ← b.scanToValue rest
        scanWithin bound .before (b :: outer) rest
      else .error (.next b.notClosed (s :: rest))

def scanValue (input : List Symbol) : Except Fault (List Symbol) :=
  scanWithin input .before [] input

def expectEnd (input : List Symbol) : Except Fault Unit :=
  match skipSpace input with
  | [] => .ok ()
  | rest => .error (.next .trailingCharacters rest)

def isLiteral (s : String) : Bool :=
  match scanValue (ofString s) with
  | .error _ => false
  | .ok rest => (expectEnd rest).isOk

end RegoPolicy.Json
