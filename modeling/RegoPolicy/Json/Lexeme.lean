import RegoPolicy.Json.Fault

/-!
The lexemes of a JSON text other than numbers: space, the three words, and strings. Reading takes
the input from the front and gives back what is left of it.

A string is either read, which yields its text, or scanned, which only finds its end. Scanning
checks the form of escapes and leaves open what they stand for.
-/
namespace RegoPolicy.Json

open Text

abbrev Reader (α : Type) := List Symbol → Except Fault (α × List Symbol)

def isSpace (s : Symbol) : Bool :=
  s = .char ' ' || s = .char '\n' || s = .char '\t' || s = .char '\r'

def skipSpace (input : List Symbol) : List Symbol := input.dropWhile isSpace

def expectWord : List Char → List Symbol → Except Fault (List Symbol)
  | [], input => .ok input
  | _ :: _, [] => .error (.here .endInValue [])
  | c :: word, s :: rest =>
    if s = .char c then expectWord word rest else .error (.next .expectedWord (s :: rest))

def digit? : Symbol → Option Nat
  | .char c => if '0' ≤ c ∧ c ≤ '9' then some (c.toNat - '0'.toNat) else none
  | .stray _ => none

def hexDigit? : Symbol → Option Nat
  | .char c =>
    if '0' ≤ c ∧ c ≤ '9' then some (c.toNat - '0'.toNat)
    else if 'a' ≤ c ∧ c ≤ 'f' then some (c.toNat - 'a'.toNat + 10)
    else if 'A' ≤ c ∧ c ≤ 'F' then some (c.toNat - 'A'.toNat + 10)
    else none
  | .stray _ => none

def hexNumber? : List Symbol → Option Nat
  | a :: b :: c :: d :: _ => do
    let a ← hexDigit? a
    let b ← hexDigit? b
    let c ← hexDigit? c
    let d ← hexDigit? d
    some (((a * 16 + b) * 16 + c) * 16 + d)
  | _ => none

def hexEscape (input : List Symbol) : Except Fault Nat :=
  match hexNumber? input with
  | some n => .ok n
  | none =>
    if width input < 4 then .error (.here .endInString [])
    else .error ⟨.invalidEscape, width input - 4, false⟩

def isHighSurrogate (n : Nat) : Bool := 0xD800 ≤ n && n < 0xDC00
def isLowSurrogate (n : Nat) : Bool := 0xDC00 ≤ n && n < 0xE000

def lowSurrogate (input : List Symbol) : Except Fault Nat :=
  match input with
  | [] => .error (.here .endInString [])
  | s :: rest =>
    if s ≠ .char '\\' then .error (.next .brokenSurrogate (s :: rest))
    else match rest with
      | [] => .error (.here .endInString [])
      | t :: rest =>
        if t ≠ .char 'u' then .error (.next .brokenSurrogate (t :: rest))
        else match hexEscape rest with
          | .error f => .error f
          | .ok n =>
            if isLowSurrogate n then .ok n
            else .error (.here .loneSurrogate (rest.drop 4))

def simpleEscape? (c : Char) : Option Char :=
  if c = '"' then some '"'
  else if c = '\\' then some '\\'
  else if c = '/' then some '/'
  else if c = 'b' then some '\x08'
  else if c = 'f' then some '\x0c'
  else if c = 'n' then some '\n'
  else if c = 'r' then some '\r'
  else if c = 't' then some '\t'
  else none

def readEscape (input : List Symbol) : Except Fault (Char × Nat) :=
  match input with
  | [] => .error (.here .endInString [])
  | .char 'u' :: rest => do
    let n ← hexEscape rest
    if isLowSurrogate n then .error (.here .loneSurrogate (rest.drop 4))
    else if isHighSurrogate n then
      let m ← lowSurrogate (rest.drop 4)
      return (Char.ofNat (0x10000 + (n - 0xD800) * 0x400 + (m - 0xDC00)), 11)
    else return (Char.ofNat n, 5)
  | .stray b :: rest => .error (.next .invalidEscape (.stray b :: rest))
  | .char c :: rest =>
    match simpleEscape? c with
    | some d => .ok (d, 1)
    | none => .error (.next .invalidEscape (.char c :: rest))

def scanEscape (input : List Symbol) : Except Fault Nat :=
  match input with
  | [] => .error (.here .endInString [])
  | .char 'u' :: rest => do
    let _ ← hexEscape rest
    return 5
  | .stray b :: rest => .error (.next .invalidEscape (.stray b :: rest))
  | .char c :: rest =>
    match simpleEscape? c with
    | some _ => .ok 1
    | none => .error (.next .invalidEscape (.char c :: rest))

def isControl : Symbol → Bool
  | .char c => c.toNat < 0x20
  | .stray _ => false

/-- Reads the symbols of a string up to its closing quote. Those already read stand in reverse,
    and the first `skip` symbols belong to the escape read last. -/
def readSymbols : List Symbol → Nat → List Symbol → Except Fault (List Symbol × List Symbol)
  | _, _, [] => .error (.here .endInString [])
  | found, skip + 1, _ :: rest => readSymbols found skip rest
  | found, 0, s :: rest =>
    if s = .char '"' then .ok (found.reverse, rest)
    else if s = .char '\\' then
      match readEscape rest with
      | .error f => .error f
      | .ok (c, n) => readSymbols (.char c :: found) n rest
    else if isControl s then .error (.next .controlCharacter (s :: rest))
    else readSymbols (s :: found) 0 rest

def readString : Reader String := fun input => do
  let (found, rest) ← readSymbols [] 0 input
  match toString? found with
  | some s => .ok (s, rest)
  | none =>
    let broken := found.dropWhile fun s => s.char?.isSome
    .error ⟨.invalidCodePoint, width rest + width broken, false⟩

/-- Finds the end of a string whose opening quote has been taken. A control character is looked at
    and not taken. -/
def scanSymbols : Nat → List Symbol → Except Fault (List Symbol)
  | _, [] => .error (.here .endInString [])
  | skip + 1, _ :: rest => scanSymbols skip rest
  | 0, s :: rest =>
    if s = .char '"' then .ok rest
    else if s = .char '\\' then
      match scanEscape rest with
      | .error f => .error f
      | .ok n => scanSymbols n rest
    else if isControl s then .error (.looking .controlCharacter (s :: rest))
    else scanSymbols 0 rest

def scanString (input : List Symbol) : Except Fault (List Symbol) := scanSymbols 0 input

end RegoPolicy.Json
