import RegoPolicy.Json.Lexeme

/-!
Numbers in a JSON text. A number is either read, which yields its value and may exceed the range
of doubles, or scanned, which only checks its form.
-/
namespace RegoPolicy.Json

open Text Decimal

def startsWithDigit : List Symbol → Bool
  | [] => false
  | s :: _ => (digit? s).isSome

def skipDigits (input : List Symbol) : List Symbol :=
  input.dropWhile fun s => (digit? s).isSome

def countDigits (input : List Symbol) : Nat :=
  (input.takeWhile fun s => (digit? s).isSome).length

def startsExponent : List Symbol → Bool
  | [] => false
  | s :: _ => s = .char 'e' || s = .char 'E'

structure Gathered where
  value : Nat
  count : Nat
  rest : List Symbol

def gather (limit value count : Nat) : List Symbol → Gathered
  | [] => ⟨value, count, []⟩
  | s :: rest =>
    match digit? s with
    | some d =>
      if value * 10 + d < limit then gather limit (value * 10 + d) (count + 1) rest
      else ⟨value, count, s :: rest⟩
    | none => ⟨value, count, s :: rest⟩

/-- Significands are words of 64 bits, exponents are signed words of 32. -/
def significandLimit : Nat := Nat.pow 2 64
def exponentLimit : Nat := Nat.pow 2 31

def finishReal (negative : Bool) (significand : Nat) (e : Int) : Reader Number := fun rest =>
  match Double.scale? significand e with
  | some d => .ok (.real negative d, rest)
  | none => .error (.looking .numberOutOfRange rest)

def readExponent (negative : Bool) (significand : Nat) (e : Int) : Reader Number := fun input =>
  let (shrinks, digits) :=
    match input with
    | .char '+' :: rest => (false, rest)
    | .char '-' :: rest => (true, rest)
    | rest => (false, rest)
  match digits with
  | [] => .error (.here .endInValue [])
  | s :: rest =>
    match digit? s with
    | none => .error (.next .invalidNumber (s :: rest))
    | some d =>
      let g := gather exponentLimit d 0 rest
      if startsWithDigit g.rest then
        if significand ≠ 0 ∧ ¬ shrinks then .error (.next .numberOutOfRange g.rest)
        else .ok (.real negative .zero, skipDigits g.rest)
      else finishReal negative significand (if shrinks then e - g.value else e + g.value) g.rest

def readScale (negative : Bool) (significand : Nat) (e : Int) : Reader Number := fun input =>
  if startsExponent input then readExponent negative significand e (input.drop 1)
  else finishReal negative significand e input

/-- Reads a fraction whose point has been taken. Digits that the significand cannot hold are
    passed over. -/
def readFraction (negative : Bool) (significand : Nat) (e : Int) : Reader Number := fun input =>
  let g := gather significandLimit significand 0 input
  if g.count = 0 ∧ ¬ startsWithDigit g.rest then
    if g.rest.isEmpty then .error (.here .endInValue []) else .error (.next .invalidNumber g.rest)
  else readScale negative g.value (e - g.count) (skipDigits g.rest)

/-- The number that the digits alone make: minus zero and what a signed word cannot hold are
    doubles. -/
def finishInteger (negative : Bool) (significand : Nat) : Reader Number := fun rest =>
  if ¬ negative then .ok (.integer significand, rest)
  else if significand = 0 ∨ Nat.pow 2 63 < significand then finishReal negative significand 0 rest
  else .ok (.integer (-(significand : Int)), rest)

/-- Reads on after the whole digits, of which `dropped` did not fit the significand. -/
def readTail (negative : Bool) (significand dropped : Nat) : Reader Number := fun input =>
  match input with
  | .char '.' :: rest => readFraction negative significand dropped rest
  | input =>
    if startsExponent input then readExponent negative significand dropped (input.drop 1)
    else if dropped = 0 then finishInteger negative significand input
    else finishReal negative significand dropped input

def readNumber (negative : Bool) : Reader Number := fun input =>
  match input with
  | [] => .error (.here .endInValue [])
  | s :: rest =>
    match digit? s with
    | none => .error (.next .invalidNumber (s :: rest))
    | some 0 =>
      if startsWithDigit rest then .error (.next .invalidNumber rest)
      else readTail negative 0 0 rest
    | some d =>
      let g := gather significandLimit d 0 rest
      readTail negative g.value (countDigits g.rest) (skipDigits g.rest)

def scanExponent (input : List Symbol) : Except Fault (List Symbol) :=
  let digits :=
    match input with
    | .char '+' :: rest => rest
    | .char '-' :: rest => rest
    | rest => rest
  if startsWithDigit digits then .ok (skipDigits digits)
  else .error (.next .invalidNumber digits)

def scanTail (input : List Symbol) : Except Fault (List Symbol) :=
  match input with
  | .char '.' :: rest =>
    if startsWithDigit rest then
      let after := skipDigits rest
      if startsExponent after then scanExponent (after.drop 1) else .ok after
    else .error (.next .invalidNumber rest)
  | input => if startsExponent input then scanExponent (input.drop 1) else .ok input

def scanNumber (input : List Symbol) : Except Fault (List Symbol) :=
  match input with
  | [] => .error (.next .invalidNumber [])
  | s :: rest =>
    match digit? s with
    | none => .error (.next .invalidNumber (s :: rest))
    | some 0 =>
      if startsWithDigit rest then .error (.next .invalidNumber rest) else scanTail rest
    | some _ => scanTail (skipDigits rest)

end RegoPolicy.Json
