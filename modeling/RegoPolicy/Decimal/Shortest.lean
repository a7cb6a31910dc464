import RegoPolicy.Decimal.Double

/-!
The shortest decimal that reads back as a given double, the nearest of those, an even last digit
on a tie; and how it is written.
-/
namespace RegoPolicy.Decimal

structure Scientific where
  coefficient : Nat
  exponent : Int
  deriving DecidableEq

def decimalExponent (num den : Nat) : Int :=
  if den ≤ num then ((Nat.toDigits 10 (num / den)).length : Int) - 1
  else
    let places := (Nat.toDigits 10 (den / num)).length
    if den = num * Nat.pow 10 (places - 1) then 1 - (places : Int) else -(places : Int)

/-- Quarter units around a double: its value and the ends of the interval that rounds to it. -/
structure Interval where
  low : Nat
  value : Nat
  high : Nat
  closed : Bool

def Double.interval (d : Double) : Interval :=
  let value := 4 * d.mantissa
  let narrow := d.mantissa = Nat.pow 2 52 ∧ Double.leastExponent < d.exponent
  ⟨if narrow then value - 1 else value - 2, value, value + 2, d.mantissa % 2 = 0⟩

/-- Whether `candidate` grid steps lie in the interval, where a quarter unit is `unit` and a grid
    step is `step`. -/
def Interval.holds (i : Interval) (unit step candidate : Nat) : Bool :=
  let x := candidate * step
  if i.closed then i.low * unit ≤ x && x ≤ i.high * unit
  else i.low * unit < x && x < i.high * unit

def Interval.hit? (i : Interval) (unit step : Nat) : Option Nat :=
  let value := i.value * unit
  let below := value / step
  let above := below + 1
  let fall := value - below * step
  let rise := above * step - value
  match i.holds unit step below, i.holds unit step above with
  | false, false => none
  | true, false => some below
  | false, true => some above
  | true, true =>
    if fall < rise then some below
    else if rise < fall then some above
    else if below % 2 = 0 then some below else some above

def shortestFrom (d : Double) (leading : Int) : Nat → Nat → Scientific
  | 0, _ => ⟨d.mantissa, 0⟩
  | tries + 1, digits =>
    let grid := leading - digits + 1
    let two := Double.ratio 2 (d.exponent - 2)
    let ten := Double.ratio 10 grid
    match d.interval.hit? (two.1 * ten.2) (ten.1 * two.2) with
    | some c => ⟨c, grid⟩
    | none => shortestFrom d leading tries (digits + 1)

def dropZeros : Nat → Scientific → Scientific
  | 0, s => s
  | n + 1, s =>
    if s.coefficient ≠ 0 ∧ s.coefficient % 10 = 0 then
      dropZeros n ⟨s.coefficient / 10, s.exponent + 1⟩
    else s

def shortest (d : Double) : Scientific :=
  let p := Double.ratio 2 d.exponent
  let leading := decimalExponent (d.mantissa * p.1) p.2
  dropZeros 18 (shortestFrom d leading 17 1)

structure Layout where
  leastPlain : Int
  greatestPlain : Int

def zeros (n : Nat) : List Char := List.replicate n '0'

/-- A fraction always follows the point, and an exponent always has its sign. -/
def Layout.write (n : Layout) (s : Scientific) : List Char :=
  let ds := Nat.toDigits 10 s.coefficient
  let place := s.exponent + ds.length - 1
  if n.leastPlain ≤ place ∧ place ≤ n.greatestPlain then
    if place < 0 then ['0', '.'] ++ zeros ((-place).toNat - 1) ++ ds
    else
      let whole := place.toNat + 1
      if ds.length ≤ whole then ds ++ zeros (whole - ds.length) ++ ['.', '0']
      else ds.take whole ++ ['.'] ++ ds.drop whole
  else
    let fraction := if ds.length = 1 then [] else '.' :: ds.drop 1
    let sign := if place < 0 then '-' else '+'
    ds.take 1 ++ fraction ++ ['e', sign] ++ Nat.toDigits 10 place.natAbs

end RegoPolicy.Decimal
