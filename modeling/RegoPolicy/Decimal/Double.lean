/-!
Finite doubles without their sign, with products and quotients rounded once: the exact rational is
formed and the nearest double taken, a tie going to the even mantissa.
-/
namespace RegoPolicy.Decimal

/-- The number `mantissa · 2 ^ exponent`. Rounding gives mantissas below `2 ^ 53` and exponents
    from `-1074` to `971`, and a mantissa below `2 ^ 52` only with the least exponent. -/
structure Double where
  mantissa : Nat
  exponent : Int
  deriving DecidableEq

namespace Double

def leastExponent : Int := -1074
def greatestExponent : Int := 971

def zero : Double := ⟨0, leastExponent⟩

/-- The nearest integer to `num / den`, a tie going to the even one. -/
def nearest (num den : Nat) : Nat :=
  let low := num / den
  let twice := 2 * (num % den)
  if twice < den then low
  else if den < twice then low + 1
  else if low % 2 = 0 then low else low + 1

def ratio (base : Nat) (e : Int) : Nat × Nat :=
  (base.pow e.toNat, base.pow (-e).toNat)

/-- The exponent at which `num / den` has 53 bits, or the least one. -/
def scaleExponent (num den : Nat) : Int :=
  let guess : Int := (num.log2 : Int) - den.log2 - 52
  let p := ratio 2 guess
  let fitted := if num * p.2 < Nat.pow 2 52 * (den * p.1) then guess - 1 else guess
  max fitted leastExponent

def ofRatio? (num den : Nat) : Option Double :=
  if num = 0 then some zero
  else
    let e := scaleExponent num den
    let p := ratio 2 e
    let m := nearest (num * p.2) (den * p.1)
    let d : Double := if m = Nat.pow 2 53 then ⟨Nat.pow 2 52, e + 1⟩ else ⟨m, e⟩
    if greatestExponent < d.exponent then none else some d

def ofNat? (n : Nat) : Option Double := ofRatio? n 1

def mul? (a b : Double) : Option Double :=
  let p := ratio 2 (a.exponent + b.exponent)
  ofRatio? (a.mantissa * b.mantissa * p.1) p.2

def div? (a b : Double) : Option Double :=
  let p := ratio 2 (a.exponent - b.exponent)
  ofRatio? (a.mantissa * p.1) (b.mantissa * p.2)

def greatestPower : Nat := 308

def divideDown : Nat → Double → Option Double
  | 0, d => some d
  | n + 1, d =>
    if d.mantissa = 0 then some d
    else do
      let power ← ofNat? (Nat.pow 10 greatestPower)
      let less ← d.div? power
      divideDown n less

/-- The double for `significand · 10 ^ e`, by one rounded product or by rounded quotients, or none
    if that is beyond the largest. -/
def scale? (significand : Nat) (e : Int) : Option Double := do
  let d ← ofNat? significand
  if 0 ≤ e then
    if e.toNat ≤ greatestPower then
      let power ← ofNat? (Nat.pow 10 e.toNat)
      d.mul? power
    else if d.mantissa = 0 then some d else none
  else
    let steps := ((-e).toNat - 1) / greatestPower
    let less ← divideDown steps d
    let power ← ofNat? (Nat.pow 10 ((-e).toNat - steps * greatestPower))
    less.div? power

end Double
end RegoPolicy.Decimal
