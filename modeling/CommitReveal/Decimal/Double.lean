/-! Non-negative numbers of double precision: a mantissa below `2 ^ 53` times a power of two that is
not below `2 ^ -1074`. Every quotient of natural numbers has a nearest one. -/
namespace CommitReveal

structure Double where
  mantissa : Nat
  exponent : Int
deriving DecidableEq, Repr

namespace Double

def zero : Double := ⟨0, 0⟩

/-- The nearest whole number to a quotient; a tie goes to the even neighbour. -/
def roundDiv (num den : Nat) : Nat :=
  let quotient := num / den
  let twice := 2 * (num % den)
  if twice < den then quotient
  else if twice = den then quotient + quotient % 2
  else quotient + 1

/-- A power, as a factor for the numerator and one for the denominator. -/
def scale (base : Nat) (exponent : Int) : Nat × Nat :=
  (Nat.pow base exponent.toNat, Nat.pow base (-exponent).toNat)

/-- The largest exponent, and the smallest. -/
def largest : Int := 971

def smallest : Int := -1074

/-- The least mantissa that takes all 53 bits. -/
def leastFull : Nat := 0x10000000000000

/-- The quotient in units of a power of two, rounded; one power higher if that takes 54 bits. -/
def roundAt (num den : Nat) (exponent : Int) : Double :=
  let (up, down) := scale 2 exponent
  let m := roundDiv (num * down) (den * up)
  if m = 2 * leastFull then ⟨leastFull, exponent + 1⟩ else ⟨m, exponent⟩

/-- The exponent at which the whole part of a quotient has 53 bits, or the smallest one. -/
def unitOf (num den : Nat) : Int :=
  let guess : Int := (num.log2 : Int) - den.log2 - 52
  let (up, down) := scale 2 guess
  let exact := if num * down / (den * up) < leastFull then guess - 1 else guess
  max exact smallest

/-- The double nearest to a quotient with a positive denominator; none if it is too large. -/
def nearest (num den : Nat) : Option Double :=
  if num = 0 then some zero
  else
    let x := roundAt num den (unitOf num den)
    if x.mantissa = 0 then some zero
    else if largest < x.exponent then none
    else some x

/-- Numerator and denominator. -/
def ratio (x : Double) : Nat × Nat :=
  let (up, down) := scale 2 x.exponent
  (x.mantissa * up, down)

def ofNat (n : Nat) : Option Double :=
  nearest n 1

def mul (x y : Double) : Option Double :=
  nearest (x.ratio.1 * y.ratio.1) (x.ratio.2 * y.ratio.2)

def div (x y : Double) : Option Double :=
  nearest (x.ratio.1 * y.ratio.2) (x.ratio.2 * y.ratio.1)

end Double

end CommitReveal
