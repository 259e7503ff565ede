/-!
Finite binary floating-point numbers of 53 bits, kept as a sign, a significand and an exponent, and
rounded in exact natural-number arithmetic. `ofDecimal` reads a decimal: its significand is rounded
once and each scaling by a power of ten once more.
-/

set_option autoImplicit false

namespace FieldGuard

structure Binary64 where
  negative : Bool
  significand : Nat
  exponent : Int
  deriving DecidableEq

namespace Binary64

def leastExponent : Int := -1074

def greatestExponent : Int := 971

def zero (negative : Bool) : Binary64 := ⟨negative, 0, leastExponent⟩

/-- The quotient rounded to the nearest integer, a half to the even neighbour. -/
def divideEven (numerator denominator : Nat) : Nat :=
  let quotient := numerator / denominator
  let twice := numerator % denominator * 2
  if twice < denominator ∨ (twice = denominator ∧ quotient % 2 = 0) then quotient
  else quotient + 1

def inUnits (numerator denominator : Nat) (place : Int) : Nat × Nat :=
  (numerator <<< (-place).toNat, denominator <<< place.toNat)

def binaryMagnitude (numerator denominator : Nat) : Int :=
  let guess : Int := (numerator.log2 : Int) - (denominator.log2 : Int)
  let (above, below) := inUnits numerator denominator guess
  if below ≤ above then guess else guess - 1

/-- The number nearest to a ratio, or nothing past the greatest finite number. -/
def ofRatio (negative : Bool) (numerator denominator : Nat) : Option Binary64 :=
  if numerator = 0 then some (zero negative)
  else
    let place := max leastExponent (binaryMagnitude numerator denominator - 52)
    let (above, below) := inUnits numerator denominator place
    let rounded := divideEven above below
    let (significand, exponent) :=
      if rounded = 1 <<< 53 then (1 <<< 52, place + 1) else (rounded, place)
    if exponent ≤ greatestExponent then some ⟨negative, significand, exponent⟩ else none

def ofNat (negative : Bool) (value : Nat) : Option Binary64 := ofRatio negative value 1

def numerator (x : Binary64) : Nat := x.significand <<< x.exponent.toNat

def denominator (x : Binary64) : Nat := 1 <<< (-x.exponent).toNat

def multiply (x y : Binary64) : Option Binary64 :=
  ofRatio (x.negative != y.negative) (x.numerator * y.numerator) (x.denominator * y.denominator)

def divide (x y : Binary64) : Option Binary64 :=
  ofRatio (x.negative != y.negative) (x.numerator * y.denominator) (x.denominator * y.numerator)

def greatestPower : Nat := 308

def powerOfTen (exponent : Nat) : Option Binary64 := ofNat false (Nat.pow 10 exponent)

def shrink (x : Binary64) (count : Nat) : Option Binary64 :=
  if x.significand = 0 then some x
  else if greatestPower < count then do
    let smaller ← x.divide (← powerOfTen greatestPower)
    shrink smaller (count - greatestPower)
  else do x.divide (← powerOfTen count)
termination_by count
decreasing_by simp only [greatestPower] at *; omega

def ofDecimal (negative : Bool) (significand : Nat) (exponent : Int) : Option Binary64 := do
  let x ← ofNat negative significand
  if x.significand = 0 then some x
  else if exponent < 0 then x.shrink (-exponent).toNat
  else if exponent ≤ greatestPower then x.multiply (← powerOfTen exponent.toNat)
  else none

def sameValue (x y : Binary64) : Bool :=
  x.significand == y.significand &&
    (x.significand == 0 || (x.negative == y.negative && x.exponent == y.exponent))

end Binary64

end FieldGuard
