import FieldGuard.Binary64.Basic

set_option autoImplicit false

namespace FieldGuard.Binary64

structure Decimal where
  digits : Nat
  exponent : Int
  deriving DecidableEq

/-- The reals that round to a number, in quarters of its last place. -/
structure Basin where
  low : Nat
  middle : Nat
  high : Nat
  closed : Bool
  unit : Int

def basin (x : Binary64) : Basin :=
  { low := if x.significand = 1 <<< 52 ∧ leastExponent < x.exponent
      then 4 * x.significand - 1 else 4 * x.significand - 2
    middle := 4 * x.significand
    high := 4 * x.significand + 2
    closed := x.significand % 2 = 0
    unit := x.exponent - 2 }

namespace Basin

def onGrid (b : Basin) (place : Int) (quarters : Nat) : Nat :=
  quarters <<< b.unit.toNat * Nat.pow 10 (-place).toNat

def gridUnit (b : Basin) (place : Int) : Nat :=
  1 <<< (-b.unit).toNat * Nat.pow 10 place.toNat

def contains (b : Basin) (place : Int) (digits : Nat) : Bool :=
  let point := digits * b.gridUnit place
  let low := b.onGrid place b.low
  let high := b.onGrid place b.high
  if b.closed then low ≤ point && point ≤ high else low < point && point < high

def nearest (b : Basin) (place : Int) : Option Nat :=
  let middle := b.onGrid place b.middle
  let unit := b.gridUnit place
  let below := middle / unit
  match b.contains place below, b.contains place (below + 1) with
  | true, true => some (divideEven middle unit)
  | true, false => some below
  | false, true => some (below + 1)
  | false, false => none

def search (b : Basin) (place : Int) : Nat → Decimal
  | 0 => ⟨b.onGrid place b.middle / b.gridUnit place, place⟩
  | count + 1 =>
      match b.nearest place with
      | some digits => ⟨digits, place⟩
      | none => b.search (place - 1) count

end Basin

/-- A power of ten above the number; 30103 / 100000 is just over the decimal logarithm of two. -/
def coarsestPlace (x : Binary64) : Int :=
  ((x.significand.log2 : Int) + x.exponent + 1) * 30103 / 100000 + 2

def shortest (x : Binary64) : Decimal := x.basin.search x.coarsestPlace 24

def zeros (count : Nat) : List Char := List.replicate count '0'

def exponentText (exponent : Int) : List Char :=
  (if exponent < 0 then ['e', '-'] else ['e', '+']) ++ Nat.toDigits 10 exponent.natAbs

def Decimal.text (d : Decimal) : List Char :=
  let digits := Nat.toDigits 10 d.digits
  let magnitude := d.exponent + digits.length - 1
  if -5 ≤ magnitude ∧ magnitude < 16 then
    if 0 ≤ d.exponent then digits ++ zeros d.exponent.toNat ++ ['.', '0']
    else if 0 ≤ magnitude then
      digits.take (magnitude.toNat + 1) ++ '.' :: digits.drop (magnitude.toNat + 1)
    else '0' :: '.' :: zeros (-magnitude - 1).toNat ++ digits
  else
    let fraction := digits.drop 1
    digits.take 1 ++ (if fraction.isEmpty then [] else '.' :: fraction) ++ exponentText magnitude

def text (x : Binary64) : List Char :=
  (if x.negative then ['-'] else []) ++
    if x.significand = 0 then ['0', '.', '0'] else x.shortest.text

end FieldGuard.Binary64
