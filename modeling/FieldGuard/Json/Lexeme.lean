import FieldGuard.Json.Problem

set_option autoImplicit false

namespace FieldGuard.Json

abbrev Reader (α : Type) := List Char → Except Problem (α × List Char)

def isSpace (c : Char) : Bool := c == ' ' || c == '\t' || c == '\n' || c == '\r'

def afterSpace (text : List Char) : List Char := text.dropWhile isSpace

def word : List Char → List Char → Except Problem (List Char)
  | [], text => .ok text
  | _ :: _, [] => .error .ended
  | c :: rest, d :: text => if c = d then word rest text else .error .malformed

def unexpected : List Char → Problem
  | [] => .ended
  | _ :: _ => .malformed

def digitValue (c : Char) : Nat := c.toNat - '0'.toNat

/-- The digits that join a 64-bit significand until one would overflow it, and their number. -/
def absorb (significand : Nat) : List Char → Nat × Nat
  | [] => (significand, 0)
  | c :: rest =>
      let next := significand * 10 + digitValue c
      if next < 1 <<< 64 then
        let (whole, count) := absorb next rest
        (whole, count + 1)
      else (significand, 0)

def decimalValue (digits : List Char) : Nat :=
  digits.foldl (fun value c => value * 10 + digitValue c) 0

def digits (text : List Char) : Except Problem (List Char × List Char) :=
  match text.takeWhile Char.isDigit with
  | [] => .error (unexpected text)
  | found => .ok (found, text.dropWhile Char.isDigit)

def wholePart : List Char → Except Problem (List Char × List Char)
  | '0' :: rest =>
      match rest with
      | c :: _ => if c.isDigit then .error .malformed else .ok (['0'], rest)
      | [] => .ok (['0'], [])
  | text => digits text

def fractionPart : List Char → Except Problem (Option (List Char) × List Char)
  | '.' :: rest => do
      let (found, rest) ← digits rest
      return (some found, rest)
  | text => .ok (none, text)

def exponentDigits (negative : Bool) (text : List Char) :
    Except Problem (Option Int × List Char) := do
  let (found, rest) ← digits text
  let value : Int := decimalValue found
  return (some (if negative then -value else value), rest)

def exponentPart : List Char → Except Problem (Option Int × List Char)
  | 'e' :: rest | 'E' :: rest =>
      match rest with
      | '+' :: rest => exponentDigits false rest
      | '-' :: rest => exponentDigits true rest
      | rest => exponentDigits false rest
  | text => .ok (none, text)

/-- A numeral without fraction or exponent is an integer if 64 bits hold it, save for `-0`. -/
def wholeNumber (negative : Bool) (whole : List Char) : Option Number :=
  let (significand, count) := absorb 0 whole
  if count < whole.length then
    (Binary64.ofDecimal negative significand (whole.length - count)).map .float
  else if negative then
    if significand = 0 ∨ 1 <<< 63 < significand then (Binary64.ofNat true significand).map .float
    else some (.int (-significand))
  else some (.int significand)

def fractionalNumber (negative : Bool) (whole fraction : List Char) (exponent : Int) :
    Option Number :=
  let (significand, count) := absorb 0 whole
  let (significand, count') := absorb significand fraction
  (Binary64.ofDecimal negative significand (whole.length - count - count' + exponent)).map .float

def numberValue (negative : Bool) (whole : List Char) :
    Option (List Char) → Option Int → Option Number
  | none, none => wholeNumber negative whole
  | fraction, exponent =>
      fractionalNumber negative whole (fraction.getD []) (exponent.getD 0)

def unsignedNumber (negative : Bool) (text : List Char) : Except Problem (Number × List Char) := do
  let (whole, rest) ← wholePart text
  let (fraction, rest) ← fractionPart rest
  let (exponent, rest) ← exponentPart rest
  match numberValue negative whole fraction exponent with
  | some value => return (value, rest)
  | none => .error .malformed

def numeral : Reader Number
  | '-' :: rest => unsignedNumber true rest
  | text => unsignedNumber false text

def hexValue? (c : Char) : Option Nat :=
  if '0' ≤ c ∧ c ≤ '9' then some (c.toNat - '0'.toNat)
  else if 'a' ≤ c ∧ c ≤ 'f' then some (c.toNat - 'a'.toNat + 10)
  else if 'A' ≤ c ∧ c ≤ 'F' then some (c.toNat - 'A'.toNat + 10)
  else none

/-- The four hexadecimal digits at the front. A text of fewer than four bytes has ended. -/
def hexCode (text : List Char) : Except Problem Nat :=
  match (text.take 4).mapM hexValue? with
  | some [a, b, c, d] => .ok (((a * 16 + b) * 16 + c) * 16 + d)
  | _ =>
      if (String.ofList text).utf8ByteSize < 4 then .error .ended else .error .malformed

def isHighSurrogate (code : Nat) : Bool := 0xD800 ≤ code && code < 0xDC00

def isLowSurrogate (code : Nat) : Bool := 0xDC00 ≤ code && code < 0xE000

def lowSurrogate : List Char → Except Problem Nat
  | '\\' :: 'u' :: rest => do
      let code ← hexCode rest
      if isLowSurrogate code then return code else .error .malformed
  | [] | ['\\'] => .error .ended
  | _ => .error .malformed

def escape : List Char → Except Problem (Char × Nat)
  | [] => .error .ended
  | '"' :: _ => .ok ('"', 1)
  | '\\' :: _ => .ok ('\\', 1)
  | '/' :: _ => .ok ('/', 1)
  | 'b' :: _ => .ok ('\x08', 1)
  | 'f' :: _ => .ok ('\x0c', 1)
  | 'n' :: _ => .ok ('\n', 1)
  | 'r' :: _ => .ok ('\r', 1)
  | 't' :: _ => .ok ('\t', 1)
  | 'u' :: rest => do
      let code ← hexCode rest
      if isLowSurrogate code then .error .malformed
      else if isHighSurrogate code then
        let low ← lowSurrogate (rest.drop 4)
        return (Char.ofNat (0x10000 + (code - 0xD800) * 0x400 + (low - 0xDC00)), 11)
      else return (Char.ofNat code, 5)
  | _ => .error .malformed

def characters : Reader (List Char)
  | [] => .error .ended
  | '"' :: rest => .ok ([], rest)
  | '\\' :: rest => do
      let (c, length) ← escape rest
      let (more, rest) ← characters (rest.drop length)
      return (c :: more, rest)
  | c :: rest =>
      if c.toNat < 0x20 then .error .malformed
      else do
        let (more, rest) ← characters rest
        return (c :: more, rest)
termination_by text => text.length

def stringBody : Reader String := fun text => do
  let (found, rest) ← characters text
  return (String.ofList found, rest)

end FieldGuard.Json
