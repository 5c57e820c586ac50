import TypedClient.Json.Token
import TypedClient.Json.Value

/-! The number that a numeral writes. An integer that fits 64 bits stays one; every
other number is a floating-point number, built from at most 64 bits of digits and a
power of ten, and is refused when it is too large. -/

namespace TypedClient.Json

/-- The largest digits value that is kept: 64 bits. -/
def maxDigits : Nat := 0xFFFFFFFFFFFFFFFF

/-- The largest amount of a negative integer. -/
def maxNegative : Nat := 0x8000000000000000

/-- The largest exponent that is kept as written. -/
def maxExponent : Nat := 0x7FFFFFFF

def digitValue (c : Char) : Nat := c.toNat - 48

/-- Takes digits into `value` while it stays within `limit`; gives the digits left over. -/
def takeDigits (limit value : Nat) : List Char → Nat × List Char
  | [] => (value, [])
  | c :: rest =>
    let next := value * 10 + digitValue c
    if next ≤ limit then takeDigits limit next rest else (value, c :: rest)

/-- A power of ten as a floating-point number. -/
def powerOfTen (n : Nat) : Float := Float.ofScientific 1 false n

/-- `x * 10 ^ exponent`, in steps of at most 308 decimal places; none when it is too large. -/
def scale (x : Float) (exponent : Int) : Option Float :=
  if 0 ≤ exponent then
    if exponent ≤ 308 then
      let scaled := x * powerOfTen exponent.toNat
      if scaled.isInf then none else some scaled
    else if x == 0 then some x else none
  else if -308 ≤ exponent then some (x / powerOfTen (-exponent).toNat)
  else if x == 0 then some x
  else scale (x / powerOfTen 308) (exponent + 308)
termination_by (-exponent).toNat

def signed (negative : Bool) (x : Float) : Float := if negative then -x else x

/-- `significand * 10 ^ exponent` with a sign. -/
def floatNumber (negative : Bool) (significand : Nat) (exponent : Int) : Option Number :=
  (scale significand.toUInt64.toFloat exponent).map fun x => .float (signed negative x)

/-- The number with the written exponent added to the one that the digits have. -/
def withExponent (negative : Bool) (significand : Nat) (places : Int) :
    Option (Bool × List Char) → Option Number
  | none => floatNumber negative significand places
  | some (down, digits) =>
    match takeDigits maxExponent 0 digits with
    | (exponent, []) =>
      floatNumber negative significand (if down then places - exponent else places + exponent)
    | _ =>
      if significand != 0 && !down then none else some (.float (signed negative 0))

/-- The number that a numeral writes, or none when it is too large. -/
def Numeral.value? (n : Numeral) : Option Number :=
  let (significand, dropped) := takeDigits maxDigits 0 n.whole
  match n.fraction, n.exponent with
  | none, none =>
    if !dropped.isEmpty then floatNumber n.negative significand dropped.length
    else if !n.negative then some (.integer significand)
    else if 0 < significand && significand ≤ maxNegative then some (.integer (-significand))
    else some (.float (signed true significand.toUInt64.toFloat))
  | none, exponent => withExponent n.negative significand dropped.length exponent
  | some fraction, exponent =>
    let (all, unread) := takeDigits maxDigits significand fraction
    let places : Int := dropped.length - (fraction.length - unread.length : Nat)
    withExponent n.negative all places exponent

end TypedClient.Json
