/-! The shortest decimal of a binary floating-point number: of the decimals with the
fewest digits that read back as the number, the one nearest to it, and of two
equally near ones the even one. All arithmetic is exact, on natural numbers. -/

namespace TypedClient

/-- A decimal `digits * 10 ^ exponent`. -/
structure Decimal where
  digits : Nat
  exponent : Int

namespace Decimal

/-- A positive number with the numbers that read back as it: `low` to `high` around `value`,
all over one denominator; the ends themselves read back when `closed`. -/
structure Window where
  low : Nat
  value : Nat
  high : Nat
  denominator : Nat
  closed : Bool

/-- A power of a base; one for negative exponents. -/
def power (base : Nat) (exponent : Int) : Nat := Nat.pow base exponent.toNat

/-- The least significand of 53 bits. -/
def leastNormal : Nat := power 2 52

/-- The window of `significand * 2 ^ exponent` with 53 bits of precision. Below a power of two
the neighbour is half as far away, unless the exponent is already the least one. -/
def Window.ofBinary (significand : Nat) (exponent : Int) : Window :=
  let scale := power 2 (exponent - 2)
  let below := if significand = leastNormal && exponent > -1074 then 1 else 2
  { low := (4 * significand - below) * scale
    value := 4 * significand * scale
    high := (4 * significand + 2) * scale
    denominator := power 2 (2 - exponent)
    closed := significand % 2 == 0 }

/-- Whether `digits * 10 ^ exponent` lies in the window. -/
def Window.contains (w : Window) (digits : Nat) (exponent : Int) : Bool :=
  let scaled := digits * power 10 exponent * w.denominator
  let low := w.low * power 10 (-exponent)
  let high := w.high * power 10 (-exponent)
  if w.closed then low ≤ scaled && scaled ≤ high else low < scaled && scaled < high

/-- The least power of ten, up to `fuel`, that brings `num / den` to one or more. -/
def scaleUp : Nat → Nat → Nat → Nat
  | 0, _, _ => 0
  | fuel + 1, num, den => if den ≤ num then 0 else scaleUp fuel (num * 10) den + 1

/-- The exponent of the first decimal digit of `num / den`. -/
def leadingExponent (num den : Nat) : Int :=
  if den ≤ num then ((Nat.toDigits 10 (num / den)).length : Int) - 1
  else -(scaleUp 400 num den : Int)

/-- The nearest of the two neighbours of the value on the grid `10 ^ exponent` that lie in the
window. -/
def Window.onGrid (w : Window) (exponent : Int) : Option Decimal :=
  let num := w.value * power 10 (-exponent)
  let den := w.denominator * power 10 exponent
  let below := num / den
  let above := below + 1
  match w.contains below exponent && below != 0, w.contains above exponent with
  | false, false => none
  | true, false => some ⟨below, exponent⟩
  | false, true => some ⟨above, exponent⟩
  | true, true =>
    let twice := 2 * (num % den)
    if twice < den || (twice == den && below % 2 == 0) then some ⟨below, exponent⟩
    else some ⟨above, exponent⟩

/-- The first grid with a hit, from one digit to seventeen. -/
def Window.shortest (w : Window) : Decimal :=
  let lead := leadingExponent w.value w.denominator
  ((List.range 17).findSome? fun (count : Nat) => w.onGrid (lead - count)).getD ⟨0, 0⟩

/-- A decimal without zeros at the end of its digits. -/
def trimmed (d : Decimal) : List Char × Int :=
  let digits := Nat.toDigits 10 d.digits
  let kept := (digits.reverse.dropWhile (· == '0')).reverse
  (kept, d.exponent + (digits.length - kept.length : Nat))

/-- The sign, the significand and the exponent of a finite number. -/
def parts (x : Float) : Bool × Nat × Int :=
  let bits := x.toBits.toNat
  let fraction := bits % leastNormal
  let biased := bits / leastNormal % power 2 11
  (bits / power 2 63 == 1,
    if biased == 0 then (fraction, -1074) else (fraction + leastNormal, (biased : Int) - 1075))

/-- The sign of a finite number, its shortest decimal digits, and the exponent of the first of
them; no digits for zero. -/
def shortest (x : Float) : Bool × List Char × Int :=
  let (negative, significand, exponent) := parts x
  if significand = 0 then (negative, [], 0)
  else
    let (digits, last) := (Window.ofBinary significand exponent).shortest.trimmed
    (negative, digits, last + digits.length - 1)

end Decimal

end TypedClient
