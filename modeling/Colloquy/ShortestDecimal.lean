/-!
# Shortest decimals

A number with a fraction or an exponent is kept to the precision of a binary floating-point number
of 64 bits, and written with the fewest digits that read back as the same number. All arithmetic
is exact.
-/

namespace Colloquy.ShortestDecimal

/-- A binary floating-point number that is not negative: a significand and a power of two. -/
structure Binary where
  significand : Nat
  exponent : Int
deriving DecidableEq, Repr

def precision : Nat := 53

def fullBit : Nat := Nat.pow 2 (precision - 1)

def minExponent : Int := -1074

def maxExponent : Int := 971

abbrev Ratio := Nat × Nat

/-- The ratio `n · b ^ e`. -/
def scale (n b : Nat) (e : Int) : Ratio :=
  if 0 ≤ e then (n * Nat.pow b e.toNat, 1) else (n, Nat.pow b (-e).toNat)

/-- The integer that a floating-point number is, if it has no fraction. -/
def Binary.whole? (b : Binary) : Option Nat :=
  let value := scale b.significand 2 b.exponent
  if value.1 % value.2 = 0 then some (value.1 / value.2) else none

/-- The quotient rounded to the nearest number, to the even one of two. -/
def roundHalfEven (n d : Nat) : Nat :=
  let q := n / d
  let twice := 2 * (n % d)
  if twice < d then q else if d < twice then q + 1 else q + q % 2

/-- The exponent of the greatest power of two that does not exceed a ratio above zero. -/
def log2 (r : Ratio) : Int :=
  let guess : Int := (r.1.log2 : Int) - r.2.log2
  let power := scale 1 2 guess
  if power.1 * r.2 ≤ r.1 * power.2 then guess else guess - 1

/-- The floating-point number nearest to a ratio, nothing beyond the greatest one. -/
def nearest? (r : Ratio) : Option Binary :=
  if r.1 = 0 then some ⟨0, minExponent⟩
  else
    let exponent := max minExponent (log2 r - (precision - 1))
    let unit := scale 1 2 exponent
    let significand := roundHalfEven (r.1 * unit.2) (r.2 * unit.1)
    let rounded : Binary :=
      if significand = 2 * fullBit then ⟨fullBit, exponent + 1⟩
      else ⟨significand, exponent⟩
    if maxExponent < rounded.exponent then none else some rounded

/-- The ratio that is half of the way from a number to its lower or upper neighbour, together with
the number itself, all over one denominator: lower bound, number, upper bound, denominator. -/
def interval (b : Binary) : Nat × Nat × Nat × Nat :=
  let unit := scale 1 2 b.exponent
  let m := 4 * b.significand
  let below := if b.significand = fullBit ∧ minExponent < b.exponent then 1 else 2
  ((m - below) * unit.1, m * unit.1, (m + 2) * unit.1, 4 * unit.2)

/-- The number of decimal digits in front of the point of a ratio above zero; zero or less for
a ratio below one tenth and less. -/
def pointPlace (r : Ratio) : Int :=
  let digits (n : Nat) : Int := (Nat.toDigits 10 n).length
  let guess := digits r.1 - digits r.2
  let power := scale 1 10 guess
  if power.1 * r.2 ≤ r.1 * power.2 then guess + 1 else guess

/-- A decimal: its digits and the place of the point, counted from the front of the digits. -/
structure Decimal where
  digits : List Char
  point : Int
deriving DecidableEq, Repr

/-- The decimal with the given number of digits that lies next to a floating-point number and reads
back as it, if there is one. -/
def withDigits? (b : Binary) (point : Int) (count : Nat) : Option Nat :=
  let (low, value, high, den) := interval b
  let step := scale 1 10 (point - count)
  let floor := value * step.2 / (den * step.1)
  let fits (n : Nat) : Bool :=
    let left := n * step.1 * den
    if b.significand % 2 = 0 then low * step.2 ≤ left && left ≤ high * step.2
    else low * step.2 < left && left < high * step.2
  let distance (n : Nat) : Nat :=
    let left := n * step.1 * den
    let right := value * step.2
    (left - right) + (right - left)
  match fits floor, fits (floor + 1) with
  | false, false => none
  | true, false => some floor
  | false, true => some (floor + 1)
  | true, true =>
    if distance floor < distance (floor + 1) then some floor
    else if distance (floor + 1) < distance floor then some (floor + 1)
    else some (floor + floor % 2)

def shortest (b : Binary) : Decimal :=
  if b.significand = 0 then ⟨['0'], 1⟩
  else
    let (_, value, _, den) := interval b
    let point := pointPlace (value, den)
    match (List.range 17).findSome? fun n => (withDigits? b point (n + 1)).map (n + 1, ·) with
    | none => ⟨[], point⟩
    | some (count, n) =>
      let digits := Nat.toDigits 10 n
      let point := point + digits.length - count
      ⟨(digits.reverse.dropWhile (· == '0')).reverse, point⟩

def lastPlainPoint : Int := 16

def firstPlainPoint : Int := -3

/-- The text of a decimal: plain with a digit on either side of the point, or with an exponent of
two digits at least. -/
def Decimal.text (d : Decimal) : List Char :=
  if firstPlainPoint ≤ d.point ∧ d.point ≤ lastPlainPoint then
    if d.point ≤ 0 then
      ['0', '.'] ++ List.replicate (-d.point).toNat '0' ++ d.digits
    else
      let place := d.point.toNat
      let whole := d.digits.take place
      let fraction := d.digits.drop place
      whole ++ List.replicate (place - whole.length) '0' ++ ['.']
        ++ (if fraction.isEmpty then ['0'] else fraction)
  else
    let exponent := d.point - 1
    let digits := Nat.toDigits 10 exponent.natAbs
    d.digits.take 1
      ++ (if d.digits.length ≤ 1 then [] else '.' :: d.digits.drop 1)
      ++ ['e', if exponent < 0 then '-' else '+']
      ++ List.replicate (2 - digits.length) '0' ++ digits

/-- The floating-point number nearest to `digits · 10 ^ exponent`, nothing beyond the greatest. -/
def ofScientific? (digits : Nat) (exponent : Int) : Option Binary :=
  let size : Int := (Nat.toDigits 10 digits).length
  if digits = 0 ∨ size + exponent < -330 then some ⟨0, minExponent⟩
  else if 320 < size + exponent then none
  else nearest? (scale digits 10 exponent)

def text? (digits : Nat) (exponent : Int) : Option (List Char) :=
  (ofScientific? digits exponent).map fun b => (shortest b).text

end Colloquy.ShortestDecimal
