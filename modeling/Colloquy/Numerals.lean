import Colloquy.Words

/-!
# Numerals

A word made of decimal digits alone is a numeral. Numerals of more than `digitLimit` digits are
neither read, leading zeros included, nor written into texts; the empty word counts as a numeral for
zero.
-/

namespace Colloquy.Numerals

def digitLimit : Nat := 4300

/-- A numeral that has too many digits, to be read or to be written. -/
structure Oversized where
  digits : Nat
  wasRead : Bool
  exceeds : digitLimit < digits
deriving DecidableEq, Repr

/-- The wording tells the number of digits only of a numeral that was to be read. -/
def Oversized.message (o : Oversized) : String :=
  "Exceeds the limit (" ++ toString digitLimit ++ " digits) for integer string conversion" ++
    (if o.wasRead then ": value has " ++ toString o.digits ++ " digits" else "") ++
    "; use sys.set_int_max_str_digits() to increase the limit"

def isNumeral (w : Word) : Bool :=
  w.all Char.isDigit

def value (digits : List Char) : Nat :=
  digits.foldl (fun n c => 10 * n + (c.toNat - '0'.toNat)) 0

def valueWithin (digits : List Char) : Except Oversized Nat :=
  if h : digits.length ≤ digitLimit then .ok (value digits)
  else .error ⟨digits.length, true, Nat.lt_of_not_le h⟩

/-- The number of a numeral, nothing for any other word. -/
def read (w : Word) : Except Oversized (Option Nat) :=
  if isNumeral w then (valueWithin w).map some else .ok none

def write (n : Nat) : Word :=
  Nat.toDigits 10 n

/-- The number has no more digits than may be written into a text. A sign is no digit. -/
def Writable (n : Int) : Prop :=
  (write n.natAbs).length ≤ digitLimit

instance (n : Int) : Decidable (Writable n) :=
  inferInstanceAs (Decidable (_ ≤ _))

/-- A number as texts show it, unless it has too many digits. -/
def text (n : Int) : Except Oversized String :=
  if h : Writable n then .ok (toString n)
  else .error ⟨(write n.natAbs).length, false, Nat.lt_of_not_le h⟩

end Colloquy.Numerals
