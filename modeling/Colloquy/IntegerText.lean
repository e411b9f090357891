import Colloquy.BlankText
import Colloquy.Numerals

/-!
# Texts of integers

A plain integer is a numeral without needless zeros, behind a minus sign if it is negative. Other
texts are read as the plain integer that is left of them without surrounding spaces, a plus sign,
zeros in front, a fraction of zeros and single underscores between digits.
-/

namespace Colloquy.IntegerText

inductive Fault where
  | malformed
  | tooLong
deriving DecidableEq

def isSpace (c : Char) : Bool :=
  BlankText.isBlank c && !(0x1C ≤ c.toNat && c.toNat ≤ 0x1F)

def trimmed (text : List Char) : List Char :=
  ((text.dropWhile isSpace).reverse.dropWhile isSpace).reverse

/-- What is left of a text behind a zero and further zeros and underscores. It may begin with
a minus sign. In front of a point, and where nothing is left, the last character passed is kept. -/
def behindZeros (last : Char) : List Char → Option (List Char)
  | [] => some [last]
  | c :: rest =>
    if c = '0' || c = '_' then behindZeros c rest
    else if c.isDigit || c = '-' then some (c :: rest)
    else if c = '.' then some (last :: c :: rest)
    else none

/-- The text without zeros in front, nothing if it does not begin with a digit. -/
def withoutZeros? : List Char → Option (List Char)
  | [] => none
  | c :: rest =>
    if c = '0' then behindZeros c rest else if c.isDigit then some (c :: rest) else none

/-- The text without its sign, if that is a plus, and without zeros in front. -/
def unpadded? : List Char → Option (List Char)
  | '+' :: rest => withoutZeros? rest
  | '-' :: rest => (withoutZeros? rest).map ('-' :: ·)
  | text => withoutZeros? text

/-- The text without its fraction, if that is made of zeros and has at least one. -/
def withoutFraction (text : List Char) : List Char :=
  match text.dropWhile (· ≠ '.') with
  | _ :: zero :: zeros =>
    if (zero :: zeros).all (· == '0') then text.takeWhile (· ≠ '.') else text
  | _ => text

/-- No two underscores stand next to each other. -/
def areApart : List Char → Bool
  | '_' :: '_' :: _ => false
  | _ :: rest => areApart rest
  | [] => true

/-- The text without its underscores, nothing if one of them does not stand alone within it. -/
def ungrouped? (text : List Char) : Option (List Char) :=
  if text.head? = some '_' || text.getLast? = some '_' || !areApart text then none
  else some (text.filter (· ≠ '_'))

/-- The number of a numeral without needless zeros, unless it has too many digits. -/
def natural? (digits : List Char) : Option Nat :=
  if digits = ['0'] then some 0
  else if digits.head?.any (· ≠ '0') && Numerals.isNumeral digits
      && digits.length ≤ Numerals.digitLimit then
    some (Numerals.value digits)
  else none

def plain? : List Char → Option Int
  | '-' :: digits => (natural? digits).map fun n => -(n : Int)
  | digits => (natural? digits).map Int.ofNat

/-- The digits that a text begins with, behind a minus sign if there is one, unless the first of
them is zero. -/
def leadingDigits (text : List Char) : List Char :=
  let unsigned := if text.head? = some '-' then text.tail else text
  if unsigned.head? = some '0' then [] else unsigned.takeWhile Char.isDigit

/-- The integer that a text stands for. Only a text that begins with a plain integer is called too
long, whatever comes after it. -/
def read (text : List Char) : Except Fault Int :=
  if Numerals.digitLimit < (leadingDigits text).length then .error .tooLong
  else
    match (unpadded? (trimmed text)).bind fun rest =>
      (ungrouped? (withoutFraction rest)).bind plain? with
    | some n => .ok n
    | none => .error .malformed

end Colloquy.IntegerText
