import Colloquy.Words

/-!
# The six-bit card code

The code has 64 slots, of which 48 carry a character. Input is reduced to those characters, and
a word is identified by its last cell of six characters, packed into 36 bits.
-/

namespace Colloquy.CardCode

/-- The characters in the order of their codes; an unused code has none. -/
def slots : List (Option Char) :=
  [some '0', some '1', some '2', some '3', some '4', some '5', some '6', some '7',
   some '8', some '9', none, some '=', some '\'', none, none, none,
   some '+', some 'A', some 'B', some 'C', some 'D', some 'E', some 'F', some 'G',
   some 'H', some 'I', none, some '.', some ')', none, none, none,
   some '-', some 'J', some 'K', some 'L', some 'M', some 'N', some 'O', some 'P',
   some 'Q', some 'R', none, some '$', some '*', none, none, none,
   some ' ', some '/', some 'S', some 'T', some 'U', some 'V', some 'W', some 'X',
   some 'Y', some 'Z', none, some ',', some '(', none, none, none]

def code? (c : Char) : Option Nat :=
  slots.idxOf? (some c)

def isDefined (c : Char) : Bool :=
  slots.contains (some c)

def characters : List Char :=
  slots.filterMap id

/-- The coded character that stands for a character of the input: a question or exclamation
mark is a period, and what has no code is a space. -/
def reduceChar (c : Char) : Char :=
  if c == '?' || c == '!' then '.' else if isDefined c then c else ' '

def reduce (text : List Char) : List Char :=
  text.map reduceChar

def cellSize : Nat := 6

def charBits : Nat := 6

def codeCount : Nat := 64

def datumBits : Nat := cellSize * charBits

/-- The last cell of a word that is laid out in consecutive cells. -/
def lastCell (w : Word) : Word :=
  w.drop ((w.length - 1) / cellSize * cellSize)

def padCell (cell : Word) : Word :=
  cell ++ List.replicate (cellSize - cell.length) ' '

/-- Appends the codes of the characters to a datum; fails with the first one that has none. -/
def packOnto (datum : Nat) : List Char → Except Char Nat
  | [] => .ok datum
  | c :: cs =>
    match code? c with
    | none => .error c
    | some code => packOnto (datum * codeCount + code) cs

/-- The last cell of a word as one number. -/
def pack (w : Word) : Except Char Nat :=
  packOnto 0 (padCell (lastCell w))

/-- The words of a text in upper case and coded characters. -/
def normalize (text : List Char) : List Word :=
  Words.split (reduce (Words.upper text))

end Colloquy.CardCode
