import Colloquy.PrintableCharacters

/-!
# Quoted text

A text is quoted for a message: printable characters stand for themselves, the others and the
backslash as escapes. Single quotation marks are put around it, unless it holds such a mark and no
double one.
-/

namespace Colloquy.QuotedText

/-- The code as hexadecimal digits, filled up with zeros on the left. -/
def hexDigits (width code : Nat) : List Char :=
  let digits := Nat.toDigits 16 code
  List.replicate (width - digits.length) '0' ++ digits

/-- A character as it stands between the given quotation marks. -/
def character (mark : Char) (c : Char) : List Char :=
  if c = mark ∨ c = '\\' then ['\\', c]
  else if c = '\n' then ['\\', 'n']
  else if c = '\r' then ['\\', 'r']
  else if c = '\t' then ['\\', 't']
  else if PrintableCharacters.isPrintable c then [c]
  else if c.toNat < 0x100 then ['\\', 'x'] ++ hexDigits 2 c.toNat
  else if c.toNat < 0x10000 then ['\\', 'u'] ++ hexDigits 4 c.toNat
  else ['\\', 'U'] ++ hexDigits 8 c.toNat

def mark (text : List Char) : Char :=
  if text.contains '\'' && !text.contains '"' then '"' else '\''

def quote (text : List Char) : List Char :=
  mark text :: text.flatMap (character (mark text)) ++ [mark text]

def uncodedMessage (c : Char) : String :=
  "character " ++ String.ofList (quote [c]) ++ " has no Hollerith encoding"

end Colloquy.QuotedText
