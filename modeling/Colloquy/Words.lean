/-!
# Words and sentences

A sentence is a list of words. A comma and a period are words of their own, and together with
the word BUT they end a clause. `split` reads a text into words, `join` writes words as a text
with single spaces, leaving empty words out.
-/

namespace Colloquy

abbrev Word := List Char

namespace Words

/-- Upper case for the 26 unaccented letters; every other character stays as it is. -/
def upper (text : List Char) : List Char :=
  text.map Char.toUpper

/-- The two marks that stand as words of their own. -/
def isPunctuation (c : Char) : Bool :=
  c == ',' || c == '.'

def isMark (w : Word) : Bool :=
  w == [','] || w == ['.']

def isDelimiter (w : Word) : Bool :=
  w == ['B', 'U', 'T'] || isMark w

/-- Puts the letters read last, held in reverse, before the words that follow them. -/
def flush (pending : List Char) (rest : List Word) : List Word :=
  if pending.isEmpty then rest else pending.reverse :: rest

/-- The words of a text whose first word already has the given letters, held in reverse. -/
def splitFrom (pending : List Char) : List Char → List Word
  | [] => flush pending []
  | c :: cs =>
    if c == ' ' then flush pending (splitFrom [] cs)
    else if isPunctuation c then flush pending ([c] :: splitFrom [] cs)
    else splitFrom (c :: pending) cs

/-- The words of a text: spaces separate them, and a punctuation mark is a word of its own. -/
def split (text : List Char) : List Word :=
  splitFrom [] text

/-- The non-empty words with single spaces between them. -/
def join (words : List Word) : List Char :=
  [' '].intercalate (words.filter (fun w => !w.isEmpty))

end Words

end Colloquy
