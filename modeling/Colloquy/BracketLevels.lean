import Colloquy.ScriptLexemes

/-!
# Bracketed lists

The lexemes of a script are grouped by their brackets. A level is what stands between two
brackets that belong together, or outside of all brackets; it ends at a closing bracket or where
the text ends. Nothing is refused here: a bracket that is never closed makes a level that ends with
the text, and a closing bracket too many ends the outermost level early.
-/

namespace Colloquy

/-- How a level ends, with the line on which it does. -/
inductive Ending where
  | bracket (line : Nat)
  | text (line : Nat)
deriving DecidableEq

def Ending.line : Ending → Nat
  | .bracket line | .text line => line

/-- A member of a level: a number, a symbol or a bracketed list. -/
inductive Item where
  | number (digits : Word) (line : Nat)
  | symbol (name : Word) (line : Nat)
  | list (items : List Item) (ending : Ending) (line : Nat)

def Item.line : Item → Nat
  | .number _ line | .symbol _ line | .list _ _ line => line

/-- What stands at one depth of brackets, up to its end. -/
structure Level where
  items : List Item
  ending : Ending

namespace Level

def cons (item : Item) (level : Level) : Level :=
  ⟨item :: level.items, level.ending⟩

/-- The line up to which a reader has read that looks at what comes first in a level. -/
def line (level : Level) : Nat :=
  match level.items with
  | [] => level.ending.line
  | item :: _ => item.line

/-- The level at hand and the levels around it, from the inside out, of the rest of a text. -/
def readAll (lastLine : Nat) : List Lexeme → Level × List Level
  | [] => (⟨[], .text lastLine⟩, [])
  | lexeme :: rest =>
    let (level, outer) := readAll lastLine rest
    match lexeme.token with
    | .number digits => (level.cons (.number digits lexeme.place.line), outer)
    | .symbol name => (level.cons (.symbol name lexeme.place.line), outer)
    | .closing => (⟨[], .bracket lexeme.place.line⟩, level :: outer)
    | .opening =>
      let item := Item.list level.items level.ending lexeme.place.line
      match outer with
      | [] => (⟨[item], .text lastLine⟩, [])
      | around :: outer => (around.cons item, outer)

def read (lexemes : Lexemes) : Level :=
  (readAll lexemes.finish.line lexemes.list).1

end Level

end Colloquy
