import Colloquy.Words

/-!
# Cycle pointers

Each pattern of a keyword uses its reassemblies in turn. The pointers say which one comes next:
they start at zero and go round in a cycle of a given size.
-/

namespace Colloquy

/-- Names one pattern: its keyword, and its place among the patterns of that keyword. -/
abbrev CycleKey := Word × Int

/-- The pointers that have been moved so far; all others are at zero. -/
structure Cycles where
  pointers : List (CycleKey × Int)

namespace Cycles

def start : Cycles := ⟨[]⟩

def peek (c : Cycles) (key : CycleKey) : Int :=
  (c.pointers.lookup key).getD 0

def setPointer (key : CycleKey) (place : Int) : List (CycleKey × Int) → List (CycleKey × Int)
  | [] => [(key, place)]
  | entry :: rest =>
    if entry.1 = key then (key, place) :: rest else entry :: setPointer key place rest

/-- The pointers with that of one pattern moved on in a cycle; nothing in a cycle of size zero.
In a cycle of negative size places count down from zero. -/
def advance? (c : Cycles) (key : CycleKey) (size : Int) : Option Cycles :=
  if size = 0 then none
  else some ⟨setPointer key ((c.peek key + 1).fmod size) c.pointers⟩

end Cycles

/-- The item of a list at a place, where negative places count from the end. -/
def itemAt? {α : Type} (items : List α) (place : Int) : Option α :=
  if 0 ≤ place then items[place.toNat]?
  else if -place ≤ items.length then items[items.length - (-place).toNat]?
  else none

end Colloquy
