import Colloquy.KeywordRule

/-!
# The state of a conversation

Everything that a conversation changes: the count of its turns, a limit that goes from one to
four and round again with each turn, the cycle pointers, and the memories that wait to be recalled,
oldest first.
-/

namespace Colloquy

structure State where
  limit : Nat
  turns : Nat
  cycles : Cycles
  memories : List Word

namespace State

def start : State := ⟨1, 0, Cycles.start, []⟩

def limitCycle : Nat := 4

def recallLimit : Nat := 4

def advance (s : State) : State :=
  { s with limit := s.limit % limitCycle + 1, turns := s.turns + 1 }

/-- The canned phrases in the order of the limits that choose them. -/
def phrases : List Word :=
  ["PLEASE CONTINUE".toList, "HMMM".toList, "GO ON, PLEASE".toList, "I SEE".toList]

def phrase (s : State) : Word :=
  (phrases[s.limit - 1]?).getD []

def remember (s : State) (memory : Word) : State :=
  { s with memories := s.memories ++ [memory] }

def keep (s : State) : Recollection → State
  | .text memory => s.remember memory
  | .nothing | .uncoded => s

def takeOldest? (s : State) : Option (Word × State) :=
  match s.memories with
  | [] => none
  | memory :: rest => some (memory, { s with memories := rest })

def resetCycles (s : State) : State :=
  { s with cycles := Cycles.start }

end State

end Colloquy
