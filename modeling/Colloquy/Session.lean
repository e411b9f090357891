import Colloquy.Conversation

/-!
# Sessions

A session is one conversation over a repertoire: its options, its state and its tracer. Sessions
over one repertoire share nothing that changes.
-/

namespace Colloquy

structure Session where
  repertoire : Repertoire
  options : Options
  state : State
  tracer : Tracer

/-- A turn of a session: the answer or the fault, the session afterwards and the events. -/
structure Spoken where
  reply : Except Fault Word
  session : Session
  events : List Event

namespace Session

def start (script : Script) (options : Options) (tracer : Tracer) : Except StartFault Session :=
  match Repertoire.ofScript script with
  | .error fault => .error fault
  | .ok repertoire =>
    if options.maxHops < 1 then .error .noHops
    else .ok ⟨repertoire, options, State.start, tracer⟩

def greeting (s : Session) : List Char :=
  s.repertoire.script.greetingText

def watchedBy (s : Session) (tracer : Tracer) : Session :=
  { s with tracer := tracer }

def say (s : Session) (text : List Char) : Spoken :=
  let turn := s.repertoire.watchedTurn s.options s.state s.tracer text
  ⟨turn.reply, { s with state := turn.state, tracer := turn.tracer }, turn.events⟩

/-- The clause of a sentence that a turn would work on. -/
def scan (s : Session) (words : List Word) : Clause :=
  Colloquy.scan s.repertoire.script.rules words

/-- Adds a memory as if a turn had made it. -/
def remember (s : Session) (memory : Word) : Session :=
  { s with state := s.state.remember memory }

/-- Takes the oldest memory out; the text is empty if there is none. -/
def takeMemory (s : Session) : Word × Session :=
  match s.state.takeOldest? with
  | none => ([], s)
  | some (memory, state) => (memory, { s with state := state })

def resetCycles (s : Session) : Session :=
  { s with state := s.state.resetCycles }

/-- The number of patterns of a rule that uses its reassemblies in turn. -/
def patternCount (r : Rule) : Nat :=
  match r.body with
  | .transform transformations _ => transformations.length
  | _ => 0

/-- The greatest number of patterns that the rules of each keyword have. -/
def patternCounts (s : Session) : WordMap Nat :=
  s.repertoire.script.rules.entries.foldl
    (fun counts entry =>
      counts.insert entry.2.keyword
        (max ((counts.get? entry.2.keyword).getD 0) (patternCount entry.2)))
    WordMap.empty

/-- The pointers of the script's patterns that do not stand at zero, in order. -/
def movedPointers (s : Session) : List (CycleKey × Int) :=
  s.patternCounts.entries.flatMap fun entry =>
    (List.range entry.2).filterMap fun (index : Nat) =>
      let place := s.state.cycles.peek (entry.1, index)
      if place = 0 then none else some ((entry.1, index), place)

end Session

end Colloquy
