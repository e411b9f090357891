import Colloquy.ScriptReader
import Colloquy.Session

/-!
# Histories of sessions

A session may be told texts, may be given memories or asked for them directly, may have its pointers put
back, its options changed and its tracer replaced. A chronicle is a session with what has come of it
so far, as its turns have told it: the texts said, the memories made and recalled, and the events
since the pointers last stood at zero.
-/

namespace Colloquy

def Event.memory? : Event → Option Word
  | .recollected _ (.text memory) => some memory
  | _ => none

namespace Spoken

def made (spoken : Spoken) : List Word :=
  spoken.events.filterMap Event.memory?

def recalled (spoken : Spoken) : List Word :=
  if .recalling ∈ spoken.events then spoken.reply.toOption.toList else []

end Spoken

/-- What may be done with a session. -/
inductive Deed where
  | say (text : List Char)
  | remember (memory : Word)
  | takeMemory
  | resetCycles
  | choose (options : Options)
  | trace (tracer : Tracer)

/-- A session and what has come of it so far. -/
structure Chronicle where
  session : Session
  said : List (List Char)
  made : List Word
  recalled : List Word
  /-- The events of the turns since the pointers last stood at zero. -/
  told : List Event

namespace Chronicle

def start (session : Session) : Chronicle :=
  ⟨session, [], [], [], []⟩

def next (c : Chronicle) : Deed → Chronicle
  | .say text =>
    let spoken := c.session.say text
    ⟨spoken.session, c.said ++ [text], c.made ++ spoken.made, c.recalled ++ spoken.recalled,
      c.told ++ spoken.events⟩
  | .remember memory =>
    { c with session := c.session.remember memory, made := c.made ++ [memory] }
  | .takeMemory =>
    let taken := if c.session.state.memories = [] then [] else [c.session.takeMemory.1]
    { c with session := c.session.takeMemory.2, recalled := c.recalled ++ taken }
  | .resetCycles => { c with session := c.session.resetCycles, told := [] }
  | .choose options => { c with session := { c.session with options := options } }
  | .trace tracer => { c with session := { c.session with tracer := tracer } }

def after (c : Chronicle) (deeds : List Deed) : Chronicle :=
  deeds.foldl next c

theorem after_induction {P : Chronicle → Prop} (hnext : ∀ c deed, P c → P (c.next deed))
    {c : Chronicle} (hc : P c) (deeds : List Deed) : P (c.after deeds) := by
  induction deeds generalizing c with
  | nil => exact hc
  | cons deed deeds ih => exact ih (hnext c deed hc)

theorem repertoire_next (c : Chronicle) (deed : Deed) :
    (c.next deed).session.repertoire = c.session.repertoire := by
  cases deed with
  | takeMemory =>
    simp only [next, Session.takeMemory]
    split <;> rfl
  | _ => rfl

theorem repertoire_after (c : Chronicle) (deeds : List Deed) :
    (c.after deeds).session.repertoire = c.session.repertoire :=
  after_induction (P := fun now => now.session.repertoire = c.session.repertoire)
    (fun now deed h => (now.repertoire_next deed).trans h) rfl deeds

end Chronicle

/-- A session that has begun has the script, the options and the tracer that it was begun with, and the
first state. -/
theorem Session.parts_of_start {script : Script} {options : Options} {tracer : Tracer}
    {session : Session} (h : Session.start script options tracer = .ok session) :
    session.repertoire.script = script ∧ session.options = options ∧
      session.state = State.start ∧ session.tracer = tracer := by
  unfold Session.start Repertoire.ofScript at h
  split at h
  · cases h
  · rename_i repertoire hrepertoire
    split at hrepertoire
    · cases hrepertoire
    · split at hrepertoire
      · cases hrepertoire
      · cases hrepertoire
        split at h <;> cases h
        exact ⟨rfl, rfl, rfl, rfl⟩

theorem Session.start_eq_ok {script : Script} {options : Options} {tracer : Tracer}
    {session : Session} (h : Session.start script options tracer = .ok session) :
    session.repertoire.script = script ∧ session.state = State.start := by
  obtain ⟨hscript, -, hstate, -⟩ := parts_of_start h
  exact ⟨hscript, hstate⟩

/-- A session that begins can be examined by running it. -/
theorem Session.exists_start_of_holds {script : Script} {options : Options} {tracer : Tracer}
    {p : Session → Bool} (h : (Session.start script options tracer).toOption.any p = true) :
    ∃ session, Session.start script options tracer = .ok session ∧ p session = true := by
  cases hstart : Session.start script options tracer with
  | error fault =>
    rw [hstart] at h
    cases h
  | ok session =>
    rw [hstart] at h
    exact ⟨session, rfl, h⟩

/-- A session that begins on a script read from a text can be examined by running it. -/
theorem Session.exists_start_of_any {text : List Char} {options : Options} {tracer : Tracer}
    {p : Session → Bool}
    (h : ((Script.read text).toOption.bind fun script =>
      (Session.start script options tracer).toOption).any p = true) :
    ∃ script session, Script.read text = .ok script ∧
      Session.start script options tracer = .ok session ∧ p session = true := by
  cases hread : Script.read text with
  | error fault =>
    rw [hread] at h
    cases h
  | ok script =>
    rw [hread] at h
    obtain ⟨session, hstart, hp⟩ := exists_start_of_holds h
    exact ⟨script, session, rfl, hstart, hp⟩

end Colloquy
