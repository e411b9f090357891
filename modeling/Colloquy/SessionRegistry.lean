import Colloquy.Session

/-!
# The registry of sessions

The registry holds the live sessions over one script in the order of their last use, the one used
longest ago first. Beyond its capacity it lets that one go.
-/

namespace Colloquy

/-- The live sessions over one script. -/
structure SessionRegistry where
  script : Script
  options : Options
  capacity : Nat
  sessions : List (String × Session)

namespace SessionRegistry

/-- A registry without sessions. It has room for one session at least. -/
def start (script : Script) (options : Options) (maxSessions : Int) : SessionRegistry :=
  ⟨script, options, max 1 maxSessions.toNat, []⟩

def size (r : SessionRegistry) : Nat :=
  r.sessions.length

/-- The session of a name, without using it. -/
def find? (r : SessionRegistry) (id : String) : Option Session :=
  r.sessions.lookup id

def contains (r : SessionRegistry) (id : String) : Bool :=
  (r.find? id).isSome

def others (r : SessionRegistry) (id : String) : List (String × Session) :=
  r.sessions.filter (fun entry => entry.1 ≠ id)

/-- The registry with a session as the one used last. -/
def touch (r : SessionRegistry) (id : String) (s : Session) : SessionRegistry :=
  { r with sessions := r.others id ++ [(id, s)] }

/-- A new session, the registry with it and the names of the sessions that had to go. -/
structure Created where
  session : Session
  registry : SessionRegistry
  evicted : List String

/-- Begins a session under a name that no live session has. -/
def create (r : SessionRegistry) (id : String) : Except StartFault Created :=
  match Session.start r.script r.options .silent with
  | .error fault => .error fault
  | .ok session =>
    let grown := r.touch id session
    let excess := grown.size - r.capacity
    .ok ⟨session, { grown with sessions := grown.sessions.drop excess },
      (grown.sessions.take excess).map (·.1)⟩

/-- The session of a name, and the registry after its use. -/
def get? (r : SessionRegistry) (id : String) : Option (Session × SessionRegistry) :=
  (r.find? id).map fun s => (s, r.touch id s)

/-- Ends the session of a name; tells whether there was one. -/
def delete (r : SessionRegistry) (id : String) : Bool × SessionRegistry :=
  (r.contains id, { r with sessions := r.others id })

def say? (r : SessionRegistry) (id : String) (text : List Char) :
    Option (Spoken × SessionRegistry) :=
  (r.get? id).map fun (s, r) =>
    let spoken := s.say text
    (spoken, r.touch id spoken.session)

end SessionRegistry

end Colloquy
