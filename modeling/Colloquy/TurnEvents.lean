import Colloquy.ConversationState

/-!
# Events of turns

Everything that a turn does is an event. The tracer of a conversation is told of each event as it
happens, and the notices that a turn leaves are notices on its events.
-/

namespace Colloquy

/-- How a keyword stands with the rules of a script. -/
inductive Standing where
  | unknown
  | inert
  | ranked (precedence : Int)
deriving DecidableEq

inductive Event where
  /-- The turn begins with a new limit. -/
  | started (limit : Nat)
  /-- The memories that wait when the turn begins. -/
  | memories (waiting : List Word)
  /-- The keywords that are left to work on. -/
  | keystack (entries : List (Word × Standing))
  /-- A keyword is worked on with a sentence. -/
  | working (keyword : Word) (words : List Word)
  /-- The keyword has no rule. -/
  | unknownKeyword (keyword : Word)
  /-- An attempt to make a memory has been made. -/
  | recollected (keyword : Word) (recollection : Recollection)
  /-- A rule is applied to a sentence. -/
  | applying (rule : Rule) (words : List Word)
  /-- A reassembly has been taken in turn. -/
  | selected (selection : Selection)
  /-- A template is filled with the parts of a sentence. -/
  | reassembling (template : List Word)
  /-- A rule has been applied to a sentence. -/
  | applied (rule : Rule) (words : List Word) (application : Application)
  /-- No pattern of the keyword has matched. -/
  | noMatch (keyword : Word)
  /-- A memory is recalled. -/
  | recalling
  /-- The NONE rule has been applied. -/
  | fellBack (application : Application)
  /-- The NONE rule has given no answer. -/
  | noneSilent (limit : Nat)
  /-- The greatest number of keywords has been worked on. -/
  | hopLimit (maxHops : Int) (limit : Nat)
deriving DecidableEq

end Colloquy
