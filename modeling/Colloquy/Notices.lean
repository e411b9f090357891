import Colloquy.Conversation
import Colloquy.JsonValue

/-!
# Notices to the operator

What the program tells whoever runs it: how grave it is, a message and details. The notices of a
turn are a view of its events.
-/

namespace Colloquy

inductive Gravity where
  | info
  | warning
  | error
  | critical
deriving DecidableEq

def Gravity.name : Gravity → String
  | .info => "INFO"
  | .warning => "WARNING"
  | .error => "ERROR"
  | .critical => "CRITICAL"

inductive Notice where
  | scriptLoaded (rules tags : Nat) (memoryKeyword : Option Word)
  | scriptRejected
  | settingsLoaded
  | unknownKeyword (keyword : Word)
  | noMatch (keyword : Word)
  | uncodedWord (keyword : Word)
  | noneSilent (limit : Nat)
  | hopLimit (maxHops : Int) (limit : Nat)
  | sessionEvicted
  | requestRejected
  | requestFailed
  /-- An event that is told as one line of JSON. -/
  | structured (line : String)
deriving DecidableEq

namespace Notice

def gravity : Notice → Gravity
  | .scriptRejected => .critical
  | .requestFailed => .error
  | .uncodedWord _ | .noneSilent _ | .hopLimit .. => .warning
  | .scriptLoaded .. | .settingsLoaded | .unknownKeyword _ | .noMatch _ | .sessionEvicted
  | .requestRejected | .structured _ => .info

def message : Notice → String
  | .scriptLoaded .. => "[Script] Loaded"
  | .scriptRejected => "[CFG] script rejected"
  | .settingsLoaded => "[CFG] loaded"
  | .unknownKeyword _ => "[Engine] Unknown keyword"
  | .noMatch _ => "[Engine] No decomposition matched"
  | .uncodedWord _ => "[Memory] Last word cannot be hashed; no memory created"
  | .noneSilent _ => "[Engine] NONE rule produced no response"
  | .hopLimit .. => "[Engine] Link hop limit reached"
  | .sessionEvicted => "[Sessions] Evicted"
  | .requestRejected => "[API] message reject"
  | .requestFailed => "Unhandled error in request"
  | .structured line => line

def wordJson (w : Word) : Json :=
  .text (String.ofList w)

def details : Notice → List (String × Json)
  | .scriptLoaded rules tags memoryKeyword =>
    [("rule_count", .int rules), ("tag_count", .int tags),
      ("memory_keyword", .textOrNull (memoryKeyword.map String.ofList))]
  | .unknownKeyword keyword | .noMatch keyword | .uncodedWord keyword =>
    [("keyword", wordJson keyword)]
  | .noneSilent limit => [("limit", .int limit)]
  | .hopLimit maxHops limit => [("max_link_hops", .int maxHops), ("limit", .int limit)]
  | .scriptRejected | .settingsLoaded | .sessionEvicted | .requestRejected | .requestFailed
  | .structured _ => []

def ofEvent? : Event → Option Notice
  | .unknownKeyword keyword => some (.unknownKeyword keyword)
  | .recollected keyword .uncoded => some (.uncodedWord keyword)
  | .noMatch keyword => some (.noMatch keyword)
  | .noneSilent limit => some (.noneSilent limit)
  | .hopLimit maxHops limit => some (.hopLimit maxHops limit)
  | _ => none

def ofEvents (events : List Event) : List Notice :=
  events.filterMap ofEvent?

def ofScript (script : Script) : Notice :=
  .scriptLoaded script.keywordRules.entries.length script.tags.entries.length
    (script.memoryRule?.map (·.keyword))

end Notice

end Colloquy
