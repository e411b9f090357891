import Colloquy.JsonWriter
import Colloquy.Sha256

/-!
# The event log

Events are logged as one line of JSON each, without what was said in a conversation. A session is
named by a digest of its name, so that the log does not tell the name itself.
-/

namespace Colloquy.EventLog

def redactedKeys : List String :=
  ["text", "user_text", "response", "greeting", "trace", "payload", "body"]

def isPublic (field : JsonString × Json) : Bool :=
  match field.1 with
  | none => true
  | some key => !redactedKeys.contains key

/-- The fields of an event that may be logged. What is no object has none. -/
def redact : Json → List (JsonString × Json)
  | .obj fields => fields.filter isPublic
  | _ => []

def line (event : Json) : String :=
  (Json.obj (redact event)).write

def defaultSalt : String := "obs-salt"

/-- The salt for a variable of the environment. An empty one counts as none. -/
def salt : Option String → String
  | none => defaultSalt
  | some chosen => if chosen.isEmpty then defaultSalt else chosen

def hashLength : Nat := 16

/-- The name of a session in the log. -/
def sessionHash (id : Option String) (salt : String := defaultSalt) : String :=
  let name := match id with
    | some id => if id.isEmpty then "none" else id
    | none => "none"
  String.ofList ((Sha256.hex (Sha256.digest (salt ++ name).toUTF8.toList)).take hashLength)

def levels : List String :=
  ["CRITICAL", "FATAL", "ERROR", "WARN", "WARNING", "INFO", "DEBUG", "NOTSET"]

def defaultLevel : String := "INFO"

def configuration (level : String) : Json :=
  .object
    [("version", .int 1),
      ("disable_existing_loggers", .bool false),
      ("formatters", .object
        [("default", .object
          [("format", .text "%(asctime)s %(levelname)s %(name)s %(message)s")])]),
      ("handlers", .object
        [("console", .object
          [("class", .text "logging.StreamHandler"), ("formatter", .text "default")])]),
      ("root", .object [("level", .text level), ("handlers", .arr [.text "console"])])]

end Colloquy.EventLog
