import Colloquy.DoctorScript
import Colloquy.EventLog
import Colloquy.Notices
import Colloquy.RequestName
import Colloquy.ScriptFile
import Colloquy.SessionRegistry
import Colloquy.Settings

/-!
# The chat service

The service answers requests over HTTP: it begins and ends sessions, passes messages to them and
shows its script and its health. A message that it cannot use leaves the sessions as they are. A
fault of a turn is answered without its cause, unless the settings ask for it. Fresh names for
sessions and requests are handed in.
-/

namespace Colloquy

/-- The service between two requests. -/
structure ChatService where
  settings : Settings
  /-- The salt of the names under which the log speaks of sessions. -/
  salt : String
  registry : SessionRegistry

inductive Refusal where
  | unknownSession
  | invalidJson
  | blankText
  | invalidMessage
  | longText (limit : Int)
deriving DecidableEq

inductive ServiceFault where
  | turn (fault : Fault)
  | start (fault : StartFault)
  /-- A rank of the script has too many digits to be shown. -/
  | script (numeral : Numerals.Oversized)
deriving DecidableEq

inductive Content where
  | json (value : Json)
  | text (value : String)

structure Response where
  status : Nat
  content : Content
  requestName : Option String

/-- An answered request: the response, the service afterwards, the notices and the fault, if the
request has failed. -/
structure Answered where
  response : Response
  service : ChatService
  notices : List Notice
  fault : Option ServiceFault

inductive Request where
  | health
  | script
  | create (freshSession : String)
  | message (session : String) (body : List UInt8)
  | delete (session : String)

def Fault.message : Fault → String
  | .oversized numeral => numeral.message
  | .emptyCycle => "integer modulo by zero"
  | .missingReassembly | .missingPair => "tuple index out of range"

def ServiceFault.message : ServiceFault → String
  | .turn fault => fault.message
  | .start fault => fault.message
  | .script numeral => numeral.message

namespace Refusal

def status : Refusal → Nat
  | .unknownSession => 404
  | _ => 400

def kind : Refusal → String
  | .unknownSession => "SESSION_NOT_FOUND"
  | .invalidJson | .invalidMessage => "REQUEST_SCHEMA_INVALID"
  | .blankText => "EMPTY_INPUT"
  | .longText _ => "REQUEST_TOO_LARGE"

def message : Refusal → String
  | .unknownSession => "Unknown session."
  | .invalidJson => "Request body must be valid JSON."
  | .blankText => "text must not be empty."
  | .invalidMessage => "Invalid request body."
  | .longText limit => "text must be at most " ++ toString limit ++ " characters."

def maxLength : Nat := 200

def response (r : Refusal) (requestName : String) : Response :=
  { status := r.status
    content := .json (.object
      [("ok", .bool false), ("failure_type", .text r.kind),
        ("message", .text (String.ofList (r.message.toList.take maxLength)))])
    requestName := some requestName }

def notices : Refusal → List Notice
  | .invalidJson | .invalidMessage => [.requestRejected]
  | _ => []

end Refusal

/-- A message as it is posted: its text without surrounding blanks, and whether its turn is to be
reported. -/
structure Message where
  text : List Char
  trace : Bool

namespace Message

def isKnown (field : JsonString × Json) : Bool :=
  field.1 == some "text" || field.1 == some "trace"

def trace? (fields : List (JsonString × Json)) : Option Bool :=
  match Json.field? fields "trace" with
  | none => some false
  | some (.bool b) => some b
  | some _ => none

def ofFields (fields : List (JsonString × Json)) (limit : Int) : Except Refusal Message :=
  match Json.field? fields "text" with
  | some (.str (some s)) =>
    let text := BlankText.strip s.toList
    if text.isEmpty then .error .blankText
    else
      match fields.all isKnown, trace? fields with
      | true, some trace =>
        if limit < text.length then .error (.longText limit) else .ok ⟨text, trace⟩
      | _, _ => .error .invalidMessage
  | _ => .error .invalidMessage

def ofBody (body : List UInt8) (limit : Int) : Except Refusal Message :=
  match (TextEncoding.json? body).bind Json.read? with
  | none => .error .invalidJson
  | some (.obj fields) => ofFields fields limit
  | some _ => .error .invalidMessage

end Message

namespace ChatService

def version : String := "2026.1.0"

def success (content : Content) (requestName : Option String) : Response :=
  ⟨200, content, requestName⟩

def maxDetail : Nat := 300

def failure (settings : Settings) (fault : ServiceFault) : Response :=
  let detail := if settings.debugErrors = 1 then
    [("detail", Json.text (String.ofList (fault.message.toList.take maxDetail)))] else []
  { status := 500
    content := .json (.object
      ([("ok", .bool false), ("failure_type", .text "INTERNAL_ERROR_SANITIZED"),
        ("message", .text "Internal server error")] ++ detail))
    requestName := none }

def failed (s : ChatService) (fault : ServiceFault) (notices : List Notice) : Answered :=
  ⟨failure s.settings fault, s, notices ++ [.requestFailed], some fault⟩

def refused (s : ChatService) (refusal : Refusal) (requestName : String) : Answered :=
  ⟨refusal.response requestName, s, refusal.notices, none⟩

def logged (s : ChatService) (event session requestName : String) (more : List (String × Json)) :
    Notice :=
  .structured (EventLog.line (.object
    ([("event", .text event), ("session", .text (EventLog.sessionHash (some session) s.salt)),
      ("request_id", .text requestName)] ++ more)))

def create (s : ChatService) (id requestName : String) : Answered :=
  match s.registry.create id with
  | .error fault => s.failed (.start fault) []
  | .ok created =>
    let content := .json (.object
      [("session_id", .text id), ("greeting", .text (String.ofList created.session.greeting))])
    ⟨success content (some requestName), { s with registry := created.registry },
      created.evicted.map (fun _ => .sessionEvicted) ++
        [s.logged "session_created" id requestName []],
      none⟩

def delete (s : ChatService) (id requestName : String) : Answered :=
  match s.registry.delete id with
  | (false, _) => s.refused .unknownSession requestName
  | (true, registry) =>
    ⟨success (.json (.object [("status", .text "ok")])) (some requestName),
      { s with registry := registry }, [s.logged "session_deleted" id requestName []], none⟩

/-- Says the text of a message in a session that has just been used. -/
def converse (s : ChatService) (id requestName : String) (session : Session) (message : Message) :
    Answered :=
  let traced := message.trace && s.settings.traceEnabled
  let tracer := if traced then Tracer.report "" else .silent
  let spoken := (session.watchedBy tracer).say message.text
  let s := { s with registry := s.registry.touch id (spoken.session.watchedBy .silent) }
  let notices := Notice.ofEvents spoken.events
  match spoken.reply with
  | .error fault => s.failed (.turn fault) notices
  | .ok reply =>
    let state := spoken.session.state
    let content := .json (.object
      [("session_id", .text id), ("response", .text (String.ofList reply)),
        ("turn", .int state.turns), ("trace", .textOrNull spoken.session.tracer.text?)])
    ⟨success content (some requestName), s,
      notices ++ [s.logged "message" id requestName
        [("turn", .int state.turns), ("limit", .int state.limit),
          ("text", .text (String.ofList message.text))]],
      none⟩

/-- Passes a message to a session. The session counts as used even if the message is refused. -/
def post (s : ChatService) (id requestName : String) (body : List UInt8) : Answered :=
  match s.registry.get? id with
  | none => s.refused .unknownSession requestName
  | some (session, registry) =>
    let s := { s with registry := registry }
    match Message.ofBody body s.settings.maxInputChars with
    | .error refusal => s.refused refusal requestName
    | .ok message => s.converse id requestName session message

def showScript (s : ChatService) : Answered :=
  match s.registry.script.unwritten? with
  | some numeral => s.failed (.script numeral) []
  | none => ⟨success (.text (String.ofList s.registry.script.write)) none, s, [], none⟩

/-- Answers a request. The name of the request is its own or a fresh one. -/
def answer (s : ChatService) (requestName : String) : Request → Answered
  | .health =>
    ⟨success (.json (.object [("status", .text "ok"), ("version", .text version)])) none, s, [],
      none⟩
  | .script => s.showScript
  | .create id => s.create id requestName
  | .message id body => s.post id requestName body
  | .delete id => s.delete id requestName

inductive StartupFault where
  | unknownLevel
  | script (fault : FileLoadFault)

def unknownLevelMessage : String := "Unable to configure root logger"

def ofScript (settings : Settings) (script : Script) (salt : String := EventLog.defaultSalt) :
    ChatService :=
  ⟨settings, salt,
    SessionRegistry.start script ⟨settings.cannedPhrases, settings.maxHops⟩ settings.maxSessions⟩

/-- The notices on a script that cannot be loaded. Only a refused script is told of. -/
def loadNotices : FileLoadFault → List Notice
  | .load (.script _) => [.scriptRejected]
  | .load (.oversized _) | .undecodable | .nullInPath => []

/-- The script that the settings name, or the built-in one. -/
def configuredScript (settings : Settings) (file : String → FileContent) :
    Except FileLoadFault Script :=
  match settings.scriptPath with
  | none => DoctorScript.load.mapError .load
  | some path => ScriptFile.load path (file path)

/-- Starts the service, over a script that is given or over the one that the settings name. The
environment may have a salt of its own for the log. -/
def start (settings : Settings) (given : Option Script) (file : String → FileContent)
    (salt? : Option String := none) : Except StartupFault ChatService × List Notice :=
  let salt := EventLog.salt salt?
  if EventLog.levels.contains settings.logLevel then
    match given with
    | some script => (.ok (ofScript settings script salt), [.settingsLoaded])
    | none =>
      match configuredScript settings file with
      | .error fault => (.error (.script fault), .settingsLoaded :: loadNotices fault)
      | .ok script =>
        (.ok (ofScript settings script salt), [.settingsLoaded, Notice.ofScript script])
  else (.error .unknownLevel, [])

end ChatService

end Colloquy
