import Colloquy.BlankText
import Colloquy.LetterCase
import Colloquy.SettingValues

/-!
# Settings

Settings are given by name, without regard to case, as values of their own or as texts of the
environment; a value of its own wins. Every setting has a default. A value that does not fit is
refused, and all such values are reported together.
-/

namespace Colloquy

structure Settings where
  environment : String
  debugErrors : Int
  logLevel : String
  scriptPath : Option String
  cannedPhrases : Bool
  maxHops : Int
  maxSessions : Int
  maxInputChars : Int
  traceEnabled : Bool
deriving DecidableEq

namespace Settings

open SettingValue

structure Source where
  given : List (String × Json)
  environment : List (String × String)

/-- The spellings of a name among named values, in the order in which they come first. -/
def spellings {α : Type} (name : String) (entries : List (String × α)) : List String :=
  ((entries.map (·.1)).filter fun spelling =>
    LetterCase.lower spelling = LetterCase.lower name).eraseDups

def lastValue? {α : Type} (entries : List (String × α)) (spelling : String) : Option α :=
  entries.reverse.lookup spelling

/-- The value of a setting: the one given, or else the one of the environment. Of the spellings of
its name the first counts among the values given, and the last in the environment. -/
def Source.find? (source : Source) (name : String) : Option Json :=
  match (spellings name source.given).head? with
  | some spelling => lastValue? source.given spelling
  | none =>
    ((spellings name source.environment).getLast?.bind
      (lastValue? source.environment)).map .text

/-- A value that stands in until all settings are read, and what did not fit. -/
structure Checked (α : Type) where
  value : α
  faults : List (String × SettingFault)

def setting {α : Type} (source : Source) (name : String) (default : α)
    (read : Json → Except SettingFault α) : Checked α :=
  match source.find? name with
  | none => ⟨default, []⟩
  | some json =>
    match read json with
    | .ok value => ⟨value, []⟩
    | .error fault => ⟨default, [(name, fault)]⟩

/-- A text, or another one in place of the empty text. -/
def orElse (s other : String) : String :=
  if s.isEmpty then other else s

/-- A path without the blanks around it, nothing if none is left. -/
def path? (text : Option String) : Option String :=
  (text.map BlankText.stripped).filter (fun s => !s.isEmpty)

/-- The settings from a source, or the names of those that do not fit, in order. -/
def read (source : Source) : Except (List (String × SettingFault)) Settings :=
  let environment := setting source "APP_ENV" "dev" readText
  let debugErrors := setting source "DEBUG_ERRORS" 0 readInteger
  let maxInputChars := setting source "ELIZA_MAX_INPUT_CHARS" 2000 readInteger
  let maxHops := setting source "ELIZA_MAX_LINK_HOPS" 10000 readInteger
  let maxSessions := setting source "ELIZA_MAX_SESSIONS" 1000 readInteger
  let scriptPath := setting source "ELIZA_SCRIPT_PATH" none readOptionalText
  let traceEnabled := setting source "ELIZA_TRACE_ENABLED" false readTruth
  let cannedPhrases := setting source "ELIZA_USE_NOMATCH_MSGS" true readTruth
  let logLevel := setting source "LOG_LEVEL" "INFO" readText
  let faults := environment.faults ++ debugErrors.faults ++ maxInputChars.faults ++ maxHops.faults
    ++ maxSessions.faults ++ scriptPath.faults ++ traceEnabled.faults ++ cannedPhrases.faults
    ++ logLevel.faults
  if faults.isEmpty then
    .ok
      { environment := LetterCase.lower (orElse environment.value "dev")
        debugErrors := max 0 debugErrors.value
        logLevel := LetterCase.upper (BlankText.stripped (orElse logLevel.value "INFO"))
        scriptPath := path? scriptPath.value
        cannedPhrases := cannedPhrases.value
        maxHops := max 1 maxHops.value
        maxSessions := max 1 maxSessions.value
        maxInputChars := max 1 maxInputChars.value
        traceEnabled := traceEnabled.value }
  else .error faults

def scriptSource (s : Settings) : String :=
  s.scriptPath.getD "builtin:doctor"

def publicSummary (s : Settings) : List (String × Json) :=
  [("env", .text s.environment), ("log_level", .text s.logLevel), ("script", .text s.scriptSource),
    ("use_nomatch_msgs", .bool s.cannedPhrases), ("max_link_hops", .int s.maxHops),
    ("max_sessions", .int s.maxSessions), ("max_input_chars", .int s.maxInputChars),
    ("trace_enabled", .bool s.traceEnabled)]

/-- What should not be set in production. -/
def issues (s : Settings) : List String :=
  if s.environment = "prod" then
    (if s.debugErrors ≠ 0 then ["DEBUG_ERRORS must be 0 in prod"] else [])
      ++ (if s.traceEnabled then ["ELIZA_TRACE_ENABLED should be off in prod"] else [])
  else []

def summary (s : Settings) : List (String × Json) :=
  s.publicSummary ++ [("issues", .arr (s.issues.map .text))]

end Settings

end Colloquy
