import Colloquy.ScriptWriter
import Colloquy.TurnEvents

/-!
# Traces of turns

A tracer is told of the events of turns one by one and keeps a text of them. The report describes every
step of the latest turn in lines of text; the record of sentences lists each sentence that was worked
on, with its keyword, over all turns. A report tells the ranks of keywords, so the event of a keystack
with a rank of too many digits cannot be told to it.
-/

namespace Colloquy

namespace TurnTrace

def reassemblyText : Reassembly → List Char
  | .template terms => Words.join terms
  | .newKey => Reassembly.newKeyWord
  | .link target => '=' :: target
  | .pre terms target => Words.join (ScriptWriter.preWords terms target)

def standingText : Standing → Except Numerals.Oversized String
  | .unknown => .ok "<unknown keyword>"
  | .inert => .ok "<no transform associated with this keyword>"
  | .ranked precedence => Numerals.text precedence

def entryText (entry : Word × Standing) : Except Numerals.Oversized String :=
  (standingText entry.2).map fun detail => String.ofList entry.1 ++ "(" ++ detail ++ ")"

def applicationText (application : Application) : String :=
  match application.used, application.outcome with
  | some (decomposition, reassembly), _ =>
    "    matching decomposition: " ++ String.ofList (Words.join decomposition.terms) ++ "\n"
      ++ "      matching reassembly: " ++ String.ofList (reassemblyText reassembly) ++ "\n"
  | none, .link target _ =>
    "    reference to equivalence class: " ++ String.ofList target ++ "\n"
  | none, _ => "    ill-formed script: no decomposition rule matches\n"

def keystackText : List (Word × Standing) → Except Numerals.Oversized String
  | [] => .ok "  keyword stack: <empty>\n"
  | entries =>
    (entries.mapM entryText).map fun texts =>
      "  keyword stack: " ++ ", ".intercalate texts ++ "\n"

/-- The lines that an event adds to the report of a turn. -/
def eventText : Event → Except Numerals.Oversized String
  | .keystack entries => keystackText entries
  | .started limit => .ok ("  LIMIT: " ++ toString limit ++ "\n")
  | .memories waiting =>
    .ok ("  memory stack:\n"
      ++ String.join (waiting.map fun memory => "    " ++ String.ofList memory ++ "\n"))
  | .unknownKeyword keyword =>
    .ok ("  ill-formed script: \"" ++ String.ofList keyword ++ "\" is not a keyword\n")
  | .recollected _ (.text memory) => .ok ("    new memory: " ++ String.ofList memory ++ "\n")
  | .applied rule words application =>
    .ok (if rule.hasTransformation then
      "    keyword: " ++ String.ofList rule.keyword ++ "\n"
        ++ "    input: " ++ String.ofList (Words.join words) ++ "\n"
        ++ applicationText application
    else "")
  | .noMatch _ => .ok "  ill-formed script: no decomposition rule matched input\n"
  | .recalling => .ok "  (recalling a stored memory)\n"
  | .fellBack _ => .ok "  (using a message from NONE)\n"
  | _ => .ok ""

/-- The lines that an event adds to the record of sentences. -/
def sentenceText : Event → String
  | .working keyword words =>
    String.ofList (Words.join words) ++ "   :" ++ String.ofList keyword ++ "\n"
  | _ => ""

end TurnTrace

/-- What is kept of the turns of a conversation. -/
inductive Tracer where
  /-- Nothing is kept. -/
  | silent
  /-- The report of the latest turn. -/
  | report (text : String)
  /-- All sentences worked on. -/
  | sentences (text : String)
deriving DecidableEq

namespace Tracer

def begun : Tracer → Tracer
  | .report _ => .report ""
  | tracer => tracer

def see (event : Event) : Tracer → Except Numerals.Oversized Tracer
  | .silent => .ok .silent
  | .report text => (TurnTrace.eventText event).map fun lines => .report (text ++ lines)
  | .sentences text => .ok (.sentences (text ++ TurnTrace.sentenceText event))

def text? : Tracer → Option String
  | .silent => none
  | .report text | .sentences text => some text

/-- The tracer without its report; other tracers cannot be cleared. -/
def cleared? : Tracer → Option Tracer
  | .report _ => some (.report "")
  | .silent | .sentences _ => none

end Tracer

end Colloquy
