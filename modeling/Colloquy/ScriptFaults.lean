import Colloquy.Numerals

/-!
# What is wrong with a script

A script is refused for the first thing in it that breaks the grammar, with the line up to which
it has been read, or as a whole for a rule that it lacks.
-/

namespace Colloquy

/-- Where a script breaks the grammar: what had to come, or what must not come again. -/
inductive GrammarFault where
  | opening
  | closing
  | groupMember
  | keyword
  | ruleHead
  | className
  | equals
  | ruleItem
  | memorySize
  | secondMemory
  | secondRule (key : Word)
deriving DecidableEq

inductive FileFault where
  | missing
  | directory
  | nameTooLong
deriving DecidableEq

inductive ScriptFault where
  | grammar (fault : GrammarFault) (line : Nat)
  | noNoneRule
  | noMemoryRule
  | unknownMemoryKeyword (keyword : Word)
  | unreadable (path : String) (quotedPath : String) (fault : FileFault)
deriving DecidableEq

/-- Why a script cannot be loaded: it is refused, or a numeral in it is too long. -/
inductive LoadFault where
  | script (fault : ScriptFault)
  | oversized (numeral : Numerals.Oversized)
deriving DecidableEq

def GrammarFault.reason : GrammarFault → String
  | .opening => "expected '('"
  | .closing => "expected ')'"
  | .groupMember => "expected symbol"
  | .keyword => "expected keyword"
  | .ruleHead => "expected keyword|MEMORY|NONE"
  | .className => "expected equivalence class name"
  | .equals => "expected '='"
  | .ruleItem => "malformed rule"
  | .memorySize => "MEMORY rule must have exactly 4 transformations"
  | .secondMemory => "multiple MEMORY rules specified"
  | .secondRule key =>
    "keyword rule already specified for keyword '" ++ String.ofList key ++ "'"

/-- The wording of a fault of a file, with its number in the system's table of errors. -/
def FileFault.reason : FileFault → String
  | .missing => "[Errno 2] No such file or directory"
  | .directory => "[Errno 21] Is a directory"
  | .nameTooLong => "[Errno 36] File name too long"

namespace ScriptFault

def pageReference : String := "; see Jan 1966 CACM page 41"

def reason : ScriptFault → String
  | .grammar fault _ => fault.reason
  | .noNoneRule => "no NONE rule specified" ++ pageReference
  | .noMemoryRule => "no MEMORY rule specified" ++ pageReference
  | .unknownMemoryKeyword keyword =>
    "MEMORY rule keyword '" ++ String.ofList keyword ++ "' is not also a keyword in its own right"
      ++ pageReference
  | .unreadable path quotedPath fault =>
    "cannot read script file '" ++ path ++ "': " ++ fault.reason ++ ": " ++ quotedPath

/-- The line up to which the script has been read, if the fault has a place. -/
def line? : ScriptFault → Option Nat
  | .grammar _ line => some line
  | _ => none

def message (fault : ScriptFault) : String :=
  match fault.line? with
  | none => "Script error: " ++ fault.reason
  | some line => "Script error on line " ++ toString line ++ ": " ++ fault.reason

end ScriptFault

end Colloquy
