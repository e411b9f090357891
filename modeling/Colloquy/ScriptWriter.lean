import Colloquy.Script
import Colloquy.ScriptReader

/-!
# Writing scripts

A script is written in one form: its greeting, its keyword rules in the order of their keys and
last the rule that makes memories. Each pattern and each reassembly has a line of its own.
-/

namespace Colloquy.ScriptWriter

def bracketed (words : List Word) : List Char :=
  '(' :: Words.join words ++ [')']

def reference (target : Word) : List Char :=
  ['(', '='] ++ target ++ [')']

/-- The words of a rewriting reassembly, brackets included. -/
def preWords (terms : List Word) (target : Word) : List Word :=
  [['('], ScriptReader.preWord, ['(']] ++ terms ++ [[')'], ['('], '=' :: target, [')'], [')']]

def reassembly : Reassembly → List Char
  | .template terms => bracketed terms
  | .newKey => bracketed [Reassembly.newKeyWord]
  | .link target => reference target
  | .pre terms target => Words.join (preWords terms target)

def newLine (indent : Nat) : List Char :=
  '\n' :: List.replicate indent ' '

def transformation (terms : List Word) (reassemblies : List Reassembly) : List Char :=
  newLine 4 ++ ['('] ++ bracketed terms
    ++ reassemblies.flatMap (fun r => newLine 8 ++ reassembly r) ++ [')']

def transformations : RuleBody → List (List Word × List Reassembly)
  | .transform ts _ => ts.map fun t => (t.decomposition.terms, t.reassemblies)
  | .pre decomposition terms target => [(decomposition.terms, [.pre terms target])]
  | _ => []

def link? : RuleBody → Option Word
  | .link target => Rule.written (some target)
  | .transform _ link => Rule.written link
  | _ => none

/-- The part of a keyword rule between its keyword and its patterns. -/
def ruleHead (r : Rule) : List Char :=
  (match Rule.written r.substitution with
    | some substitute => [' ', '=', ' '] ++ substitute
    | none => [])
  ++ (if r.tags.isEmpty then [] else ' ' :: ScriptReader.tagsWord ++ bracketed r.tags)
  ++ (if 0 < r.precedence then ' ' :: Numerals.write r.precedence.toNat else [])

/-- The reference at the end of a keyword rule, which stands below the patterns if there are any. -/
def ruleLink (body : RuleBody) : List Char :=
  match link? body with
  | none => []
  | some target =>
    (if (transformations body).isEmpty then [] else newLine 3) ++ ' ' :: reference target

def keywordRule (r : Rule) : List Char :=
  '(' :: r.writtenKeyword ++ ruleHead r
    ++ (transformations r.body).flatMap (fun t => transformation t.1 t.2)
    ++ ruleLink r.body ++ [')', '\n']

def memoryRule (m : MemoryRule) : List Char :=
  '(' :: memoryKeyword ++ ' ' :: m.keyword
    ++ m.pairs.flatMap (fun pair =>
      newLine 4 ++ ['('] ++ Words.join pair.decomposition.terms ++ [' ', '=', ' ']
        ++ Words.join pair.template ++ [')'])
    ++ [')', '\n']

def rule (r : Rule) : List Char :=
  match r.memory? with
  | some m => memoryRule m
  | none => keywordRule r

end ScriptWriter

def Script.write (s : Script) : List Char :=
  ScriptWriter.bracketed s.greeting ++ ['\n']
    ++ s.keywordRules.entries.flatMap (fun entry => ScriptWriter.keywordRule entry.2)
    ++ (match s.memoryRule? with
      | some m => ScriptWriter.memoryRule m
      | none => [])

/-- The first rank to be written that has too many digits. -/
def Script.unwritten? (s : Script) : Option Numerals.Oversized :=
  s.keywordRules.entries.findSome? fun (entry : Word × Rule) =>
    if 0 < entry.2.precedence then
      match Numerals.text entry.2.precedence with
      | .error numeral => some numeral
      | .ok _ => none
    else none

end Colloquy
