import Colloquy.BracketLevels
import Colloquy.Script
import Colloquy.ScriptFaults

/-!
# Reading scripts

A script is a greeting list, the word START or not, and rules. A rule is empty, or it is the rule
that makes memories, or it begins with its keyword: a substitution `= WORD`, a precedence, tags
`DLIST(...)` and transformations follow in any order, and a reference `(=KEYWORD)` may come last.
What a rule is depends on what it holds. Reading stops at the first item that breaks the grammar,
and the fault names the line up to which the text has been read then.
-/

namespace Colloquy

/-- A result of reading, or why the script cannot be loaded. -/
abbrev Reading (α : Type) := Except LoadFault α

namespace ScriptReader

def startWord : Word := ['S', 'T', 'A', 'R', 'T']

def tagsWord : Word := ['D', 'L', 'I', 'S', 'T']

def preWord : Word := ['P', 'R', 'E']

/-- The word in front of a substitution, and between pattern and template of a memory. -/
def equalsWord : Word := ['=']

def refuse {α : Type} (fault : GrammarFault) (line : Nat) : Reading α :=
  .error (.script (.grammar fault line))

/-- Passes a numeral that is too long on as a reason not to load the script. -/
def sized {α : Type} : Except Numerals.Oversized α → Reading α
  | .error e => .error (.oversized e)
  | .ok a => .ok a

/-- The line up to which the text is read when the first of the items, or the end, is looked at. -/
def lineAt (items : List Item) (ending : Ending) : Nat :=
  Level.line ⟨items, ending⟩

def close (ending : Ending) : List Item → Reading Unit
  | [] =>
    match ending with
    | .bracket _ => .ok ()
    | .text line => refuse .closing line
  | item :: _ => refuse .closing item.line

def groupMembers (ending : Ending) : List Item → Reading (List Word)
  | [] =>
    match ending with
    | .bracket _ => .ok []
    | .text line => refuse .groupMember line
  | .symbol name _ :: rest => do return name :: (← groupMembers ending rest)
  | item :: _ => refuse .groupMember item.line

/-- The word that a group is kept as: its members with single spaces, in brackets. -/
def groupWord (members : List Word) : Word :=
  '(' :: [' '].intercalate members ++ [')']

def word : Item → Reading Word
  | .number digits _ => .ok digits
  | .symbol name _ => .ok name
  | .list items ending _ => do return groupWord (← groupMembers ending items)

def words (ending : Ending) : List Item → Reading (List Word)
  | [] =>
    match ending with
    | .bracket _ => .ok []
    | .text line => refuse .closing line
  | item :: rest => do return (← word item) :: (← words ending rest)

/-- The words of the list that has to come first, and the items after it. -/
def takeList (ending : Ending) : List Item → Reading (List Word × List Item)
  | .list items inner _ :: rest => do return (← words inner items, rest)
  | items => refuse .opening (lineAt items ending)

/-- The target of a reference that has been read as a list of words. -/
def target? : List Word → Option Word
  | ['=' :: c :: target] => some (c :: target)
  | [['='], target] => some target
  | _ => none

def reassembly (items : List Item) (ending : Ending) : Reading Reassembly :=
  match items with
  | .symbol name _ :: rest =>
    if name = preWord then do
      let (terms, rest) ← takeList ending rest
      let (reference, rest) ← takeList ending rest
      close ending rest
      match target? reference with
      | some target => .ok (.pre terms target)
      | none => refuse .className ending.line
    else do return Reassembly.ofTerms (← words ending items)
  | _ => do return Reassembly.ofTerms (← words ending items)

def reassemblies (ending : Ending) : List Item → Reading (List Reassembly)
  | .list items inner _ :: rest => do
    return (← reassembly items inner) :: (← reassemblies ending rest)
  | items => do
    close ending items
    return []

/-- A transformation whose pattern is still a list of terms. -/
structure PatternDraft where
  terms : List Word
  reassemblies : List Reassembly

def transformation (items : List Item) (ending : Ending) : Reading PatternDraft := do
  let (terms, rest) ← takeList ending items
  match rest with
  | .list .. :: _ => return ⟨terms, ← reassemblies ending rest⟩
  | _ => refuse .opening (lineAt rest ending)

/-- The target of the reference in a list, written with or without a space after the sign. -/
def reference (items : List Item) (ending : Ending) : Reading Word :=
  match items with
  | .symbol ['='] _ :: .symbol target _ :: rest => do
    close ending rest
    return target
  | .symbol ['='] _ :: rest => refuse .className (lineAt rest ending)
  | .symbol ('=' :: target) _ :: rest => do
    close ending rest
    return target
  | _ => refuse .className (lineAt items ending)

def isReference : List Item → Bool
  | .symbol ('=' :: _) _ :: _ => true
  | _ => false

structure RuleDraft where
  substitution : Option Word
  precedence : Nat
  tags : List Word
  patterns : List PatternDraft
  link : Option Word

def RuleDraft.bare : RuleDraft := ⟨none, 0, [], [], none⟩

def ruleItems (ending : Ending) (draft : RuleDraft) : List Item → Reading RuleDraft
  | [] =>
    match ending with
    | .bracket _ => .ok draft
    | .text line => refuse .ruleItem line
  | .number digits _ :: rest => do
    let precedence ← sized (Numerals.valueWithin digits)
    ruleItems ending { draft with precedence := precedence } rest
  | .symbol name line :: rest =>
    if name = equalsWord then
      match rest with
      | .symbol substitute _ :: rest =>
        ruleItems ending { draft with substitution := some substitute } rest
      | rest => refuse .keyword (lineAt rest ending)
    else if name = tagsWord then
      match rest with
      | .list items inner _ :: rest => do
        let tags ← words inner items
        ruleItems ending { draft with tags := tags } rest
      | rest => refuse .opening (lineAt rest ending)
    else refuse .ruleItem line
  | .list items inner _ :: rest =>
    if isReference items then do
      let target ← reference items inner
      close ending rest
      return { draft with link := some target }
    else do
      let pattern ← transformation items inner
      ruleItems ending { draft with patterns := draft.patterns ++ [pattern] } rest

def compile : List PatternDraft → Except Numerals.Oversized (List Transformation)
  | [] => .ok []
  | draft :: drafts => do
    let decomposition ← Decomposition.ofTerms draft.terms
    return ⟨decomposition, draft.reassemblies⟩ :: (← compile drafts)

def bodyOf (draft : RuleDraft) : Except Numerals.Oversized RuleBody :=
  match draft.patterns, draft.link with
  | [], some target => .ok (.link target)
  | [], none => .ok (if draft.tags.isEmpty then .substitution else .tag)
  | [⟨pattern, [.pre terms target]⟩], none => do
    return .pre (← Decomposition.ofTerms pattern) terms target
  | patterns, link => do return .transform (← compile patterns) link

def keyOf (keyword : Word) : Word :=
  if keyword = noneKeyword then noneKey else keyword

def keywordRule (rules : WordMap Rule) (keyword : Word) (line : Nat) (items : List Item)
    (ending : Ending) : Reading (WordMap Rule) :=
  let key := keyOf keyword
  if rules.contains key then refuse (.secondRule key) line
  else do
    let draft ← ruleItems ending .bare items
    let body ← sized (bodyOf draft)
    return rules.insert key ⟨key, draft.substitution, draft.precedence, draft.tags, body⟩

/-- The terms of the pattern of a memory, up to the equals sign, and the items after it. -/
def memoryPattern (ending : Ending) : List Item → Reading (List Word × List Item)
  | [] =>
    match ending with
    | .bracket line => refuse .equals line
    | .text line => refuse .closing line
  | .symbol name _ :: rest =>
    if name = equalsWord then .ok ([], rest)
    else do
      let (terms, rest) ← memoryPattern ending rest
      return (name :: terms, rest)
  | item :: rest => do
    let term ← word item
    let (terms, rest) ← memoryPattern ending rest
    return (term :: terms, rest)

/-- The terms of the template of a memory, which holds no groups. -/
def memoryTemplate (ending : Ending) : List Item → Reading (List Word)
  | [] =>
    match ending with
    | .bracket _ => .ok []
    | .text line => refuse .closing line
  | .number digits _ :: rest => do return digits :: (← memoryTemplate ending rest)
  | .symbol name _ :: rest => do return name :: (← memoryTemplate ending rest)
  | .list _ _ line :: _ => refuse .closing line

def memoryPair (items : List Item) (ending : Ending) : Reading MemoryPair := do
  let (terms, rest) ← memoryPattern ending items
  let template ← memoryTemplate ending rest
  return ⟨← sized (Decomposition.ofTerms terms), template⟩

def memoryPairs (ending : Ending) : Nat → List Item → Reading (List MemoryPair)
  | 0, [] =>
    match ending with
    | .bracket _ => .ok []
    | .text line => refuse .closing line
  | 0, .list _ _ line :: _ => refuse .memorySize line
  | 0, item :: _ => refuse .closing item.line
  | _ + 1, [] =>
    match ending with
    | .bracket line => refuse .memorySize line
    | .text line => refuse .opening line
  | n + 1, .list items inner _ :: rest => do
    return (← memoryPair items inner) :: (← memoryPairs ending n rest)
  | _ + 1, item :: _ => refuse .opening item.line

def memoryRule (rules : WordMap Rule) (items : List Item) (ending : Ending) :
    Reading (WordMap Rule) :=
  match items with
  | .symbol keyword line :: rest =>
    if rules.contains memoryKey then refuse .secondMemory line
    else do
      let pairs ← memoryPairs ending MemoryRule.pairCount rest
      return rules.insert memoryKey ⟨keyword, none, 0, [], .memory pairs⟩
  | _ => refuse .keyword (lineAt items ending)

/-- Adds the rule in a list. An empty list is no rule. -/
def rule (rules : WordMap Rule) (items : List Item) (ending : Ending) : Reading (WordMap Rule) :=
  match items with
  | [] =>
    match ending with
    | .bracket _ => .ok rules
    | .text line => refuse .ruleHead line
  | .symbol name line :: rest =>
    if name = memoryKeyword then memoryRule rules rest ending
    else keywordRule rules name line rest ending
  | item :: _ => refuse .ruleHead item.line

def rules (known : WordMap Rule) (ending : Ending) : List Item → Reading (WordMap Rule)
  | [] =>
    match ending with
    | .bracket line => refuse .opening line
    | .text _ => .ok known
  | .list items inner _ :: rest => do rules (← rule known items inner) ending rest
  | item :: _ => refuse .opening item.line

/-- The items after the word START, if it comes first. -/
def skipStart : List Item → List Item
  | .symbol name line :: rest => if name = startWord then rest else .symbol name line :: rest
  | items => items

def checked (script : Script) : Except ScriptFault Script :=
  if script.rules.contains noneKey then
    match script.rules.get? memoryKey with
    | none => .error .noMemoryRule
    | some memory =>
      if script.rules.contains memory.keyword then .ok script
      else .error (.unknownMemoryKeyword memory.keyword)
  else .error .noNoneRule

def script (level : Level) : Reading Script := do
  let (greeting, rest) ← takeList level.ending level.items
  let rules ← rules WordMap.empty level.ending (skipStart rest)
  (checked ⟨greeting, rules⟩).mapError .script

end ScriptReader

/-- Reads a script from the lexemes that a scanner of the text passes. -/
def Script.read (text : List Char) : Reading Script :=
  ScriptReader.script (Level.read (Scanner.start text).rest)

end Colloquy
