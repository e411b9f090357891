import Colloquy.CardCode
import Colloquy.CyclePointers
import Colloquy.Decomposition
import Colloquy.MiddleSquare
import Colloquy.Reassembly

/-!
# Keyword rules

A rule belongs to a keyword. It may replace the keyword in a sentence, rank it among the other
keywords and put it under tags; its body says what is done with a sentence that holds it. A rule
changes nothing by itself: the cycle pointers are handed in and given back.
-/

namespace Colloquy

/-- The key of the rule that answers when nothing else does. Its lower-case letter keeps it apart
from every word of an input. -/
def noneKey : Word := ['z', 'N', 'O', 'N', 'E']

def memoryKey : Word := ['z', 'M', 'E', 'M', 'O', 'R', 'Y']

def noneKeyword : Word := ['N', 'O', 'N', 'E']

def memoryKeyword : Word := ['M', 'E', 'M', 'O', 'R', 'Y']

inductive Fault where
  /-- A numeral in a template has too many digits. -/
  | oversized (numeral : Numerals.Oversized)
  /-- The pattern that matched has no reassembly. -/
  | emptyCycle
  /-- The pointer of the pattern that matched is beyond its reassemblies. -/
  | missingReassembly
  /-- The memory rule has no pair at the place chosen. -/
  | missingPair
deriving DecidableEq

/-- A pattern and the reassemblies that it uses in turn. -/
structure Transformation where
  decomposition : Decomposition
  reassemblies : List Reassembly
deriving DecidableEq

/-- A pattern and the template of the memory made from it. -/
structure MemoryPair where
  decomposition : Decomposition
  template : List Word
deriving DecidableEq

inductive RuleBody where
  /-- It does nothing beyond replacing its keyword. -/
  | substitution
  /-- It does nothing beyond putting its keyword under tags. -/
  | tag
  /-- It sends the sentence on to another keyword. -/
  | link (target : Word)
  /-- It rewrites a sentence that matches and sends it on to another keyword. -/
  | pre (decomposition : Decomposition) (terms : List Word) (target : Word)
  /-- It uses the first pattern that matches; when none does it sends the sentence on, if it has
  a link. -/
  | transform (transformations : List Transformation) (link : Option Word)
  /-- It makes memories. -/
  | memory (pairs : List MemoryPair)
deriving DecidableEq

structure Rule where
  keyword : Word
  substitution : Option Word
  precedence : Int
  tags : List Word
  body : RuleBody
deriving DecidableEq

/-- The outcome of a rule, with the pattern and the reassembly that led to it if there are any. -/
structure Application where
  outcome : Outcome
  used : Option (Decomposition × Reassembly)
deriving DecidableEq

/-- The use of one reassembly: the pattern and the place of its pointer. -/
structure Selection where
  key : CycleKey
  place : Int
deriving DecidableEq

/-- A rule applied to a sentence: its outcome, the pointers afterwards, the reassembly taken in
turn, if one was, and the template filled, if one was. -/
structure Applied where
  result : Except Fault Application
  cycles : Cycles
  selection : Option Selection
  template : Option (List Word)

/-- The first transformation whose pattern matches, its place and the parts it takes. -/
def firstMatch (tags : Tags) (words : List Word) (index : Nat) :
    List Transformation → Option (Nat × Transformation × List Word)
  | [] => none
  | t :: ts =>
    match t.decomposition.apply tags words with
    | some parts => some (index, t, parts)
    | none => firstMatch tags words (index + 1) ts

namespace Rule

def written (text : Option Word) : Option Word :=
  text.filter (fun w => !w.isEmpty)

/-- What the rule puts in place of a word, if it replaces the word. -/
def substituteFor (r : Rule) (w : Word) : Option Word :=
  if w = r.keyword then written r.substitution else none

def hasTransformation (r : Rule) : Bool :=
  match r.body with
  | .substitution | .tag | .memory _ => false
  | .link _ | .pre .. => true
  | .transform transformations link => !transformations.isEmpty || (written link).isSome

def writtenKeyword (r : Rule) : Word :=
  if r.keyword = noneKey then noneKeyword else r.keyword

def applyTransformation (key : CycleKey) (t : Transformation) (parts : List Word)
    (cycles : Cycles) : Applied :=
  match cycles.advance? key t.reassemblies.length with
  | none => ⟨.error .emptyCycle, cycles, none, none⟩
  | some moved =>
    let place := cycles.peek key
    let chosen := itemAt? t.reassemblies place
    let result := match chosen with
      | none => .error .missingReassembly
      | some reassembly =>
        match reassembly.resolve parts with
        | .error e => .error (.oversized e)
        | .ok outcome => .ok ⟨outcome, some (t.decomposition, reassembly)⟩
    ⟨result, moved, some ⟨key, place⟩, chosen.bind Reassembly.template?⟩

def apply (r : Rule) (tags : Tags) (words : List Word) (cycles : Cycles) : Applied :=
  match r.body with
  | .substitution | .tag | .memory _ => ⟨.ok ⟨.inapplicable, none⟩, cycles, none, none⟩
  | .link target => ⟨.ok ⟨.link target none, none⟩, cycles, none, none⟩
  | .pre decomposition terms target =>
    match decomposition.apply tags words with
    | none => ⟨.ok ⟨.inapplicable, none⟩, cycles, none, none⟩
    | some parts =>
      match (Reassembly.pre terms target).resolve parts with
      | .error e => ⟨.error (.oversized e), cycles, none, some terms⟩
      | .ok outcome =>
        ⟨.ok ⟨outcome, some (decomposition, .pre terms target)⟩, cycles, none, some terms⟩
  | .transform transformations link =>
    match firstMatch tags words 0 transformations with
    | some (index, t, parts) => applyTransformation (r.keyword, index) t parts cycles
    | none =>
      match written link with
      | some target => ⟨.ok ⟨.link target none, none⟩, cycles, none, none⟩
      | none => ⟨.ok ⟨.inapplicable, none⟩, cycles, none, none⟩

end Rule

structure MemoryRule where
  keyword : Word
  pairs : List MemoryPair
deriving DecidableEq

/-- Why a sentence chooses no pair of a memory rule. -/
inductive PairFault where
  /-- The last cell of the sentence holds a character without a code. -/
  | uncoded (c : Char)
  /-- There is no pair at the place chosen. -/
  | missing
deriving DecidableEq

inductive Recollection where
  /-- There is nothing to remember. -/
  | nothing
  /-- The last word of the sentence has no code to choose a pair by. -/
  | uncoded
  /-- The text is to be remembered. -/
  | text (memory : Word)
deriving DecidableEq

def Rule.memory? (r : Rule) : Option MemoryRule :=
  match r.body with
  | .memory pairs => some ⟨r.keyword, pairs⟩
  | _ => none

namespace MemoryRule

def pairCount : Nat := 4

def hashBits : Nat := 2

/-- The place of the pair for a sentence: the hash of its last word. -/
def choose (m : MemoryRule) (words : List Word) : Except PairFault (Fin m.pairs.length) :=
  match CardCode.pack (words.getLast?.getD []) with
  | .error c => .error (.uncoded c)
  | .ok datum =>
    let place := MiddleSquare.hash datum hashBits
    if h : place < m.pairs.length then .ok ⟨place, h⟩ else .error .missing

/-- The template that a sentence fills when the given keyword is worked on, if it fills one. -/
def template? (m : MemoryRule) (tags : Tags) (keyword : Word) (words : List Word) :
    Option (List Word) :=
  if keyword = m.keyword then
    match m.choose words with
    | .error _ => none
    | .ok place =>
      (m.pairs[place].decomposition.apply tags words).map fun _ => m.pairs[place].template
  else none

/-- The memory that a sentence leaves when the given keyword is worked on. -/
def recollect (m : MemoryRule) (tags : Tags) (keyword : Word) (words : List Word) :
    Except Fault Recollection :=
  if keyword = m.keyword then
    match m.choose words with
    | .error (.uncoded _) => .ok .uncoded
    | .error .missing => .error .missingPair
    | .ok place =>
      match m.pairs[place].decomposition.apply tags words with
      | none => .ok .nothing
      | some parts =>
        match reassemble parts m.pairs[place].template with
        | .error e => .error (.oversized e)
        | .ok memory => .ok (.text (Words.join memory))
  else .ok .nothing

end MemoryRule

end Colloquy
