import Colloquy.Numerals

/-!
# Reassembly of a sentence from its parts

A template is a list of terms: a numeral stands for the words of the part it counts to, any other
term for itself. A reassembly is a template to answer with, an order to try the next keyword or
another one, or a template to rewrite the sentence with before another keyword is tried.
-/

namespace Colloquy

/-- Stands in an answer for a part that the sentence does not have. -/
def missingPart : Word :=
  "SCRIPT-ERROR-REASSEMBLY-RULE-INDEX-OUT-OF-RANGE".toList

/-- The words that the `n`-th part contributes, counted from one. -/
def partWords (parts : List Word) : Nat → List Word
  | 0 => [missingPart]
  | n + 1 =>
    match parts[n]? with
    | some part => Words.split part
    | none => [missingPart]

def expandTerm (parts : List Word) (term : Word) : Except Numerals.Oversized (List Word) :=
  match Numerals.read term with
  | .error e => .error e
  | .ok none => .ok [term]
  | .ok (some n) => .ok (partWords parts n)

def reassemble (parts : List Word) : List Word → Except Numerals.Oversized (List Word)
  | [] => .ok []
  | term :: terms =>
    match expandTerm parts term with
    | .error e => .error e
    | .ok words => (reassemble parts terms).map (words ++ ·)

/-- What is done with a sentence once a pattern has matched it. -/
inductive Reassembly where
  | template (terms : List Word)
  | newKey
  | link (target : Word)
  | pre (terms : List Word) (target : Word)
deriving DecidableEq

inductive Outcome where
  /-- No pattern matched. -/
  | inapplicable
  /-- The words are the answer. -/
  | complete (words : List Word)
  /-- The next keyword is to be tried. -/
  | newKey
  /-- The target is to be tried, with the words in place of the sentence if there are any. -/
  | link (target : Word) (words : Option (List Word))
deriving DecidableEq

namespace Reassembly

def newKeyWord : Word := ['N', 'E', 'W', 'K', 'E', 'Y']

/-- Tells the two orders that are written as a single word from templates. -/
def ofTerms : List Word → Reassembly
  | ['=' :: c :: target] => .link (c :: target)
  | terms => if terms = [newKeyWord] then .newKey else .template terms

def template? : Reassembly → Option (List Word)
  | .template terms | .pre terms _ => some terms
  | .newKey | .link _ => none

def resolve (parts : List Word) : Reassembly → Except Numerals.Oversized Outcome
  | .template terms => (reassemble parts terms).map .complete
  | .newKey => .ok .newKey
  | .link target => .ok (.link target none)
  | .pre terms target => (reassemble parts terms).map fun words => .link target (some words)

end Reassembly

end Colloquy
