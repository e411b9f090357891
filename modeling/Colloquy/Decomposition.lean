import Colloquy.Numerals
import Colloquy.WordMap

/-!
# Decomposition patterns

A pattern is a list of terms. A numeral `n` above zero takes exactly `n` words, and zero takes any
number of them; `(*A B)` takes one of the words listed, `(/T)` a word with the tag `T`, and any
other term takes that one word. Matching cuts a sentence into one span of words for each term,
where a zero takes as few words as the rest of the pattern allows.
-/

namespace Colloquy

/-- The words that carry each tag. -/
abbrev Tags := WordMap (List Word)

/-- What one term of a pattern takes from a sentence. -/
inductive Element where
  | wildcard (count : Nat)
  | literal (word : Word)
  | anyOf (words : List Word)
  | tagged (tag : Word)
deriving DecidableEq

namespace Element

/-- The element takes the given word. Wildcards take words by number only. -/
def accepts (tags : Tags) (w : Word) : Element → Bool
  | .wildcard _ => false
  | .literal word => w == word
  | .anyOf words => words.contains w
  | .tagged tag => ((tags.get? tag).getD []).contains w

/-- What stands between the brackets of a group; either bracket may be missing. -/
def groupBody (spec : Word) : Word :=
  let opened := if spec.getLast? = some ')' then spec.dropLast else spec
  if opened.head? = some '(' then opened.tail else opened

/-- The element of a bracketed group. A group that lists no words and names no tag takes nothing. -/
def ofGroup (spec : Word) : Element :=
  match groupBody spec with
  | '*' :: list => .anyOf (Words.split list)
  | '/' :: tag => .tagged (tag.dropWhile (· == ' '))
  | _ => .anyOf []

def ofTerm (term : Word) : Except Numerals.Oversized Element :=
  match Numerals.read term with
  | .error e => .error e
  | .ok (some n) => .ok (.wildcard n)
  | .ok none => .ok (if term.head? = some '(' then ofGroup term else .literal term)

def ofTerms : List Word → Except Numerals.Oversized (List Element)
  | [] => .ok []
  | term :: terms =>
    match ofTerm term with
    | .error e => .error e
    | .ok element => (ofTerms terms).map (element :: ·)

end Element

/-- The shortest span of words in front after which the rest fits, and how the rest fits. -/
def shortest {α : Type} (fit : List Word → Option α) : List Word → Option (List Word × α)
  | [] => (fit []).map ([], ·)
  | w :: words =>
    match fit (w :: words) with
    | some rest => some ([], rest)
    | none => (shortest fit words).map fun (span, rest) => (w :: span, rest)

/-- The spans into which a pattern cuts a sentence, one for each element and the shortest first. -/
def spans (tags : Tags) : List Element → List Word → Option (List (List Word))
  | [], words => if words.isEmpty then some [] else none
  | .wildcard 0 :: elements, words =>
    (shortest (spans tags elements) words).map fun (span, rest) => span :: rest
  | .wildcard (n + 1) :: elements, words =>
    if n + 1 ≤ words.length then
      (spans tags elements (words.drop (n + 1))).map (words.take (n + 1) :: ·)
    else none
  | _ :: _, [] => none
  | element :: elements, w :: words =>
    if element.accepts tags w then (spans tags elements words).map ([w] :: ·) else none

/-- The parts of a sentence that a pattern takes, one for each element, as texts. -/
def components (tags : Tags) (elements : List Element) (words : List Word) : Option (List Word) :=
  (spans tags elements words).map (·.map Words.join)

/-- A pattern whose terms have been read as elements. -/
structure Decomposition where
  terms : List Word
  elements : List Element
  elements_eq : Element.ofTerms terms = .ok elements

namespace Decomposition

theorem eq_of_terms_eq {a b : Decomposition} (h : a.terms = b.terms) : a = b := by
  obtain ⟨terms, elements, ha⟩ := a
  obtain ⟨_, _, hb⟩ := b
  cases h
  cases Except.ok.inj (ha.symm.trans hb)
  rfl

instance : DecidableEq Decomposition := fun a b =>
  decidable_of_iff (a.terms = b.terms) ⟨eq_of_terms_eq, fun h => h ▸ rfl⟩

def ofTerms (terms : List Word) : Except Numerals.Oversized Decomposition :=
  match h : Element.ofTerms terms with
  | .error e => .error e
  | .ok elements => .ok ⟨terms, elements, h⟩

def apply (d : Decomposition) (tags : Tags) (words : List Word) : Option (List Word) :=
  components tags d.elements words

end Decomposition

end Colloquy
