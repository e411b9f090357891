import Colloquy.ScriptReader
import Colloquy.Proofs.BracketForms

/-!
# The grammar of scripts

A derivation of a script is a tree, one type for each rule of the grammar, whose fields carry what
the grammar demands beyond the kinds of tokens. A tree is written as a row of bracketed forms and so
as tokens, and it stands for the entries of a map of rules, unless a number in it is too long. The
trees say nothing of lines, of the order in which a reader looks at tokens, or of faults.
-/

namespace Colloquy.ScriptGrammar

open ScriptReader

/-- `member := symbol | number | group` and `group := '(' symbol* ')'`. -/
inductive Member where
  | symbol (name : Word)
  | number (digits : Word)
  | group (names : List Word)
deriving DecidableEq

namespace Member

def form : Member → Form
  | .symbol name => .symbol name
  | .number digits => .number digits
  | .group names => .list (names.map .symbol)

def word : Member → Word
  | .symbol name => name
  | .number digits => digits
  | .group names => groupWord names

def isGroup : Member → Bool
  | .group _ => true
  | _ => false

theorem lexical_group {names : List Word} :
    (group names).form.Lexical ↔ ∀ name ∈ names, Lexemes.IsSymbol name := by
  simp only [form, Form.lexical_list, List.forall_mem_map, Form.lexical_symbol]

end Member

/-- `list := '(' member* ')'`. -/
def listForm (members : List Member) : Form :=
  .list (members.map Member.form)

theorem lexical_listForm {members : List Member} :
    (listForm members).Lexical ↔ ∀ m ∈ members, m.form.Lexical := by
  rw [listForm, Form.lexical_list, List.forall_mem_map]

def listWords (members : List Member) : List Word :=
  members.map Member.word

/-- The words of a list name a target: they are one word that begins with the sign of a reference
and is longer than it, or that sign and another word. -/
inductive Names : List Word → Word → Prop where
  | joined (first : Char) (rest : Word) : Names ['=' :: first :: rest] (first :: rest)
  | apart (target : Word) : Names [equalsWord, target] target

/-- `reassembly := list` that does not begin with the symbol `PRE`, or `'(' 'PRE' list list ')'`
whose second list names a target. -/
inductive ReassemblyTree where
  | plain (members : List Member) (not_pre : members.head? ≠ some (.symbol preWord))
  | pre (terms reference : List Member) (target : Word)
      (names : Names (listWords reference) target)

namespace ReassemblyTree

def form : ReassemblyTree → Form
  | .plain members _ => listForm members
  | .pre terms reference _ _ => .list [.symbol preWord, listForm terms, listForm reference]

theorem exists_form_eq_list (tree : ReassemblyTree) : ∃ forms, tree.form = .list forms := by
  cases tree <;> exact ⟨_, rfl⟩

theorem lexical_pre {terms reference : List Member} {target : Word}
    {names : Names (listWords reference) target} :
    (pre terms reference target names).form.Lexical ↔
      (listForm terms).Lexical ∧ (listForm reference).Lexical := by
  have hpre : Lexemes.IsSymbol preWord := Lexemes.isSymbol_of_all (by decide) (by decide)
  rw [form, Form.lexical_list, List.forall_mem_cons, List.forall_mem_cons,
    List.forall_mem_singleton, Form.lexical_symbol]
  simp only [hpre, true_and]

def value : ReassemblyTree → Reassembly
  | .plain members _ => .ofTerms (listWords members)
  | .pre terms _ target _ => .pre (listWords terms) target

end ReassemblyTree

/-- `item := '=' symbol | number | 'DLIST' list | '(' list reassembly+ ')'`. -/
inductive RuleItem where
  | substitution (name : Word)
  | precedence (digits : Word)
  | tags (members : List Member)
  | transformation (pattern : List Member) (first : ReassemblyTree) (more : List ReassemblyTree)

namespace RuleItem

def forms : RuleItem → List Form
  | .substitution name => [.symbol equalsWord, .symbol name]
  | .precedence digits => [.number digits]
  | .tags members => [.symbol tagsWord, listForm members]
  | .transformation pattern first more =>
    [.list (listForm pattern :: (first :: more).map ReassemblyTree.form)]

theorem lexical_transformation {pattern : List Member} {first : ReassemblyTree}
    {more : List ReassemblyTree} :
    (∀ form ∈ (transformation pattern first more).forms, form.Lexical) ↔
      (listForm pattern).Lexical ∧ ∀ tree ∈ first :: more, tree.form.Lexical := by
  rw [forms, List.forall_mem_singleton, Form.lexical_list, List.forall_mem_cons,
    List.forall_mem_map]

def addTo (draft : RuleDraft) : RuleItem → Except Numerals.Oversized RuleDraft
  | .substitution name => .ok { draft with substitution := some name }
  | .precedence digits => do return { draft with precedence := ← Numerals.valueWithin digits }
  | .tags members => .ok { draft with tags := listWords members }
  | .transformation pattern first more =>
    .ok { draft with
      patterns := draft.patterns ++
        [⟨listWords pattern, (first :: more).map ReassemblyTree.value⟩] }

end RuleItem

/-- `reference := '(' '=' symbol ')'`, or `'(' symbol ')'` where the symbol begins with the sign of
a reference and is longer than it. -/
inductive ReferenceTree where
  | apart (target : Word)
  | joined (first : Char) (rest : Word)

namespace ReferenceTree

def form : ReferenceTree → Form
  | .apart target => .list [.symbol equalsWord, .symbol target]
  | .joined first rest => .list [.symbol ('=' :: first :: rest)]

theorem exists_form_eq_list (tree : ReferenceTree) : ∃ forms, tree.form = .list forms := by
  cases tree <;> exact ⟨_, rfl⟩

def target : ReferenceTree → Word
  | .apart target => target
  | .joined first rest => first :: rest

end ReferenceTree

/-- `pair := '(' member* '=' (symbol | number)* ')'` with no member `=` in front of the sign. -/
structure PairTree where
  pattern : List Member
  template : List Member
  no_equals : .symbol equalsWord ∉ pattern
  no_group : ∀ m ∈ template, m.isGroup = false

namespace PairTree

def form (p : PairTree) : Form :=
  .list (p.pattern.map Member.form ++ .symbol equalsWord :: p.template.map Member.form)

theorem lexical_form {p : PairTree} :
    p.form.Lexical ↔
      (∀ m ∈ p.pattern, m.form.Lexical) ∧ ∀ m ∈ p.template, m.form.Lexical := by
  have hequals : Lexemes.IsSymbol equalsWord := Lexemes.isSymbol_of_all (by decide) (by decide)
  simp only [form, Form.lexical_list, List.forall_mem_append, List.forall_mem_cons,
    List.forall_mem_map, Form.lexical_symbol, hequals, true_and]

def value (p : PairTree) : Except Numerals.Oversized MemoryPair := do
  return ⟨← Decomposition.ofTerms (listWords p.pattern), listWords p.template⟩

end PairTree

/-- `rule := '(' ')' | '(' 'MEMORY' symbol pair pair pair pair ')'
| '(' keyword item* [reference] ')'` with a symbol other than `MEMORY` for the keyword. -/
inductive RuleTree where
  | empty
  | memory (name : Word) (pairs : List PairTree) (four : pairs.length = MemoryRule.pairCount)
  | keyword (name : Word) (items : List RuleItem) (reference : Option ReferenceTree)
      (not_memory : name ≠ memoryKeyword)

def draftFrom (draft : RuleDraft) (items : List RuleItem) (reference : Option ReferenceTree) :
    Except Numerals.Oversized RuleDraft := do
  let draft ← items.foldlM RuleItem.addTo draft
  return match reference with
    | none => draft
    | some r => { draft with link := some r.target }

def ruleOf (key : Word) (draft : RuleDraft) : Except Numerals.Oversized Rule := do
  return ⟨key, draft.substitution, draft.precedence, draft.tags, ← bodyOf draft⟩

namespace RuleTree

def form : RuleTree → Form
  | .empty => .list []
  | .memory name pairs _ =>
    .list (.symbol memoryKeyword :: .symbol name :: pairs.map PairTree.form)
  | .keyword name items reference _ =>
    .list (.symbol name :: (items.flatMap RuleItem.forms ++
      reference.toList.map ReferenceTree.form))

theorem exists_form_eq_list (tree : RuleTree) : ∃ forms, tree.form = .list forms := by
  cases tree <;> exact ⟨_, rfl⟩

theorem lexical_memory {name : Word} {pairs : List PairTree}
    {four : pairs.length = MemoryRule.pairCount} :
    (memory name pairs four).form.Lexical ↔
      Lexemes.IsSymbol name ∧ ∀ p ∈ pairs, p.form.Lexical := by
  have hmemory : Lexemes.IsSymbol memoryKeyword :=
    Lexemes.isSymbol_of_all (by decide) (by decide)
  simp only [form, Form.lexical_list, List.forall_mem_cons, List.forall_mem_map,
    Form.lexical_symbol, hmemory, true_and]

theorem lexical_keyword {name : Word} {items : List RuleItem} {reference : Option ReferenceTree}
    {not_memory : name ≠ memoryKeyword} :
    (keyword name items reference not_memory).form.Lexical ↔
      Lexemes.IsSymbol name ∧ (∀ item ∈ items, ∀ form ∈ item.forms, form.Lexical) ∧
        ∀ r ∈ reference, r.form.Lexical := by
  simp only [form, Form.lexical_list, List.forall_mem_cons, List.forall_mem_append,
    List.forall_mem_flatMap, List.forall_mem_map, Option.mem_toList, Option.mem_def,
    Form.lexical_symbol]

def key? : RuleTree → Option Word
  | .empty => none
  | .memory .. => some memoryKey
  | .keyword name .. => some (keyOf name)

/-- The entry of the map of rules that the tree stands for, none for an empty rule. -/
def entries : RuleTree → Except Numerals.Oversized (List (Word × Rule))
  | .empty => .ok []
  | .memory name pairs _ => do
    return [(memoryKey, ⟨name, none, 0, [], .memory (← pairs.mapM PairTree.value)⟩)]
  | .keyword name items reference _ => do
    let draft ← draftFrom .bare items reference
    return [(keyOf name, ← ruleOf (keyOf name) draft)]

end RuleTree

/-- `script := list ['START'] rule*`. -/
structure ScriptTree where
  greeting : List Member
  start : Bool
  rules : List RuleTree

namespace ScriptTree

def forms (tree : ScriptTree) : List Form :=
  listForm tree.greeting ::
    ((if tree.start then [.symbol startWord] else []) ++ tree.rules.map RuleTree.form)

def tokens (tree : ScriptTree) : List Token :=
  Form.tokensAll tree.forms

def keys (tree : ScriptTree) : List Word :=
  tree.rules.filterMap RuleTree.key?

def entries (tree : ScriptTree) : Except Numerals.Oversized (List (Word × Rule)) := do
  return (← tree.rules.mapM RuleTree.entries).flatten

end ScriptTree

/-- The map holds the rules that every script has. -/
def Complete (rules : WordMap Rule) : Prop :=
  rules.contains noneKey = true ∧
    ∃ memory, rules.get? memoryKey = some memory ∧ rules.contains memory.keyword = true

/-- The tree stands for a script: no number in it is too long, no two rules have one key, and the
rules that every script has are there. -/
def Means (tree : ScriptTree) (s : Script) : Prop :=
  ∃ entries, tree.entries = .ok entries ∧ (entries.map (·.1)).Nodup ∧
    s = ⟨listWords tree.greeting, WordMap.ofList entries⟩ ∧ Complete s.rules

end Colloquy.ScriptGrammar
