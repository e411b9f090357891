import Colloquy.Proofs.LoadedScripts
import Colloquy.Proofs.SpelledTexts

/-!
# Well-formed scripts

What a script has to be like to be the reading of some text, as far as that can be seen by looking at the
script alone: the shapes of its words, the keys of its rules, and which patterns, templates and bodies
the rules may have. All of it is decidable.
-/

namespace Colloquy

open Numerals Lexemes ScriptReader

/-! ### Words -/

def Token.name? : Token → Option Word
  | .symbol name => some name
  | .opening | .closing | .number _ => none

namespace Lexemes

-- The tests are of Boolean values, so that no instance for all characters is found for them.

instance (w : Word) : Decidable (IsNumber w) :=
  decidable_of_iff (w ≠ [] ∧ w.all Char.isDigit = true) <| by
    rw [List.all_eq_true]
    exact ⟨fun ⟨a, b⟩ => ⟨a, b⟩, fun ⟨a, b⟩ => ⟨a, b⟩⟩

instance (w : Word) : Decidable (Unbroken w) :=
  decidable_of_iff (w.all (fun c => !endsSymbol c) = true) <| by
    simp [Unbroken]

instance (w : Word) : Decidable (IsSymbol w) :=
  decidable_of_iff (w ≠ [] ∧ w.head?.all (fun c => !c.isDigit) = true ∧ Unbroken w) <| by
    simp only [Option.all_eq_true, Bool.not_eq_true']
    exact ⟨fun ⟨a, b, c⟩ => ⟨a, b, c⟩, fun ⟨a, b, c⟩ => ⟨a, b, c⟩⟩

def symbols (text : List Char) : List Word :=
  (tokens text).filterMap Token.name?

end Lexemes

namespace ScriptGrammar

/-- The word of a group of symbols in brackets. -/
def IsGroup (w : Word) : Prop :=
  ∃ names : List Word, (∀ name ∈ names, IsSymbol name) ∧ w = groupWord names

/-- A word of a list: a number, a symbol or a group of symbols in brackets. -/
def IsListed (w : Word) : Prop :=
  IsNumber w ∨ IsSymbol w ∨ IsGroup w

/-- A word that can stand behind the sign of a reference. -/
structure IsTarget (w : Word) : Prop where
  ne_nil : w ≠ []
  unbroken : Unbroken w

/-- A word that a list can name as a target: it may also be a group, which stands apart from the sign
of a reference. -/
structure IsNamed (w : Word) : Prop where
  ne_nil : w ≠ []
  unbroken_or_isGroup : Unbroken w ∨ IsGroup w

theorem symbols_groupWord {names : List Word} (h : ∀ name ∈ names, IsSymbol name) :
    symbols (groupWord names) = names := by
  have htokens : tokens (groupWord names) = .opening :: (names.map .symbol ++ [.closing]) := by
    have hspells := (spells_member (Member.lexical_group.mpr h)).2
    rw [Member.word, Member.form, Form.tokens, Form.tokensAll_eq_flatMap,
      List.flatMap_map] at hspells
    rw [hspells.tokens_eq, List.map_eq_flatMap]
    rfl
  have hnames : (names.map Token.symbol).filterMap Token.name? = names := by
    rw [List.filterMap_map]
    exact List.filterMap_some
  rw [symbols, htokens, List.filterMap_cons_none rfl, List.filterMap_append, hnames]
  exact List.append_nil names

instance (w : Word) : Decidable (IsGroup w) :=
  decidable_of_iff ((∀ name ∈ symbols w, IsSymbol name) ∧ w = groupWord (symbols w)) <| by
    constructor
    · exact fun h => ⟨_, h⟩
    · rintro ⟨names, hnames, rfl⟩
      rw [symbols_groupWord hnames]
      exact ⟨hnames, rfl⟩

instance (w : Word) : Decidable (IsListed w) :=
  inferInstanceAs (Decidable (IsNumber w ∨ IsSymbol w ∨ IsGroup w))

instance (w : Word) : Decidable (IsTarget w) :=
  decidable_of_iff (w ≠ [] ∧ Unbroken w) ⟨fun ⟨a, b⟩ => ⟨a, b⟩, fun ⟨a, b⟩ => ⟨a, b⟩⟩

instance (w : Word) : Decidable (IsNamed w) :=
  decidable_of_iff (w ≠ [] ∧ (Unbroken w ∨ IsGroup w))
    ⟨fun ⟨a, b⟩ => ⟨a, b⟩, fun ⟨a, b⟩ => ⟨a, b⟩⟩

/-! ### Reassemblies -/

/-- The terms of a template: the words of a list that does not order something else. The sign of a
reference orders nothing where it stands apart from the name. -/
structure IsTemplate (terms : List Word) : Prop where
  listed : ∀ term ∈ terms, IsListed term
  not_newKey : terms ≠ [Reassembly.newKeyWord]
  not_link : ∀ name, name ≠ [] → terms ≠ ['=' :: name]
  not_pre : terms.head? ≠ some preWord

theorem ofTerms_eq_template_iff {terms : List Word} :
    Reassembly.ofTerms terms = .template terms ↔
      terms ≠ [Reassembly.newKeyWord] ∧ ∀ name, name ≠ [] → terms ≠ ['=' :: name] := by
  unfold Reassembly.ofTerms
  split
  · rename_i c target
    simp
  · rename_i hlink
    have hname (name : Word) (hne : name ≠ []) : terms ≠ ['=' :: name] := by
      obtain ⟨c, target, rfl⟩ := List.exists_cons_of_ne_nil hne
      exact hlink c target
    split
    · rename_i hnewKey
      exact iff_of_false nofun fun h => h.1 hnewKey
    · rename_i hnewKey
      exact iff_of_true rfl ⟨hnewKey, hname⟩

instance (terms : List Word) : Decidable (IsTemplate terms) :=
  decidable_of_iff ((∀ term ∈ terms, IsListed term) ∧
      Reassembly.ofTerms terms = .template terms ∧ terms.head? ≠ some preWord) <| by
    rw [ofTerms_eq_template_iff]
    exact ⟨fun ⟨a, ⟨b, c⟩, d⟩ => ⟨a, b, c, d⟩, fun ⟨a, b, c, d⟩ => ⟨a, ⟨b, c⟩, d⟩⟩

end ScriptGrammar

open ScriptGrammar

/-- The reassembly is the reading of some list. -/
def Reassembly.WellFormed : Reassembly → Prop
  | .template terms => IsTemplate terms
  | .newKey => True
  | .link target => IsTarget target
  | .pre terms target => (∀ term ∈ terms, IsListed term) ∧ IsNamed target

instance : DecidablePred Reassembly.WellFormed
  | .template terms => inferInstanceAs (Decidable (IsTemplate terms))
  | .newKey => .isTrue trivial
  | .link target => inferInstanceAs (Decidable (IsTarget target))
  | .pre terms target => inferInstanceAs (Decidable
      ((∀ term ∈ terms, IsListed term) ∧ IsNamed target))

example : Reassembly.WellFormed (.template [['='], ['B']]) ∧
    ¬ Reassembly.WellFormed (.template [['=', 'B']]) := by
  decide

/-! ### Rules -/

structure Transformation.WellFormed (t : Transformation) : Prop where
  pattern : ∀ term ∈ t.decomposition.terms, IsListed term
  ne_nil : t.reassemblies ≠ []
  reassemblies : ∀ reassembly ∈ t.reassemblies, reassembly.WellFormed

instance : DecidablePred Transformation.WellFormed := fun t =>
  decidable_of_iff ((∀ term ∈ t.decomposition.terms, IsListed term) ∧ t.reassemblies ≠ [] ∧
      ∀ reassembly ∈ t.reassemblies, reassembly.WellFormed)
    ⟨fun ⟨a, b, c⟩ => ⟨a, b, c⟩, fun ⟨a, b, c⟩ => ⟨a, b, c⟩⟩

def RuleBody.transformations : RuleBody → List Transformation
  | .pre decomposition terms target => [⟨decomposition, [.pre terms target]⟩]
  | .transform ts _ => ts
  | .substitution | .tag | .link _ | .memory _ => []

def RuleBody.link? : RuleBody → Option Word
  | .link target => some target
  | .transform _ reference => reference
  | .substitution | .tag | .pre .. | .memory _ => none

/-- The body is the one that a keyword rule with its tags, its patterns and its reference has. -/
def RuleBody.Classified (tags : List Word) : RuleBody → Prop
  | .substitution => tags = []
  | .tag => tags ≠ []
  | .link _ | .pre .. => True
  | .transform ts reference => ts ≠ [] ∧
      (reference = none →
        ∀ decomposition terms target, ts ≠ [⟨decomposition, [.pre terms target]⟩])
  | .memory _ => False

def RuleBody.rewritesOnly : List Transformation → Option Word → Bool
  | [⟨_, [.pre _ _]⟩], none => true
  | _, _ => false

theorem RuleBody.rewritesOnly_eq_false_iff {ts : List Transformation} {reference : Option Word} :
    rewritesOnly ts reference = false ↔
      (reference = none →
        ∀ decomposition terms target, ts ≠ [⟨decomposition, [.pre terms target]⟩]) := by
  unfold rewritesOnly
  split
  · simp
  · rename_i hother
    refine iff_of_true rfl ?_
    rintro rfl decomposition terms target rfl
    exact hother _ _ _ rfl rfl

instance (tags : List Word) : DecidablePred (RuleBody.Classified tags)
  | .substitution => inferInstanceAs (Decidable (tags = []))
  | .tag => inferInstanceAs (Decidable (tags ≠ []))
  | .link _ => .isTrue trivial
  | .pre .. => .isTrue trivial
  | .transform ts reference =>
    decidable_of_iff (ts ≠ [] ∧ RuleBody.rewritesOnly ts reference = false) <| by
      rw [RuleBody.rewritesOnly_eq_false_iff]
      rfl
  | .memory _ => .isFalse id

/-- A key that a keyword rule can be kept under. The keyword MEMORY begins another kind of rule, and the
keyword NONE has a key of its own. -/
structure ScriptGrammar.IsKey (key : Word) : Prop where
  symbol : IsSymbol key
  ne_memoryKeyword : key ≠ memoryKeyword
  ne_noneKeyword : key ≠ noneKeyword

instance : DecidablePred IsKey := fun key =>
  decidable_of_iff (IsSymbol key ∧ key ≠ memoryKeyword ∧ key ≠ noneKeyword)
    ⟨fun ⟨a, b, c⟩ => ⟨a, b, c⟩, fun ⟨a, b, c⟩ => ⟨a, b, c⟩⟩

/-- The rule is the reading of some keyword rule, kept under the key. -/
structure Rule.WellFormed (key : Word) (r : Rule) : Prop where
  keyed : IsKey key
  keyword : r.keyword = key
  substitution : ∀ substitute ∈ r.substitution, IsSymbol substitute
  precedence_nonneg : 0 ≤ r.precedence
  precedence_short : (write r.precedence.toNat).length ≤ digitLimit
  tags : ∀ tag ∈ r.tags, IsListed tag
  classified : r.body.Classified r.tags
  transformations : ∀ t ∈ r.body.transformations, t.WellFormed
  link : ∀ target ∈ r.body.link?, IsTarget target

instance (key : Word) (r : Rule) : Decidable (r.WellFormed key) :=
  decidable_of_iff (IsKey key ∧ r.keyword = key ∧
      (∀ substitute ∈ r.substitution, IsSymbol substitute) ∧ 0 ≤ r.precedence ∧
      (write r.precedence.toNat).length ≤ digitLimit ∧ (∀ tag ∈ r.tags, IsListed tag) ∧
      r.body.Classified r.tags ∧ (∀ t ∈ r.body.transformations, t.WellFormed) ∧
      ∀ target ∈ r.body.link?, IsTarget target)
    ⟨fun ⟨a, b, c, d, e, f, g, h, i⟩ => ⟨a, b, c, d, e, f, g, h, i⟩,
      fun ⟨a, b, c, d, e, f, g, h, i⟩ => ⟨a, b, c, d, e, f, g, h, i⟩⟩

theorem Rule.WellFormed.memory?_eq_none {key : Word} {r : Rule} (h : r.WellFormed key) :
    r.memory? = none := by
  cases hbody : r.body with
  | memory pairs =>
    have hclassified := h.classified
    rw [hbody] at hclassified
    exact hclassified.elim
  | _ => rw [Rule.memory?, hbody]

structure MemoryPair.WellFormed (pair : MemoryPair) : Prop where
  pattern : ∀ term ∈ pair.decomposition.terms, IsListed term
  no_equals : equalsWord ∉ pair.decomposition.terms
  template : ∀ term ∈ pair.template, IsNumber term ∨ IsSymbol term

instance : DecidablePred MemoryPair.WellFormed := fun pair =>
  decidable_of_iff ((∀ term ∈ pair.decomposition.terms, IsListed term) ∧
      equalsWord ∉ pair.decomposition.terms ∧ ∀ term ∈ pair.template, IsNumber term ∨ IsSymbol term)
    ⟨fun ⟨a, b, c⟩ => ⟨a, b, c⟩, fun ⟨a, b, c⟩ => ⟨a, b, c⟩⟩

structure MemoryRule.WellFormed (m : MemoryRule) : Prop where
  keyword : IsSymbol m.keyword
  four : m.pairs.length = MemoryRule.pairCount
  pairs : ∀ pair ∈ m.pairs, pair.WellFormed

instance : DecidablePred MemoryRule.WellFormed := fun m =>
  decidable_of_iff (IsSymbol m.keyword ∧ m.pairs.length = MemoryRule.pairCount ∧
      ∀ pair ∈ m.pairs, pair.WellFormed)
    ⟨fun ⟨a, b, c⟩ => ⟨a, b, c⟩, fun ⟨a, b, c⟩ => ⟨a, b, c⟩⟩

def MemoryRule.rule (m : MemoryRule) : Rule :=
  ⟨m.keyword, none, 0, [], .memory m.pairs⟩

/-! ### Scripts -/

/-- The script is the reading of some text, as far as can be seen by looking at it: every rule but the
one that makes memories is kept under its keyword, and that one under a key of its own. -/
structure Script.WellFormed (s : Script) : Prop where
  greeting : ∀ w ∈ s.greeting, IsListed w
  keywordRules : ∀ entry ∈ s.rules.entries, entry.2.memory? = none → entry.2.WellFormed entry.1
  memoryRules : ∀ entry ∈ s.rules.entries, ∀ m ∈ entry.2.memory?,
    entry.1 = memoryKey ∧ entry.2 = m.rule ∧ m.WellFormed
  complete : Complete s.rules

instance : DecidablePred Script.WellFormed := fun s =>
  decidable_of_iff ((∀ w ∈ s.greeting, IsListed w) ∧
      (∀ entry ∈ s.rules.entries, entry.2.memory? = none → entry.2.WellFormed entry.1) ∧
      (∀ entry ∈ s.rules.entries, ∀ m ∈ entry.2.memory?,
        entry.1 = memoryKey ∧ entry.2 = m.rule ∧ m.WellFormed) ∧
      s.rules.contains noneKey = true ∧
        ∃ memory ∈ s.rules.get? memoryKey, s.rules.contains memory.keyword = true) <| by
    constructor
    · rintro ⟨a, b, c, d, memory, hmemory, e⟩
      exact ⟨a, b, c, d, memory, Option.mem_def.mp hmemory, e⟩
    · rintro ⟨a, b, c, d, memory, hmemory, e⟩
      exact ⟨a, b, c, d, memory, Option.mem_def.mpr hmemory, e⟩

end Colloquy
