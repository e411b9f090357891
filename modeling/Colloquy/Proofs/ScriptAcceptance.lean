import Colloquy.Proofs.NumeralLaws
import Colloquy.Proofs.ScriptReading

/-!
# Which texts are scripts

A text is a script exactly when its tokens derive from the grammar and the derivation meets four
demands that no grammar rule states: on the keys of its rules, and on the length of the numbers that
a rule is ranked or matched by. Any other text is refused, and a refusal for a number that is too
long tells a length beyond the limit.
-/

namespace Colloquy

open Numerals

namespace ScriptGrammar

open ScriptReader

/-! ### The numbers that have to be short -/

def Member.number? : Member → Option Word
  | .number digits => some digits
  | .symbol _ | .group _ => none

def numbers (members : List Member) : List Word :=
  members.filterMap Member.number?

namespace RuleItem

def numbers : RuleItem → List Word
  | .precedence digits => [digits]
  | .transformation pattern _ _ => ScriptGrammar.numbers pattern
  | .substitution _ | .tags _ => []

end RuleItem

namespace RuleTree

def numbers : RuleTree → List Word
  | .empty => []
  | .memory _ pairs _ => pairs.flatMap fun p => ScriptGrammar.numbers p.pattern
  | .keyword _ items _ _ => items.flatMap RuleItem.numbers

end RuleTree

/-- What a derivation has to meet beyond the grammar: different rules are kept under different keys,
the rules that every script has are there, the memory rule names a key, and no number that a rule is
ranked or matched by has too many digits. -/
structure ScriptTree.Admissible (tree : ScriptTree) : Prop where
  keys_differ : tree.keys.Nodup
  none_rule : noneKey ∈ tree.keys
  memory_rule : memoryKey ∈ tree.keys
  memory_keyword : ∀ name pairs four, .memory name pairs four ∈ tree.rules → name ∈ tree.keys
  numbers_short : ∀ r ∈ tree.rules, ∀ digits ∈ r.numbers, digits.length ≤ digitLimit

/-! ### Members of lexical forms -/

theorem not_isNumeral_of_isSymbol {name : Word} (h : Lexemes.IsSymbol name) :
    isNumeral name = false := by
  obtain ⟨hne, hhead, -⟩ := h
  cases name with
  | nil => exact absurd rfl hne
  | cons c name => simp [isNumeral, hhead c rfl]

theorem not_isNumeral_groupWord (names : List Word) : isNumeral (groupWord names) = false := by
  simp [isNumeral, groupWord]

theorem shortNumerals_listWords_iff {members : List Member}
    (h : ∀ m ∈ members, m.form.Lexical) :
    ShortNumerals (listWords members) ↔
      ∀ digits ∈ numbers members, digits.length ≤ digitLimit := by
  induction members with
  | nil => simp [ShortNumerals, listWords, numbers]
  | cons m members ih =>
    obtain ⟨hm, hmembers⟩ := List.forall_mem_cons.mp h
    have hcons : ShortNumerals (listWords (m :: members)) ↔
        (isNumeral m.word = true → m.word.length ≤ digitLimit) ∧
          ShortNumerals (listWords members) := List.forall_mem_cons
    rw [hcons, ih hmembers]
    cases m with
    | symbol name =>
      have hname : isNumeral name = false := not_isNumeral_of_isSymbol (Form.lexical_symbol.mp hm)
      simp [Member.word, hname, numbers, Member.number?]
    | number digits =>
      have hdigits : isNumeral digits = true :=
        List.all_eq_true.mpr (Form.lexical_number.mp hm).isDigit
      simp [Member.word, hdigits, numbers, Member.number?]
    | group names => simp [Member.word, not_isNumeral_groupWord, numbers, Member.number?]

/-! ### Trees that stand for something -/

/-- The item can be added to what is known of a rule, and its pattern can be read. -/
def RuleItem.Fits : RuleItem → Prop
  | .precedence digits => digits.length ≤ digitLimit
  | .transformation pattern _ _ => ShortNumerals (listWords pattern)
  | .substitution _ | .tags _ => True

theorem RuleItem.fits_iff {item : RuleItem} (h : ∀ form ∈ item.forms, form.Lexical) :
    item.Fits ↔ ∀ digits ∈ item.numbers, digits.length ≤ digitLimit := by
  cases item with
  | substitution name => simp [Fits, numbers]
  | tags members => simp [Fits, numbers]
  | precedence digits => simp [Fits, numbers]
  | transformation pattern first more =>
    exact shortNumerals_listWords_iff (lexical_listForm.mp (lexical_transformation.mp h).1)

theorem exists_compile_iff {patterns : List PatternDraft} :
    (∃ transformations, compile patterns = .ok transformations) ↔
      ∀ p ∈ patterns, ShortNumerals p.terms := by
  induction patterns with
  | nil => simp [compile]
  | cons p patterns ih =>
    rw [List.forall_mem_cons, ← ih, ← exists_decomposition_iff]
    simp only [compile, bind_eq_ok, pure_eq_ok]
    grind

theorem exists_bodyOf_iff {draft : RuleDraft} :
    (∃ body, bodyOf draft = .ok body) ↔ ∀ p ∈ draft.patterns, ShortNumerals p.terms := by
  unfold bodyOf
  split
  · rename_i hpatterns _
    simp [hpatterns]
  · rename_i hpatterns _
    simp [hpatterns]
  · rename_i pattern terms target hpatterns _
    simp only [hpatterns, List.mem_singleton, forall_eq, ← exists_decomposition_iff, bind_eq_ok,
      pure_eq_ok]
    grind
  · simp only [← exists_compile_iff, bind_eq_ok, pure_eq_ok]
    grind

theorem exists_draft_iff {items : List RuleItem} {reference : Option ReferenceTree}
    {draft : RuleDraft} :
    (∃ d, draftFrom draft items reference = .ok d ∧ ∃ body, bodyOf d = .ok body) ↔
      (∀ p ∈ draft.patterns, ShortNumerals p.terms) ∧ ∀ item ∈ items, item.Fits := by
  induction items generalizing draft with
  | nil => cases reference <;> simp [draftFrom_nil, exists_bodyOf_iff]
  | cons item items ih =>
    have hstep : (∃ d, draftFrom draft (item :: items) reference = .ok d ∧
          ∃ body, bodyOf d = .ok body) ↔
        ∃ next, item.addTo draft = .ok next ∧ (∀ p ∈ next.patterns, ShortNumerals p.terms) ∧
          ∀ item ∈ items, item.Fits := by
      simp only [draftFrom_cons, bind_eq_ok, ← ih]
      grind
    rw [hstep, List.forall_mem_cons]
    cases item with
    | substitution name => simp [RuleItem.addTo, RuleItem.Fits]
    | tags members => simp [RuleItem.addTo, RuleItem.Fits]
    | precedence digits =>
      simp only [RuleItem.addTo, RuleItem.Fits, ← exists_valueWithin_iff, bind_eq_ok, pure_eq_ok]
      grind
    | transformation pattern first more =>
      simp only [RuleItem.addTo, Except.ok.injEq, exists_eq_left', List.forall_mem_append,
        List.forall_mem_singleton, and_assoc]
      rfl

/-- A lexical rule stands for entries exactly when its numbers are short. -/
theorem RuleTree.exists_entries_iff {tree : RuleTree} (h : tree.form.Lexical) :
    (∃ entries, tree.entries = .ok entries) ↔
      ∀ digits ∈ tree.numbers, digits.length ≤ digitLimit := by
  cases tree with
  | empty => simp [entries, numbers]
  | memory name pairs four =>
    have hpairs := (lexical_memory.mp h).2
    have hpair : ∀ p ∈ pairs, (∃ value, p.value = .ok value) ↔
        ∀ digits ∈ ScriptGrammar.numbers p.pattern, digits.length ≤ digitLimit := by
      intro p hp
      have hpattern := (PairTree.lexical_form.mp (hpairs p hp)).1
      rw [← shortNumerals_listWords_iff hpattern, ← exists_decomposition_iff]
      simp only [PairTree.value, bind_eq_ok, pure_eq_ok]
      grind
    have hentries : (∃ result, (memory name pairs four).entries = .ok result) ↔
        ∃ values, pairs.mapM PairTree.value = .ok values := by
      simp only [entries_memory_eq_ok]
      grind
    rw [hentries, exists_mapM_iff]
    simp only [numbers, List.mem_flatMap]
    grind
  | keyword name items reference not_memory =>
    have hitems := (lexical_keyword.mp h).2.1
    have hitem : ∀ item ∈ items, item.Fits ↔
        ∀ digits ∈ item.numbers, digits.length ≤ digitLimit :=
      fun item hmem => RuleItem.fits_iff (hitems item hmem)
    have hentries : (∃ result, (keyword name items reference not_memory).entries = .ok result) ↔
        ∃ d, draftFrom .bare items reference = .ok d ∧ ∃ body, bodyOf d = .ok body := by
      simp only [entries_keyword_eq_ok, ruleOf_eq_ok]
      grind
    rw [hentries, exists_draft_iff]
    simp only [RuleDraft.bare, numbers, List.mem_flatMap]
    grind

theorem RuleTree.keys_entries {tree : RuleTree} {entries : List (Word × Rule)}
    (h : tree.entries = .ok entries) : entries.map (·.1) = tree.key?.toList := by
  cases tree with
  | empty =>
    cases h
    rfl
  | memory name pairs four =>
    obtain ⟨values, -, rfl⟩ := entries_memory_eq_ok.mp h
    rfl
  | keyword name items reference not_memory =>
    obtain ⟨draft, rule, -, -, rfl⟩ := entries_keyword_eq_ok.mp h
    rfl

/-- A rule is kept under its keyword, unless it is the rule that makes memories. -/
theorem RuleTree.keyword_of_mem_entries {tree : RuleTree} {entries : List (Word × Rule)}
    (h : tree.entries = .ok entries) {entry : Word × Rule} (hmem : entry ∈ entries) :
    (∃ name pairs four, tree = .memory name pairs four ∧ entry.2.keyword = name) ∨
      entry.2.keyword = entry.1 := by
  cases tree with
  | empty =>
    cases h
    cases hmem
  | memory name pairs four =>
    obtain ⟨values, -, rfl⟩ := entries_memory_eq_ok.mp h
    rw [List.mem_singleton] at hmem
    exact .inl ⟨name, pairs, four, rfl, by rw [hmem]⟩
  | keyword name items reference not_memory =>
    obtain ⟨draft, rule, -, hrule, rfl⟩ := entries_keyword_eq_ok.mp h
    obtain ⟨body, -, rfl⟩ := ruleOf_eq_ok.mp hrule
    rw [List.mem_singleton] at hmem
    exact .inr (by rw [hmem])

namespace ScriptTree

theorem keys_entries {tree : ScriptTree} {entries : List (Word × Rule)}
    (h : tree.entries = .ok entries) : entries.map (·.1) = tree.keys := by
  obtain ⟨lists, hlists, rfl⟩ := entries_eq_ok.mp h
  rw [keys]
  clear h
  generalize tree.rules = rules at hlists
  induction rules generalizing lists with
  | nil =>
    cases hlists
    rfl
  | cons r rules ih =>
    obtain ⟨own, others, hown, hothers, rfl⟩ := mapM_cons_eq_ok.mp hlists
    rw [List.flatten_cons, List.map_append, RuleTree.keys_entries hown, ih _ hothers,
      List.filterMap_cons]
    cases r.key? <;> rfl

theorem mem_entries {tree : ScriptTree} {entries : List (Word × Rule)}
    (h : tree.entries = .ok entries) {entry : Word × Rule} :
    entry ∈ entries ↔ ∃ r ∈ tree.rules, ∃ own, r.entries = .ok own ∧ entry ∈ own := by
  obtain ⟨lists, hlists, rfl⟩ := entries_eq_ok.mp h
  clear h
  generalize tree.rules = rules at hlists
  induction rules generalizing lists with
  | nil =>
    cases hlists
    simp
  | cons r rules ih =>
    obtain ⟨own, others, hown, hothers, rfl⟩ := mapM_cons_eq_ok.mp hlists
    rw [List.flatten_cons, List.mem_append, ih _ hothers]
    simp [hown]

theorem exists_entries_of_mem {tree : ScriptTree} {entries : List (Word × Rule)}
    (h : tree.entries = .ok entries) {r : RuleTree} (hr : r ∈ tree.rules) :
    ∃ own, r.entries = .ok own := by
  obtain ⟨lists, hlists, -⟩ := entries_eq_ok.mp h
  exact exists_mapM_iff.mp ⟨lists, hlists⟩ r hr

/-- A lexical tree has entries exactly when its numbers are short. -/
theorem exists_entries_iff {tree : ScriptTree} (h : ∀ t ∈ tree.tokens, t.Lexical) :
    (∃ entries, tree.entries = .ok entries) ↔
      ∀ r ∈ tree.rules, ∀ digits ∈ r.numbers, digits.length ≤ digitLimit := by
  have hrule : ∀ r ∈ tree.rules, r.form.Lexical := by
    intro r hr
    refine Form.forall_mem_tokensAll_iff.mp h _ (List.mem_cons_of_mem _ ?_)
    exact List.mem_append_right _ (List.mem_map_of_mem hr)
  have hentries : (∃ entries, tree.entries = .ok entries) ↔
      ∃ lists, tree.rules.mapM RuleTree.entries = .ok lists := by
    simp only [entries_eq_ok]
    grind
  rw [hentries, exists_mapM_iff]
  exact forall₂_congr fun r hr => RuleTree.exists_entries_iff (hrule r hr)

/-- The map of rules is complete exactly when the keys that every script has are there and the
memory rule names a key. -/
theorem complete_iff {tree : ScriptTree} {entries : List (Word × Rule)}
    (h : tree.entries = .ok entries) (hkeys : tree.keys.Nodup) :
    Complete (WordMap.ofList entries) ↔
      noneKey ∈ tree.keys ∧ memoryKey ∈ tree.keys ∧
        ∀ name pairs four, .memory name pairs four ∈ tree.rules → name ∈ tree.keys := by
  have hnodup : (entries.map (·.1)).Nodup := by rwa [keys_entries h]
  have hcontains (key : Word) :
      (WordMap.ofList entries).contains key = true ↔ key ∈ tree.keys := by
    rw [WordMap.ofList_eq_insertAll, WordMap.contains_insertAll, keys_entries h]
    simp [WordMap.contains]
  simp only [Complete, hcontains, WordMap.get?_ofList hnodup]
  refine and_congr_right fun _ => ?_
  constructor
  · rintro ⟨memory, hmemory, hkeyword⟩
    have hkey : memoryKey ∈ tree.keys := keys_entries h ▸ List.mem_map_of_mem hmemory
    refine ⟨hkey, fun name pairs four hrule => ?_⟩
    obtain ⟨own, hown⟩ := exists_entries_of_mem h hrule
    obtain ⟨values, -, rfl⟩ := RuleTree.entries_memory_eq_ok.mp hown
    have hentry := (mem_entries h).mpr ⟨_, hrule, _, hown, List.mem_singleton_self _⟩
    cases Option.some.inj (((WordMap.get?_ofList hnodup).mpr hmemory).symm.trans
      ((WordMap.get?_ofList hnodup).mpr hentry))
    exact hkeyword
  · rintro ⟨hkey, hnames⟩
    rw [← keys_entries h] at hkey
    obtain ⟨⟨_, memory⟩, hmemory, rfl⟩ := List.mem_map.mp hkey
    refine ⟨memory, hmemory, ?_⟩
    obtain ⟨r, hr, own, hown, hmem⟩ := (mem_entries h).mp hmemory
    rcases RuleTree.keyword_of_mem_entries hown hmem with ⟨name, pairs, four, rfl, hname⟩ | hname
    · rw [hname]
      exact hnames name pairs four hr
    · rw [hname, ← keys_entries h]
      exact hkey

/-- A lexical tree stands for a script exactly when it is admissible. -/
theorem exists_means_iff {tree : ScriptTree} (h : ∀ t ∈ tree.tokens, t.Lexical) :
    (∃ s, Means tree s) ↔ tree.Admissible := by
  constructor
  · rintro ⟨_, entries, hentries, hnodup, rfl, hcomplete⟩
    rw [keys_entries hentries] at hnodup
    obtain ⟨hnone, hmemory, hnames⟩ := (complete_iff hentries hnodup).mp hcomplete
    exact ⟨hnodup, hnone, hmemory, hnames, (exists_entries_iff h).mp ⟨entries, hentries⟩⟩
  · rintro ⟨hnodup, hnone, hmemory, hnames, hshort⟩
    obtain ⟨entries, hentries⟩ := (exists_entries_iff h).mpr hshort
    have hcomplete := (complete_iff hentries hnodup).mpr ⟨hnone, hmemory, hnames⟩
    rw [← keys_entries hentries] at hnodup
    exact ⟨_, entries, hentries, hnodup, rfl, hcomplete⟩

end ScriptTree

end ScriptGrammar

/-- A text is read as a script exactly when its tokens derive from the grammar by an admissible
derivation. It is refused otherwise, for what the script is or for a numeral beyond the limit. -/
theorem Script.read_ok_iff_derives (text : List Char) :
    ((∃ s, Script.read text = .ok s) ↔
      ∃ tree : ScriptGrammar.ScriptTree, Lexemes.tokens text = tree.tokens ∧ tree.Admissible) ∧
    ((∃ s, Script.read text = .ok s) ∨ (∃ fault, Script.read text = .error (.script fault)) ∨
      ∃ numeral : Oversized, Script.read text = .error (.oversized numeral) ∧
        digitLimit < numeral.digits) := by
  constructor
  · simp only [Script.read_eq_ok_iff]
    rw [exists_comm]
    refine exists_congr fun tree => ?_
    rw [exists_and_left]
    refine and_congr_right fun htokens => ScriptGrammar.ScriptTree.exists_means_iff fun t ht => ?_
    exact Lexemes.lexical_of_mem_tokens t (htokens ▸ ht)
  · cases Script.read text with
    | ok s => exact .inl ⟨s, rfl⟩
    | error fault =>
      cases fault with
      | script fault => exact .inr (.inl ⟨fault, rfl⟩)
      | oversized numeral => exact .inr (.inr ⟨numeral, rfl, numeral.exceeds⟩)

end Colloquy
