import Colloquy.Proofs.ScriptAcceptance
import Colloquy.Session

/-!
# Loaded scripts

What is known of a script because it has been read from a text: the shapes of its words, the length
of its numbers, that every pattern has a reassembly and the memory rule four pairs, and under which
keys its rules are kept. The rule that every conversation needs for memories is missing exactly when
a text takes its key for a keyword.
-/

namespace Colloquy

open Numerals ScriptGrammar ScriptReader

namespace ScriptGrammar

open ScriptReader

/-- What can be known of a keyword rule in a text: its words are as they are read from a text, its
rank is a number that can be read, and each of its patterns has a reassembly. -/
structure SoundDraft (draft : RuleDraft) : Prop where
  substitution : ∀ w, draft.substitution = some w → Lexemes.IsSymbol w
  precedence : (write draft.precedence).length ≤ digitLimit
  tags : ∃ members, (listForm members).Lexical ∧ listWords members = draft.tags
  patterns : ∀ p ∈ draft.patterns, ∃ pattern first more,
    (∀ form ∈ (RuleItem.transformation pattern first more).forms, form.Lexical) ∧
    p = ⟨listWords pattern, (first :: more).map ReassemblyTree.value⟩
  link : ∀ w, draft.link = some w → w ≠ [] ∧ Lexemes.Unbroken w

theorem soundDraft_bare : SoundDraft .bare where
  substitution := by simp [RuleDraft.bare]
  precedence := by
    have hzero : (write 0).length ≤ digitLimit := by decide
    exact hzero
  tags := ⟨[], by simp [listForm, Form.lexical_list], rfl⟩
  patterns := by simp [RuleDraft.bare]
  link := by simp [RuleDraft.bare]

/-- An item of a text keeps what is known of its rule sound. -/
theorem SoundDraft.addTo {draft next : RuleDraft} (h : SoundDraft draft) {item : RuleItem}
    (hitem : ∀ form ∈ item.forms, form.Lexical) (hnext : item.addTo draft = .ok next) :
    SoundDraft next := by
  cases item with
  | substitution name =>
    cases hnext
    refine { h with substitution := fun w hw => ?_ }
    cases hw
    exact Form.lexical_symbol.mp (hitem _ (List.mem_cons_of_mem _ List.mem_cons_self))
  | precedence digits =>
    simp only [RuleItem.addTo, bind_eq_ok, pure_eq_ok, valueWithin_eq_ok] at hnext
    obtain ⟨_, ⟨hshort, rfl⟩, rfl⟩ := hnext
    obtain ⟨hne, hdigits⟩ := Form.lexical_number.mp (hitem _ List.mem_cons_self)
    have hlength := length_write_value_le hne hdigits
    exact { h with precedence := Nat.le_trans hlength hshort }
  | tags members =>
    cases hnext
    have hform := hitem _ (List.mem_cons_of_mem _ List.mem_cons_self)
    exact { h with tags := ⟨members, hform, rfl⟩ }
  | transformation pattern first more =>
    cases hnext
    refine { h with patterns := fun p hp => ?_ }
    rcases List.mem_append.mp hp with hp | hp
    · exact h.patterns p hp
    · exact ⟨pattern, first, more, hitem, List.mem_singleton.mp hp⟩

theorem SoundDraft.refer {draft : RuleDraft} (h : SoundDraft draft) {reference : ReferenceTree}
    (hform : reference.form.Lexical) : SoundDraft { draft with link := some reference.target } := by
  refine { h with link := fun w hw => ?_ }
  cases hw
  cases reference with
  | apart target =>
    have hsymbol := Form.lexical_list.mp hform _ (List.mem_cons_of_mem _ List.mem_cons_self)
    obtain ⟨hne, -, hunbroken⟩ := Form.lexical_symbol.mp hsymbol
    exact ⟨hne, hunbroken⟩
  | joined first rest =>
    have hsymbol := Form.lexical_list.mp hform _ List.mem_cons_self
    obtain ⟨-, -, hunbroken⟩ := Form.lexical_symbol.mp hsymbol
    exact ⟨List.cons_ne_nil _ _, fun c hc => hunbroken c (List.mem_cons_of_mem _ hc)⟩

theorem SoundDraft.draftFrom {draft result : RuleDraft} (h : SoundDraft draft)
    {items : List RuleItem} {reference : Option ReferenceTree}
    (hitems : ∀ item ∈ items, ∀ form ∈ item.forms, form.Lexical)
    (hreference : ∀ r ∈ reference, r.form.Lexical)
    (hresult : draftFrom draft items reference = .ok result) : SoundDraft result := by
  induction items generalizing draft with
  | nil =>
    rw [draftFrom_nil] at hresult
    cases hresult
    cases reference with
    | none => exact h
    | some r => exact h.refer (hreference r rfl)
  | cons item items ih =>
    obtain ⟨hitem, hitems⟩ := List.forall_mem_cons.mp hitems
    rw [draftFrom_cons, bind_eq_ok] at hresult
    obtain ⟨next, hnext, hresult⟩ := hresult
    exact ih (h.addTo hitem hnext) hitems hresult

/-- A rule of a text and the key that it is kept under. -/
inductive LoadedRule : Word → Rule → Prop where
  | memory {name : Word} {trees : List PairTree} {pairs : List MemoryPair}
      (symbol : Lexemes.IsSymbol name) (lexical : ∀ p ∈ trees, p.form.Lexical)
      (four : trees.length = MemoryRule.pairCount)
      (values : trees.mapM PairTree.value = .ok pairs) :
      LoadedRule memoryKey ⟨name, none, 0, [], .memory pairs⟩
  | keyword {name : Word} {draft : RuleDraft} {rule : Rule}
      (symbol : Lexemes.IsSymbol name) (not_memory : name ≠ memoryKeyword)
      (sound : SoundDraft draft) (made : ruleOf (keyOf name) draft = .ok rule) :
      LoadedRule (keyOf name) rule

theorem RuleTree.loadedRule {tree : RuleTree} (h : tree.form.Lexical)
    {entries : List (Word × Rule)} (hentries : tree.entries = .ok entries) :
    ∀ entry ∈ entries, LoadedRule entry.1 entry.2 := by
  cases tree with
  | empty =>
    cases hentries
    simp
  | memory name trees four =>
    obtain ⟨pairs, hpairs, rfl⟩ := RuleTree.entries_memory_eq_ok.mp hentries
    obtain ⟨hname, htrees⟩ := lexical_memory.mp h
    rw [List.forall_mem_singleton]
    exact .memory hname htrees four hpairs
  | keyword name items reference not_memory =>
    obtain ⟨draft, rule, hdraft, hrule, rfl⟩ := RuleTree.entries_keyword_eq_ok.mp hentries
    obtain ⟨hname, hitems, hreference⟩ := lexical_keyword.mp h
    rw [List.forall_mem_singleton]
    exact .keyword hname not_memory (soundDraft_bare.draftFrom hitems hreference hdraft) hrule

theorem Means.mem_entries {tree : ScriptTree} {s : Script} (h : Means tree s)
    {entry : Word × Rule} :
    entry ∈ s.rules.entries ↔ ∃ r ∈ tree.rules, ∃ own, r.entries = .ok own ∧ entry ∈ own := by
  obtain ⟨entries, hentries, hnodup, rfl, -⟩ := h
  rw [← ScriptTree.mem_entries hentries, ← WordMap.get?_ofList hnodup, WordMap.mem_entries]

end ScriptGrammar

/-- What every script has that is read from a text. -/
structure Script.Loaded (s : Script) : Prop where
  greeting : ∃ members, (listForm members).Lexical ∧
    listWords members = s.greeting
  rules : ∀ entry ∈ s.rules.entries, LoadedRule entry.1 entry.2
  complete : Complete s.rules

theorem Script.mem_keywordRules {s : Script} {entry : Word × Rule} :
    entry ∈ s.keywordRules.entries ↔ entry ∈ s.rules.entries ∧ entry.1 ≠ memoryKey := by
  simp [Script.keywordRules, WordMap.filterKeys]

theorem Script.loaded_of_read {text : List Char} {s : Script} (h : Script.read text = .ok s) :
    s.Loaded := by
  obtain ⟨tree, htokens, hmeans⟩ := Script.read_eq_ok_iff.mp h
  have hlexical : ∀ form ∈ tree.forms, form.Lexical := by
    rw [← Form.forall_mem_tokensAll_iff, ← ScriptTree.tokens, ← htokens]
    exact Lexemes.lexical_of_mem_tokens
  obtain ⟨hgreeting, hrules⟩ := List.forall_mem_cons.mp hlexical
  constructor
  · obtain ⟨_, _, _, rfl, _⟩ := hmeans
    exact ⟨tree.greeting, hgreeting, rfl⟩
  · intro entry hentry
    obtain ⟨r, hr, own, hown, hmem⟩ := hmeans.mem_entries.mp hentry
    have hform := hrules _ (List.mem_append_right _ (List.mem_map_of_mem hr))
    exact r.loadedRule hform hown entry hmem
  · obtain ⟨_, _, _, _, hcomplete⟩ := hmeans
    exact hcomplete

namespace ScriptGrammar

open ScriptReader

/-! ### What the rules of a loaded script hold -/

def draftOf (t : Transformation) : PatternDraft :=
  ⟨t.decomposition.terms, t.reassemblies⟩

theorem compile_eq_ok {patterns : List PatternDraft} {ts : List Transformation} :
    compile patterns = .ok ts ↔ patterns = ts.map draftOf := by
  induction patterns generalizing ts with
  | nil => cases ts <;> simp [compile]
  | cons p patterns ih =>
    simp only [compile, bind_eq_ok, pure_eq_ok, ih, decomposition_eq_ok]
    constructor
    · rintro ⟨d, hterms, others, rfl, rfl⟩
      rw [List.map_cons, draftOf, ← hterms]
    · intro h
      obtain ⟨t, others, rfl, rfl, rfl⟩ := List.map_eq_cons_iff.mp h.symm
      exact ⟨t.decomposition, rfl, others, rfl, rfl⟩

/-- What the body of a rule shows of its draft. -/
inductive Makes (draft : RuleDraft) : RuleBody → Prop where
  | link (target : Word) (patterns : draft.patterns = []) (link : draft.link = some target) :
      Makes draft (.link target)
  | substitution (patterns : draft.patterns = []) (link : draft.link = none)
      (tags : draft.tags = []) : Makes draft .substitution
  | tag (patterns : draft.patterns = []) (link : draft.link = none) (tags : draft.tags ≠ []) :
      Makes draft .tag
  | pre (d : Decomposition) (terms : List Word) (target : Word)
      (patterns : draft.patterns = [⟨d.terms, [.pre terms target]⟩]) (link : draft.link = none) :
      Makes draft (.pre d terms target)
  | transform (ts : List Transformation) (patterns : draft.patterns = ts.map draftOf) :
      Makes draft (.transform ts draft.link)

theorem makes_of_bodyOf {draft : RuleDraft} {body : RuleBody} (h : bodyOf draft = .ok body) :
    Makes draft body := by
  unfold bodyOf at h
  split at h
  · rename_i hpatterns hlink
    cases h
    exact .link _ hpatterns hlink
  · rename_i hpatterns hlink
    cases h
    split
    · rename_i htags
      exact .substitution hpatterns hlink (List.isEmpty_iff.mp htags)
    · rename_i htags
      exact .tag hpatterns hlink fun hnil => htags (List.isEmpty_iff.mpr hnil)
  · rename_i hpatterns hlink
    simp only [bind_eq_ok, pure_eq_ok, decomposition_eq_ok] at h
    obtain ⟨d, rfl, rfl⟩ := h
    exact .pre d _ _ hpatterns hlink
  · simp only [bind_eq_ok, pure_eq_ok, compile_eq_ok] at h
    obtain ⟨ts, hpatterns, rfl⟩ := h
    exact .transform ts hpatterns

namespace LoadedRule

variable {key : Word} {rule : Rule}

/-- Only the rule that makes memories may belong to another keyword than its key. -/
theorem keyword_eq (h : LoadedRule key rule) (hm : rule.memory? = none) : rule.keyword = key := by
  cases h with
  | memory symbol lexical four values => cases hm
  | keyword symbol not_memory sound made =>
    obtain ⟨body, -, rfl⟩ := ruleOf_eq_ok.mp made
    rfl

theorem memory?_eq_some (h : LoadedRule key rule) {m : MemoryRule}
    (hm : rule.memory? = some m) :
    key = memoryKey ∧ m.keyword = rule.keyword ∧ m.pairs.length = MemoryRule.pairCount := by
  cases h with
  | memory symbol lexical four values =>
    cases hm
    exact ⟨rfl, rfl, (length_of_mapM values).trans four⟩
  | keyword symbol not_memory sound made =>
    obtain ⟨body, hbody, rfl⟩ := ruleOf_eq_ok.mp made
    cases makes_of_bodyOf hbody <;> cases hm

theorem reassemblies_ne_nil (h : LoadedRule key rule) {ts : List Transformation}
    {link : Option Word} (hbody : rule.body = .transform ts link) :
    ∀ t ∈ ts, t.reassemblies ≠ [] := by
  cases h with
  | memory symbol lexical four values => cases hbody
  | keyword symbol not_memory sound made =>
    obtain ⟨body, hmade, rfl⟩ := ruleOf_eq_ok.mp made
    have hmakes := makes_of_bodyOf hmade
    rw [show body = .transform ts link from hbody] at hmakes
    cases hmakes with
    | transform _ hpatterns =>
      intro t ht hnil
      have hdraft := hpatterns ▸ List.mem_map_of_mem ht
      obtain ⟨pattern, first, more, -, hp⟩ := sound.patterns _ hdraft
      have hreassemblies := congrArg PatternDraft.reassemblies hp
      rw [draftOf, hnil] at hreassemblies
      cases hreassemblies

end LoadedRule

/-! ### The key of the memory rule -/

/-- The forms of the rules of a script are the lists after its greeting. -/
theorem ScriptTree.list_mem_tail_forms {tree : ScriptTree} {forms : List Form} :
    .list forms ∈ tree.forms.tail ↔ ∃ r ∈ tree.rules, r.form = .list forms := by
  rw [ScriptTree.forms, List.tail_cons, List.mem_append, List.mem_map]
  refine or_iff_right fun h => ?_
  split at h
  · cases List.mem_singleton.mp h
  · cases h

/-- A rule of a text takes the given name for its keyword. -/
def Heads (name : Word) (forms : List Form) : Prop :=
  ∃ rest, .list (.symbol name :: rest) ∈ forms.tail

/-- The memory rule of a text names the given keyword. -/
def NamedByMemory (name : Word) (forms : List Form) : Prop :=
  ∃ rest, .list (.symbol memoryKeyword :: .symbol name :: rest) ∈ forms.tail

theorem heads_memoryKey_iff {tree : ScriptTree} :
    Heads memoryKey tree.forms ↔ ∃ items reference h,
      .keyword memoryKey items reference h ∈ tree.rules := by
  simp only [Heads, ScriptTree.list_mem_tail_forms]
  constructor
  · rintro ⟨rest, r, hr, hform⟩
    cases r with
    | empty => cases hform
    | memory name pairs four =>
      simp only [RuleTree.form, Form.list.injEq, List.cons.injEq, Form.symbol.injEq] at hform
      exact absurd hform.1 (by decide)
    | keyword name items reference h =>
      simp only [RuleTree.form, Form.list.injEq, List.cons.injEq, Form.symbol.injEq] at hform
      obtain ⟨rfl, -⟩ := hform
      exact ⟨items, reference, h, hr⟩
  · rintro ⟨items, reference, h, hr⟩
    exact ⟨_, _, hr, rfl⟩

theorem namedByMemory_iff {tree : ScriptTree} {name : Word} :
    NamedByMemory name tree.forms ↔ ∃ pairs four, .memory name pairs four ∈ tree.rules := by
  simp only [NamedByMemory, ScriptTree.list_mem_tail_forms]
  constructor
  · rintro ⟨rest, r, hr, hform⟩
    cases r with
    | empty => cases hform
    | memory other pairs four =>
      simp only [RuleTree.form, Form.list.injEq, List.cons.injEq, Form.symbol.injEq] at hform
      obtain ⟨-, rfl, -⟩ := hform
      exact ⟨pairs, four, hr⟩
    | keyword other items reference h =>
      simp only [RuleTree.form, Form.list.injEq, List.cons.injEq, Form.symbol.injEq] at hform
      exact absurd hform.1 h
  · rintro ⟨pairs, four, hr⟩
    exact ⟨_, _, hr, rfl⟩

theorem keyOf_eq_memoryKey {name : Word} : keyOf name = memoryKey ↔ name = memoryKey := by
  unfold keyOf
  split
  · rename_i hname
    rw [hname]
    decide
  · rfl

namespace Means

variable {tree : ScriptTree} {s : Script}

theorem complete (h : Means tree s) : Complete s.rules := by
  obtain ⟨_, _, _, _, hcomplete⟩ := h
  exact hcomplete

theorem exists_entries (h : Means tree s) {r : RuleTree} (hr : r ∈ tree.rules) :
    ∃ own, r.entries = .ok own := by
  obtain ⟨entries, hentries, -⟩ := h
  exact ScriptTree.exists_entries_of_mem hentries hr

theorem get?_of_mem (h : Means tree s) {r : RuleTree} (hr : r ∈ tree.rules)
    {own : List (Word × Rule)} (hown : r.entries = .ok own) {entry : Word × Rule}
    (hentry : entry ∈ own) : s.rules.get? entry.1 = some entry.2 :=
  WordMap.mem_entries.mp (h.mem_entries.mpr ⟨r, hr, own, hown, hentry⟩)

/-- A memory rule of the text is the memory rule of the script. -/
theorem memoryRule?_of_memory (h : Means tree s) {name : Word} {pairs : List PairTree}
    {four : pairs.length = MemoryRule.pairCount} (hr : .memory name pairs four ∈ tree.rules) :
    s.rules.contains name = true ∧
      ∃ values, s.memoryRule? = some ⟨name, values⟩ ∧ values.length = MemoryRule.pairCount := by
  obtain ⟨own, hown⟩ := h.exists_entries hr
  obtain ⟨values, hvalues, rfl⟩ := RuleTree.entries_memory_eq_ok.mp hown
  have hget := h.get?_of_mem hr hown (List.mem_singleton_self _)
  obtain ⟨-, rule, hrule, hname⟩ := h.complete
  rw [hget] at hrule
  cases hrule
  refine ⟨hname, values, ?_, (length_of_mapM hvalues).trans four⟩
  rw [Script.memoryRule?, hget]
  rfl

/-- A keyword rule that takes the key of the memory rule leaves the script without one. -/
theorem memoryRule?_of_keyword (h : Means tree s) {items : List RuleItem}
    {reference : Option ReferenceTree} {hname : memoryKey ≠ memoryKeyword}
    (hr : .keyword memoryKey items reference hname ∈ tree.rules) : s.memoryRule? = none := by
  obtain ⟨own, hown⟩ := h.exists_entries hr
  obtain ⟨draft, rule, -, hrule, rfl⟩ := RuleTree.entries_keyword_eq_ok.mp hown
  obtain ⟨body, hbody, rfl⟩ := ruleOf_eq_ok.mp hrule
  have hget := h.get?_of_mem hr hown (List.mem_singleton_self _)
  rw [keyOf_eq_memoryKey.mpr rfl] at hget
  rw [Script.memoryRule?, hget]
  cases makes_of_bodyOf hbody <;> rfl

/-- The text of a script has a memory rule or takes its key for a keyword. -/
theorem memory_or_keyword (h : Means tree s) :
    (∃ name pairs four, .memory name pairs four ∈ tree.rules) ∨
      ∃ items reference hname, .keyword memoryKey items reference hname ∈ tree.rules := by
  obtain ⟨-, rule, hrule, -⟩ := h.complete
  obtain ⟨r, hr, own, hown, hmem⟩ := h.mem_entries.mp (WordMap.mem_entries.mpr hrule)
  have hkey : memoryKey ∈ r.key?.toList :=
    RuleTree.keys_entries hown ▸ List.mem_map_of_mem hmem
  cases r with
  | empty => cases hkey
  | memory name pairs four => exact .inl ⟨name, pairs, four, hr⟩
  | keyword name items reference hname =>
    have hname : keyOf name = memoryKey := (List.mem_singleton.mp hkey).symm
    obtain rfl := keyOf_eq_memoryKey.mp hname
    exact .inr ⟨items, reference, _, hr⟩

theorem memoryRule?_isSome_iff (h : Means tree s) :
    s.memoryRule?.isSome = true ↔ ¬ Heads memoryKey tree.forms := by
  rw [heads_memoryKey_iff]
  constructor
  · rintro hsome ⟨items, reference, hname, hr⟩
    rw [h.memoryRule?_of_keyword hr] at hsome
    cases hsome
  · intro hheads
    obtain ⟨name, pairs, four, hr⟩ := h.memory_or_keyword.resolve_right hheads
    obtain ⟨-, values, hvalues, -⟩ := h.memoryRule?_of_memory hr
    rw [hvalues]
    rfl

end Means

end ScriptGrammar

/-- The rule that makes memories is there with its four pairs, and its keyword has a rule of its
own. -/
def Script.RemembersByKeyword (s : Script) : Prop :=
  ∃ m, s.memoryRule? = some m ∧ m.pairs.length = MemoryRule.pairCount ∧
    s.keywordRules.contains m.keyword = true

theorem ScriptGrammar.Means.remembersByKeyword_iff {tree : ScriptTree} {s : Script}
    (h : Means tree s) : s.RemembersByKeyword ↔
      ¬ Heads memoryKey tree.forms ∧ ¬ NamedByMemory memoryKey tree.forms := by
  rw [← h.memoryRule?_isSome_iff, namedByMemory_iff]
  have hkeywords (name : Word) : s.keywordRules.contains name = true ↔
      name ≠ memoryKey ∧ s.rules.contains name = true := by
    rw [Script.keywordRules, WordMap.contains, WordMap.get?_filterKeys]
    by_cases hname : name = memoryKey <;> simp [hname, WordMap.contains]
  constructor
  · rintro ⟨m, hm, -, hkeyword⟩
    refine ⟨by rw [hm]; rfl, ?_⟩
    rintro ⟨pairs, four, hr⟩
    obtain ⟨-, values, hvalues, -⟩ := h.memoryRule?_of_memory hr
    cases hm.symm.trans hvalues
    exact ((hkeywords _).mp hkeyword).1 rfl
  · rintro ⟨hsome, hnamed⟩
    rw [h.memoryRule?_isSome_iff, heads_memoryKey_iff] at hsome
    obtain ⟨name, pairs, four, hr⟩ := h.memory_or_keyword.resolve_right hsome
    obtain ⟨hcontains, values, hvalues, hlength⟩ := h.memoryRule?_of_memory hr
    refine ⟨_, hvalues, hlength, (hkeywords name).mpr ⟨?_, hcontains⟩⟩
    rintro rfl
    exact hnamed ⟨pairs, four, hr⟩

theorem Session.exists_start_iff {script : Script} {options : Options} {tracer : Tracer} :
    (∃ session, Session.start script options tracer = .ok session) ↔
      script.rules.contains noneKey = true ∧ script.memoryRule?.isSome = true ∧
        1 ≤ options.maxHops := by
  unfold Session.start Repertoire.ofScript
  split
  · rename_i fault hfault
    split at hfault
    · rename_i hnone
      simp [WordMap.contains, hnone]
    · split at hfault
      · rename_i hmemory
        simp [hmemory]
      · cases hfault
  · rename_i repertoire hrepertoire
    have hnone := repertoire.noneRule_eq
    split at hrepertoire
    · cases hrepertoire
    · rename_i noneRule hnone
      split at hrepertoire
      · cases hrepertoire
      · rename_i memoryRule hmemory
        have hhops : options.maxHops < 1 ↔ ¬ 1 ≤ options.maxHops := by omega
        simp only [WordMap.contains, hnone, hmemory, Option.isSome_some, true_and, hhops]
        split <;> simp_all

/-- A script that is read from a text can be examined by reading it. -/
theorem Script.exists_read_of_any {text : List Char} {p : Script → Bool}
    (h : (Script.read text).toOption.any p = true) : ∃ s, Script.read text = .ok s ∧ p s = true := by
  cases hread : Script.read text with
  | error fault =>
    rw [hread] at h
    cases h
  | ok s =>
    rw [hread] at h
    exact ⟨s, rfl, h⟩

theorem Script.exists_read_of_isSome {text : List Char}
    (h : ((Script.read text).toOption.bind Script.memoryRule?).isSome = true) :
    ∃ s, Script.read text = .ok s ∧ s.memoryRule?.isSome = true := by
  refine Script.exists_read_of_any (p := fun s => s.memoryRule?.isSome) ?_
  rw [Option.isSome_bind] at h
  exact h

theorem Session.exists_start_of_isSome {text : List Char} {options : Options} (tracer : Tracer)
    (h : ((Script.read text).toOption.bind Script.memoryRule?).isSome = true)
    (hhops : 1 ≤ options.maxHops) :
    ∃ s session, Script.read text = .ok s ∧ Session.start s options tracer = .ok session := by
  obtain ⟨s, hread, hm⟩ := Script.exists_read_of_isSome h
  have hnone := (Script.loaded_of_read hread).complete.1
  obtain ⟨session, hstart⟩ := Session.exists_start_iff.mpr ⟨hnone, hm, hhops⟩
  exact ⟨s, session, hread, hstart⟩

/-- A loaded script always has a NONE rule. Its memory rule and the rule of that rule's keyword are
there unless the text takes the key of the memory rule for a keyword, and a conversation can begin
unless it takes the key for the keyword of a rule. -/
theorem Script.read_remembers_iff {text : List Char} {s : Script} {forms : List Form}
    (h : Script.read text = .ok s) (hforms : Lexemes.tokens text = Form.tokensAll forms) :
    s.rules.contains noneKey = true ∧
      (s.RemembersByKeyword ↔ ¬ Heads memoryKey forms ∧ ¬ NamedByMemory memoryKey forms) ∧
      ∀ (options : Options) (tracer : Tracer), 1 ≤ options.maxHops →
        ((∃ session, Session.start s options tracer = .ok session) ↔ ¬ Heads memoryKey forms) := by
  obtain ⟨tree, htokens, hmeans⟩ := Script.read_eq_ok_iff.mp h
  obtain rfl := Level.forms_eq_of_tokens_eq hforms htokens
  have hnone := hmeans.complete.1
  refine ⟨hnone, hmeans.remembersByKeyword_iff, fun options tracer hhops => ?_⟩
  rw [Session.exists_start_iff, hmeans.memoryRule?_isSome_iff]
  simp [hnone, hhops]

theorem Script.remembers_of_ordinary_keyword :
    ∃ s, Script.read
        "(HI) (NONE ((0) (OH))) (MY) (MEMORY MY (0 = A) (0 = B) (0 = C) (0 = D))".toList = .ok s ∧
      s.RemembersByKeyword := by
  refine ⟨_, rfl, ?_⟩
  have hforms : Lexemes.tokens
      "(HI) (NONE ((0) (OH))) (MY) (MEMORY MY (0 = A) (0 = B) (0 = C) (0 = D))".toList =
      Form.tokensAll
        [.list [.symbol ['H', 'I']],
          .list [.symbol noneKeyword,
            .list [.list [.number ['0']], .list [.symbol ['O', 'H']]]],
          .list [.symbol ['M', 'Y']],
          .list (.symbol memoryKeyword :: .symbol ['M', 'Y'] :: ['A', 'B', 'C', 'D'].map fun c =>
            .list [.number ['0'], .symbol equalsWord, .symbol [c]])] := by decide
  refine (Script.read_remembers_iff rfl hforms).2.1.mpr ⟨?_, ?_⟩
  · simp [Heads, memoryKey, noneKeyword, memoryKeyword]
  · simp [NamedByMemory, memoryKey, noneKeyword, memoryKeyword]

/-- A script is loaded though the rule under the key of the memory rule is no memory rule, and no
conversation can begin on it. -/
theorem Script.loaded_without_memory_rule :
    ∃ s, Script.read "(HI) (NONE ((0) (OH))) (zMEMORY)".toList = .ok s ∧
      ¬ s.RemembersByKeyword ∧
      ∀ tracer, Session.start s ⟨true, defaultMaxHops⟩ tracer = .error .noMemoryRule := by
  refine ⟨_, rfl, ?_, fun tracer => rfl⟩
  rintro ⟨m, hm, -⟩
  cases hm

end Colloquy
