import Colloquy.Proofs.RuleReading
import Colloquy.Proofs.WordMapLaws

/-!
# What the reader accepts

The reader accepts the items of a memory rule, of a rule and of a script exactly when they have the
form of a tree that stands for something. So a text is read as a script exactly when its tokens are
those of a tree that stands for the script.
-/

namespace Colloquy

namespace ScriptGrammar

open ScriptReader

/-! ### What a tree stands for -/

theorem ruleOf_eq_ok {key : Word} {draft : RuleDraft} {rule : Rule} :
    ruleOf key draft = .ok rule ↔ ∃ body, bodyOf draft = .ok body ∧
      ⟨key, draft.substitution, draft.precedence, draft.tags, body⟩ = rule := by
  simp only [ruleOf, bind_eq_ok, pure_eq_ok]

namespace RuleTree

variable {name : Word} {entries : List (Word × Rule)}

theorem entries_memory_eq_ok {pairs : List PairTree} {four : pairs.length = MemoryRule.pairCount} :
    (memory name pairs four).entries = .ok entries ↔
      ∃ values, pairs.mapM PairTree.value = .ok values ∧
        entries = [(memoryKey, ⟨name, none, 0, [], .memory values⟩)] := by
  simp only [RuleTree.entries, bind_eq_ok, pure_eq_ok]
  constructor
  · rintro ⟨values, hvalues, rfl⟩
    exact ⟨values, hvalues, rfl⟩
  · rintro ⟨values, hvalues, rfl⟩
    exact ⟨values, hvalues, rfl⟩

theorem entries_keyword_eq_ok {items : List RuleItem} {reference : Option ReferenceTree}
    {not_memory : name ≠ memoryKeyword} :
    (keyword name items reference not_memory).entries = .ok entries ↔
      ∃ draft rule, draftFrom .bare items reference = .ok draft ∧
        ruleOf (keyOf name) draft = .ok rule ∧ entries = [(keyOf name, rule)] := by
  simp only [RuleTree.entries, bind_eq_ok, pure_eq_ok]
  constructor
  · rintro ⟨draft, hdraft, rule, hrule, rfl⟩
    exact ⟨draft, rule, hdraft, hrule, rfl⟩
  · rintro ⟨draft, rule, hdraft, hrule, rfl⟩
    exact ⟨draft, hdraft, rule, hrule, rfl⟩

end RuleTree

theorem ScriptTree.entries_eq_ok {tree : ScriptTree} {entries : List (Word × Rule)} :
    tree.entries = .ok entries ↔
      ∃ lists, tree.rules.mapM RuleTree.entries = .ok lists ∧ entries = lists.flatten := by
  simp only [ScriptTree.entries, bind_eq_ok, pure_eq_ok]
  constructor
  · rintro ⟨lists, hlists, rfl⟩
    exact ⟨lists, hlists, rfl⟩
  · rintro ⟨lists, hlists, rfl⟩
    exact ⟨lists, hlists, rfl⟩

end ScriptGrammar

namespace ScriptReader

open ScriptGrammar Ending

/-! ### The memory rule -/

theorem memoryPattern_eq_ok {ending : Ending} {items rest : List Item} {terms : List Word} :
    memoryPattern ending items = .ok (terms, rest) ↔
      ∃ (front : List Item) (line : Nat) (ms : List Member),
        items = front ++ .symbol equalsWord line :: rest ∧
        Item.forms? front = some (ms.map Member.form) ∧ .symbol equalsWord ∉ ms ∧
        listWords ms = terms := by
  induction items generalizing terms rest with
  | nil => cases ending <;> simp [memoryPattern]
  | cons item items ih =>
    -- The sign ends the pattern, and every other item is a word of it.
    by_cases hsign : ∃ line, item = .symbol equalsWord line
    · obtain ⟨line, rfl⟩ := hsign
      simp only [memoryPattern, if_true, Except.ok.injEq, Prod.mk.injEq]
      constructor
      · rintro ⟨rfl, rfl⟩
        exact ⟨[], line, [], rfl, rfl, by simp, rfl⟩
      · rintro ⟨front, last, ms, hitems, hfront, hms, rfl⟩
        cases front with
        | nil =>
          cases hitems
          rw [Item.forms?_nil_eq_some, List.map_eq_nil_iff] at hfront
          exact ⟨by rw [hfront]; rfl, rfl⟩
        | cons first front =>
          rw [List.cons_append] at hitems
          obtain ⟨rfl, -⟩ := List.cons.inj hitems
          obtain ⟨form, forms, hform, -, hlist⟩ := Item.forms?_cons_eq_some.mp hfront
          rw [Item.form?_symbol] at hform
          obtain ⟨m, others, rfl, hm, -⟩ := List.map_eq_cons_iff.mp hlist
          cases m <;> cases hm <;> cases hform
          exact absurd List.mem_cons_self hms
    · have hstep : memoryPattern ending (item :: items) =
          word item >>= fun term => memoryPattern ending items >>= fun front =>
            pure (term :: front.1, front.2) := by
        cases item with
        | symbol name line =>
          rw [memoryPattern, if_neg fun hname => hsign ⟨line, by rw [hname]⟩]
          rfl
        | number digits line => rfl
        | list inner last line => rfl
      simp only [hstep, bind_eq_ok, pure_eq_ok, Prod.exists, ih, Prod.mk.injEq, word_eq_ok]
      constructor
      · rintro ⟨_, ⟨m, hm, rfl⟩, _, _, ⟨front, last, ms, rfl, hfront, hms, rfl⟩, rfl, rfl⟩
        refine ⟨item :: front, last, m :: ms, rfl,
          Item.forms?_cons_eq_some.mpr ⟨_, _, hm, hfront, rfl⟩, ?_, rfl⟩
        rw [List.mem_cons, not_or]
        refine ⟨?_, hms⟩
        rintro rfl
        exact hsign (Item.form?_eq_symbol.mp hm)
      · rintro ⟨front, last, ms, hitems, hfront, hms, rfl⟩
        cases front with
        | nil =>
          rw [List.nil_append] at hitems
          exact absurd ⟨last, (List.cons.inj hitems).1⟩ hsign
        | cons first front =>
          rw [List.cons_append] at hitems
          obtain ⟨rfl, rfl⟩ := List.cons.inj hitems
          obtain ⟨form, forms, hform, hforms, hlist⟩ := Item.forms?_cons_eq_some.mp hfront
          obtain ⟨m, others, rfl, rfl, rfl⟩ := List.map_eq_cons_iff.mp hlist
          rw [List.mem_cons, not_or] at hms
          exact ⟨_, ⟨m, hform, rfl⟩, _, _, ⟨front, last, others, rfl, hforms, hms.2, rfl⟩, rfl, rfl⟩

theorem memoryTemplate_eq_ok {ending : Ending} {items : List Item} {terms : List Word} :
    memoryTemplate ending items = .ok terms ↔
      ending.IsBracket ∧ ∃ ms : List Member, Item.forms? items = some (ms.map Member.form) ∧
        (∀ m ∈ ms, m.isGroup = false) ∧ listWords ms = terms := by
  induction items generalizing terms with
  | nil =>
    cases ending <;>
      simp [memoryTemplate, isBracket_bracket, not_isBracket_text, listWords]
  | cons item items ih =>
    constructor
    · intro h
      cases item with
      | number digits line =>
        simp only [memoryTemplate, bind_eq_ok, pure_eq_ok, ih] at h
        obtain ⟨_, ⟨hending, ms, hforms, hms, rfl⟩, rfl⟩ := h
        refine ⟨hending, .number digits :: ms, ?_, ?_, rfl⟩
        · exact Item.forms?_cons_eq_some.mpr ⟨_, _, Item.form?_number _ _, hforms, rfl⟩
        · exact List.forall_mem_cons.mpr ⟨rfl, hms⟩
      | symbol name line =>
        simp only [memoryTemplate, bind_eq_ok, pure_eq_ok, ih] at h
        obtain ⟨_, ⟨hending, ms, hforms, hms, rfl⟩, rfl⟩ := h
        refine ⟨hending, .symbol name :: ms, ?_, ?_, rfl⟩
        · exact Item.forms?_cons_eq_some.mpr ⟨_, _, Item.form?_symbol _ _, hforms, rfl⟩
        · exact List.forall_mem_cons.mpr ⟨rfl, hms⟩
      | list inner last line => simp [memoryTemplate] at h
    · rintro ⟨hending, ms, hforms, hms, rfl⟩
      obtain ⟨form, forms, hform, hrest, hlist⟩ := Item.forms?_cons_eq_some.mp hforms
      cases ms with
      | nil => cases hlist
      | cons m ms =>
        cases hlist
        have hmore : memoryTemplate ending items = .ok (listWords ms) :=
          ih.mpr ⟨hending, ms, hrest, (List.forall_mem_cons.mp hms).2, rfl⟩
        cases m with
        | number digits =>
          obtain ⟨line, rfl⟩ := Item.form?_eq_number.mp hform
          rw [memoryTemplate, hmore]
          rfl
        | symbol name =>
          obtain ⟨line, rfl⟩ := Item.form?_eq_symbol.mp hform
          rw [memoryTemplate, hmore]
          rfl
        | group names => simp [Member.isGroup] at hms

theorem memoryPair_eq_ok {items : List Item} {ending : Ending} (line : Nat) {pair : MemoryPair} :
    memoryPair items ending = .ok pair ↔
      ∃ tree : PairTree, Item.form? (.list items ending line) = some tree.form ∧
        tree.value = .ok pair := by
  simp only [memoryPair, PairTree.value, bind_eq_ok, pure_eq_ok, sized_eq_ok, Prod.exists,
    memoryPattern_eq_ok, memoryTemplate_eq_ok, Item.form?_list]
  constructor
  · rintro ⟨_, _, ⟨front, last, pattern, rfl, hfront, hequals, rfl⟩, _,
      ⟨hending, template, htemplate, hgroup, rfl⟩, hpair⟩
    refine ⟨⟨pattern, template, hequals, hgroup⟩, ⟨hending, _, ?_, rfl⟩, hpair⟩
    refine Item.forms?_append_eq_some.mpr ⟨_, _, hfront, ?_, rfl⟩
    exact Item.forms?_cons_eq_some.mpr ⟨_, _, Item.form?_symbol _ _, htemplate, rfl⟩
  · rintro ⟨⟨pattern, template, hequals, hgroup⟩, ⟨hending, forms, hforms, hlist⟩, hpair⟩
    cases hlist
    obtain ⟨front, back, rfl, hfront, hback⟩ := Item.forms?_eq_some_append hforms
    obtain ⟨last, rest, rfl, hrest⟩ := Item.forms?_eq_some_symbol_cons.mp hback
    exact ⟨_, _, ⟨front, last, pattern, rfl, hfront, hequals, rfl⟩, _,
      ⟨hending, template, hrest, hgroup, rfl⟩, hpair⟩

theorem memoryPairs_eq_ok {ending : Ending} {n : Nat} {items : List Item}
    {pairs : List MemoryPair} :
    memoryPairs ending n items = .ok pairs ↔
      ending.IsBracket ∧ ∃ trees : List PairTree,
        Item.forms? items = some (trees.map PairTree.form) ∧ trees.length = n ∧
        trees.mapM PairTree.value = .ok pairs := by
  induction n generalizing items pairs with
  | zero =>
    cases items with
    | nil => cases ending <;> simp [memoryPairs, isBracket_bracket, not_isBracket_text, pure_eq_ok]
    | cons item items =>
      have hnone : ¬ ∃ trees : List PairTree,
          Item.forms? (item :: items) = some (trees.map PairTree.form) ∧ trees.length = 0 ∧
          trees.mapM PairTree.value = .ok pairs := by
        rintro ⟨trees, hforms, hlength, -⟩
        rw [List.eq_nil_of_length_eq_zero hlength] at hforms
        cases Item.forms?_eq_some_nil.mp hforms
      cases item <;> simp only [memoryPairs, refuse_ne_ok, hnone, and_false]
  | succ n ih =>
    cases items with
    | nil => cases ending <;> simp [memoryPairs]
    | cons item items =>
      constructor
      · intro h
        cases item with
        | number digits line => simp [memoryPairs] at h
        | symbol name line => simp [memoryPairs] at h
        | list inner last line =>
          simp only [memoryPairs, bind_eq_ok, pure_eq_ok, memoryPair_eq_ok line, ih] at h
          obtain ⟨pair, ⟨tree, hform, hpair⟩, pairs, ⟨hending, trees, hforms, rfl, hpairs⟩,
            rfl⟩ := h
          refine ⟨hending, tree :: trees, ?_, rfl, mapM_cons_eq_ok.mpr ⟨_, _, hpair, hpairs, rfl⟩⟩
          exact Item.forms?_cons_eq_some.mpr ⟨_, _, hform, hforms, rfl⟩
      · rintro ⟨hending, trees, hforms, hlength, hpairs⟩
        obtain ⟨form, forms, hform, hrest, hlist⟩ := Item.forms?_cons_eq_some.mp hforms
        obtain ⟨tree, others, rfl, rfl, rfl⟩ := List.map_eq_cons_iff.mp hlist
        have hitem := hform
        obtain ⟨inner, last, line, rfl, -⟩ := Item.form?_eq_list.mp hitem
        obtain ⟨pair, pairs, hpair, hothers, rfl⟩ := mapM_cons_eq_ok.mp hpairs
        have hmore := ih.mpr ⟨hending, others, hrest, Nat.succ.inj hlength, hothers⟩
        have hfirst := (memoryPair_eq_ok line).mpr ⟨tree, hform, hpair⟩
        rw [memoryPairs, hfirst, hmore]
        rfl

/-! ### The rules of a script -/

/-- Entries with different keys, none of them in a map yet, are added to the map. -/
def Adds (known : WordMap Rule) (entries : List (Word × Rule)) (rules : WordMap Rule) : Prop :=
  (entries.map (·.1)).Nodup ∧ (∀ key ∈ entries.map (·.1), known.contains key = false) ∧
    rules = known.insertAll entries

theorem adds_nil {known rules : WordMap Rule} : Adds known [] rules ↔ rules = known := by
  simp [Adds, WordMap.insertAll]

theorem adds_singleton {known rules : WordMap Rule} {key : Word} {rule : Rule} :
    Adds known [(key, rule)] rules ↔
      known.contains key = false ∧ rules = known.insert key rule := by
  simp [Adds, WordMap.insertAll]

theorem adds_append {known rules : WordMap Rule} {entries more : List (Word × Rule)} :
    Adds known (entries ++ more) rules ↔
      ∃ between, Adds known entries between ∧ Adds between more rules := by
  have hbetween (key : Word) : (known.insertAll entries).contains key = false ↔
      key ∉ entries.map (·.1) ∧ known.contains key = false := by
    rw [← Bool.not_eq_true, WordMap.contains_insertAll, not_or, Bool.not_eq_true]
  constructor
  · rintro ⟨hnodup, hknown, rfl⟩
    rw [List.map_append, List.nodup_append] at hnodup
    obtain ⟨hentries, hmore, hdisjoint⟩ := hnodup
    refine ⟨_, ⟨hentries, fun key hkey => hknown key ?_, rfl⟩, hmore, fun key hkey => ?_, ?_⟩
    · rw [List.map_append]
      exact List.mem_append_left _ hkey
    · refine (hbetween key).mpr ⟨fun h => hdisjoint key h key hkey rfl, hknown key ?_⟩
      rw [List.map_append]
      exact List.mem_append_right _ hkey
    · exact WordMap.insertAll_append known entries more
  · rintro ⟨_, ⟨hentries, hknown, rfl⟩, hmore, hfresh, rfl⟩
    refine ⟨?_, fun key hkey => ?_, (WordMap.insertAll_append known entries more).symm⟩
    · rw [List.map_append, List.nodup_append]
      refine ⟨hentries, hmore, ?_⟩
      rintro key h _ hkey rfl
      exact ((hbetween key).mp (hfresh key hkey)).1 h
    · rw [List.map_append] at hkey
      rcases List.mem_append.mp hkey with h | h
      · exact hknown key h
      · exact ((hbetween key).mp (hfresh key h)).2

theorem memoryRule_eq_ok {known rules : WordMap Rule} {items : List Item} {ending : Ending} :
    memoryRule known items ending = .ok rules ↔
      ∃ (name : Word) (line : Nat) (rest : List Item) (pairs : List MemoryPair),
        items = .symbol name line :: rest ∧
        memoryPairs ending MemoryRule.pairCount rest = .ok pairs ∧
        Adds known [(memoryKey, ⟨name, none, 0, [], .memory pairs⟩)] rules := by
  simp only [adds_singleton]
  cases items with
  | nil => simp [memoryRule]
  | cons item rest =>
    cases item with
    | number digits line => simp [memoryRule]
    | list inner last line => simp [memoryRule]
    | symbol name line =>
      rw [memoryRule]
      split
      · rename_i hknown
        simp [hknown]
      · rename_i hknown
        rw [Bool.not_eq_true] at hknown
        simp only [bind_eq_ok, pure_eq_ok, hknown, true_and]
        constructor
        · rintro ⟨pairs, hpairs, rfl⟩
          exact ⟨name, line, rest, pairs, rfl, hpairs, rfl⟩
        · rintro ⟨name, line, rest, pairs, hitems, hpairs, rfl⟩
          cases hitems
          exact ⟨pairs, hpairs, rfl⟩

theorem keywordRule_eq_ok {known rules : WordMap Rule} {name : Word} {line : Nat}
    {items : List Item} {ending : Ending} :
    keywordRule known name line items ending = .ok rules ↔
      ∃ draft rule, ruleItems ending .bare items = .ok draft ∧
        ruleOf (keyOf name) draft = .ok rule ∧ Adds known [(keyOf name, rule)] rules := by
  simp only [adds_singleton]
  rw [keywordRule]
  split
  · rename_i hknown
    simp [hknown]
  · rename_i hknown
    rw [Bool.not_eq_true] at hknown
    simp only [bind_eq_ok, pure_eq_ok, sized_eq_ok, ruleOf, hknown, true_and]
    constructor
    · rintro ⟨draft, hdraft, body, hbody, rfl⟩
      exact ⟨draft, _, hdraft, ⟨body, hbody, rfl⟩, rfl⟩
    · rintro ⟨draft, _, hdraft, ⟨body, hbody, rfl⟩, rfl⟩
      exact ⟨draft, hdraft, body, hbody, rfl⟩

theorem rule_eq_ok {known rules : WordMap Rule} {items : List Item} {ending : Ending}
    (line : Nat) :
    rule known items ending = .ok rules ↔
      ∃ (tree : RuleTree) (entries : List (Word × Rule)),
        Item.form? (.list items ending line) = some tree.form ∧ tree.entries = .ok entries ∧
        Adds known entries rules := by
  constructor
  · intro h
    unfold rule at h
    split at h
    · cases ending with
      | bracket last =>
        cases h
        exact ⟨.empty, [], rfl, rfl, adds_nil.mpr rfl⟩
      | text last => simp at h
    · rename_i name place rest
      split at h
      · rename_i hname
        subst hname
        obtain ⟨name, _, rest, pairs, rfl, hpairs, hadds⟩ := memoryRule_eq_ok.mp h
        obtain ⟨hending, trees, hforms, hfour, hpairs⟩ := memoryPairs_eq_ok.mp hpairs
        refine ⟨.memory name trees hfour, _, ?_,
          RuleTree.entries_memory_eq_ok.mpr ⟨pairs, hpairs, rfl⟩, hadds⟩
        refine Item.form?_list_eq_list.mpr ⟨hending, ?_⟩
        simp [Item.forms?_cons_eq_some, hforms]
      · rename_i hname
        obtain ⟨draft, made, hdraft, hmade, hadds⟩ := keywordRule_eq_ok.mp h
        obtain ⟨hending, its, reference, hforms, hdraft⟩ := itemsMean_of_ruleItems hdraft
        refine ⟨.keyword name its reference hname, _, ?_,
          RuleTree.entries_keyword_eq_ok.mpr ⟨draft, made, hdraft, hmade, rfl⟩, hadds⟩
        refine Item.form?_list_eq_list.mpr ⟨hending, ?_⟩
        simp [Item.forms?_cons_eq_some, hforms]
    · simp at h
  · rintro ⟨tree, entries, hform, hentries, hadds⟩
    cases tree with
    | empty =>
      obtain ⟨⟨last, rfl⟩, hforms⟩ := Item.form?_list_eq_list.mp hform
      rw [Item.forms?_eq_some_nil.mp hforms]
      cases hentries
      rw [adds_nil.mp hadds]
      rfl
    | memory name trees four =>
      obtain ⟨hending, hforms⟩ := Item.form?_list_eq_list.mp hform
      obtain ⟨place, rest, rfl, hrest⟩ := Item.forms?_eq_some_symbol_cons.mp hforms
      obtain ⟨last, rest, rfl, hpairs⟩ := Item.forms?_eq_some_symbol_cons.mp hrest
      obtain ⟨pairs, hvalues, rfl⟩ := RuleTree.entries_memory_eq_ok.mp hentries
      have hread := memoryPairs_eq_ok.mpr ⟨hending, trees, hpairs, four, hvalues⟩
      rw [rule, if_pos rfl]
      exact memoryRule_eq_ok.mpr ⟨name, last, rest, pairs, rfl, hread, hadds⟩
    | keyword name its reference not_memory =>
      obtain ⟨hending, hforms⟩ := Item.form?_list_eq_list.mp hform
      obtain ⟨place, rest, rfl, hrest⟩ := Item.forms?_eq_some_symbol_cons.mp hforms
      obtain ⟨draft, made, hdraft, hmade, rfl⟩ := RuleTree.entries_keyword_eq_ok.mp hentries
      have hread := ruleItems_of_itemsMean hending ⟨its, reference, hrest, hdraft⟩
      rw [rule, if_neg not_memory]
      exact keywordRule_eq_ok.mpr ⟨draft, made, hread, hmade, hadds⟩

theorem rules_eq_ok {known rules : WordMap Rule} {ending : Ending} {items : List Item} :
    ScriptReader.rules known ending items = .ok rules ↔
      ending.IsText ∧ ∃ (trees : List RuleTree) (entries : List (List (Word × Rule))),
        Item.forms? items = some (trees.map RuleTree.form) ∧
        trees.mapM RuleTree.entries = .ok entries ∧ Adds known entries.flatten rules := by
  -- Every rule is checked against the keys before it, so the induction is for every map.
  induction items generalizing known with
  | nil =>
    constructor
    · intro h
      cases ending with
      | bracket line => simp [ScriptReader.rules] at h
      | text line =>
        cases h
        exact ⟨⟨line, rfl⟩, [], [], rfl, rfl, adds_nil.mpr rfl⟩
    · rintro ⟨⟨line, rfl⟩, trees, entries, hforms, hentries, hadds⟩
      rw [Item.forms?_nil_eq_some, List.map_eq_nil_iff] at hforms
      subst hforms
      cases hentries
      rw [adds_nil.mp hadds]
      rfl
  | cons item items ih =>
    constructor
    · intro h
      cases item with
      | number digits line => simp [ScriptReader.rules] at h
      | symbol name line => simp [ScriptReader.rules] at h
      | list inner last line =>
        simp only [ScriptReader.rules, bind_eq_ok, rule_eq_ok line, ih] at h
        obtain ⟨_, ⟨tree, first, hform, hfirst, hadd⟩, htext, trees, entries, hforms, hentries,
          hadds⟩ := h
        exact ⟨htext, tree :: trees, first :: entries,
          Item.forms?_cons_eq_some.mpr ⟨_, _, hform, hforms, rfl⟩,
          mapM_cons_eq_ok.mpr ⟨_, _, hfirst, hentries, rfl⟩, adds_append.mpr ⟨_, hadd, hadds⟩⟩
    · rintro ⟨htext, trees, entries, hforms, hentries, hadds⟩
      obtain ⟨form, forms, hform, hrest, hlist⟩ := Item.forms?_cons_eq_some.mp hforms
      obtain ⟨tree, others, rfl, rfl, rfl⟩ := List.map_eq_cons_iff.mp hlist
      obtain ⟨inner, last, line, rfl⟩ := Item.exists_eq_list hform tree.exists_form_eq_list
      obtain ⟨first, entries, hfirst, hmore, rfl⟩ := mapM_cons_eq_ok.mp hentries
      rw [List.flatten_cons] at hadds
      obtain ⟨between, hadd, hadds⟩ := adds_append.mp hadds
      simp only [ScriptReader.rules, bind_eq_ok]
      exact ⟨between, (rule_eq_ok line).mpr ⟨tree, first, hform, hfirst, hadd⟩,
        ih.mpr ⟨htext, others, entries, hrest, hmore, hadds⟩⟩

theorem checked_eq_ok {s t : Script} : checked s = .ok t ↔ s = t ∧ Complete s.rules := by
  unfold checked Complete
  split
  · rename_i hnone
    split
    · rename_i hmemory
      simp [hmemory]
    · rename_i memory hmemory
      split
      · rename_i hkeyword
        simp [hnone, hmemory, hkeyword]
      · rename_i hkeyword
        simp [hmemory, hkeyword]
  · rename_i hnone
    simp [hnone]

/-- What is left of the items when the word START has been skipped. -/
theorem forms?_skipStart {items : List Item} {trees : List RuleTree} :
    Item.forms? (skipStart items) = some (trees.map RuleTree.form) ↔
      ∃ start : Bool, Item.forms? items =
        some ((if start then [.symbol startWord] else []) ++ trees.map RuleTree.form) := by
  have hlist (tree : RuleTree) (name : Word) : tree.form ≠ .symbol name := by
    cases tree <;> simp [RuleTree.form]
  cases items with
  | nil => simp [skipStart]
  | cons item items =>
    cases item with
    | number digits line => simp [skipStart, Item.forms?_cons_eq_some]
    | list inner last line => simp [skipStart, Item.forms?_cons_eq_some, Item.form?_list]
    | symbol name line =>
      rw [skipStart]
      split
      · rename_i hname
        subst hname
        simp [Item.forms?_cons_eq_some]
        grind [List.map_eq_cons_iff]
      · rename_i hname
        simp [Item.forms?_cons_eq_some, Ne.symm hname]

theorem adds_empty {entries : List (Word × Rule)} {rules : WordMap Rule} :
    Adds WordMap.empty entries rules ↔
      (entries.map (·.1)).Nodup ∧ rules = WordMap.ofList entries := by
  simp [Adds, WordMap.ofList_eq_insertAll, WordMap.contains]

theorem script_eq_ok {level : Level} {s : Script} :
    ScriptReader.script level = .ok s ↔
      level.ending.IsText ∧ ∃ tree : ScriptTree,
        Item.forms? level.items = some tree.forms ∧ Means tree s := by
  have hread : ScriptReader.script level = .ok s ↔ ∃ greeting rest rules,
      takeList level.ending level.items = .ok (greeting, rest) ∧
      ScriptReader.rules WordMap.empty level.ending (skipStart rest) = .ok rules ∧
      s = ⟨greeting, rules⟩ ∧ Complete s.rules := by
    simp only [ScriptReader.script, bind_eq_ok, Prod.exists, mapError_eq_ok, checked_eq_ok]
    grind
  rw [hread]
  constructor
  · rintro ⟨_, rest, rules, hgreeting, hrules, rfl, hcomplete⟩
    obtain ⟨item, greeting, hitems, hform, rfl⟩ := takeList_eq_ok.mp hgreeting
    obtain ⟨htext, trees, entries, hforms, hentries, hadds⟩ := rules_eq_ok.mp hrules
    obtain ⟨start, hrest⟩ := forms?_skipStart.mp hforms
    obtain ⟨hnodup, rfl⟩ := adds_empty.mp hadds
    refine ⟨htext, ⟨greeting, start, trees⟩, ?_, entries.flatten,
      ScriptTree.entries_eq_ok.mpr ⟨entries, hentries, rfl⟩, hnodup, rfl, hcomplete⟩
    rw [hitems]
    exact Item.forms?_cons_eq_some.mpr ⟨_, _, hform, hrest, rfl⟩
  · rintro ⟨htext, ⟨greeting, start, trees⟩, hforms, _, hentries, hnodup, rfl, hcomplete⟩
    obtain ⟨item, rest, hitems, hform, hrest⟩ := Item.forms?_eq_some_cons.mp hforms
    obtain ⟨entries, hlists, rfl⟩ := ScriptTree.entries_eq_ok.mp hentries
    refine ⟨_, rest, _, takeList_eq_ok.mpr ⟨item, greeting, hitems, hform, rfl⟩, ?_, rfl,
      hcomplete⟩
    exact rules_eq_ok.mpr ⟨htext, trees, entries, forms?_skipStart.mpr ⟨start, hrest⟩, hlists,
      adds_empty.mpr ⟨hnodup, rfl⟩⟩

end ScriptReader

/-- A text is read as a script exactly when its tokens are those of a tree that stands for the
script. -/
theorem Script.read_eq_ok_iff {text : List Char} {s : Script} :
    Script.read text = .ok s ↔
      ∃ tree : ScriptGrammar.ScriptTree, Lexemes.tokens text = tree.tokens ∧
        ScriptGrammar.Means tree s := by
  simp only [Script.read, Scanner.rest_start, ScriptReader.script_eq_ok, ScriptGrammar.ScriptTree.tokens,
    ← Level.forms?_read_iff]
  grind

end Colloquy
