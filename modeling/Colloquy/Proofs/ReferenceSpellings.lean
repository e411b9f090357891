import Mathlib.Data.List.Forall2
import Colloquy.Proofs.ScriptRoundTrip
import Colloquy.Proofs.UniqueDerivations

/-!
# The spellings of a reference

A reference to a keyword is spelled with its sign joined to the keyword or apart from it. At the end
of a rule and behind the template of a `PRE` list both spellings give the same rules. Where a
reference stands for a whole reassembly only the joined one is a reference: the other is a template
of two words.
-/

namespace Colloquy

namespace ScriptGrammar

open ScriptReader

/-- The members spell a reference to the target. -/
inductive Refers : List Member → Word → Prop where
  | joined (first : Char) (rest : Word) : Refers [.symbol ('=' :: first :: rest)] (first :: rest)
  | apart (target : Word) : Refers [.symbol equalsWord, .symbol target] target

/-! ### Derivations that differ in spelling -/

/-- The two are the same but for the spelling of references: of what a `PRE` list refers to and, if
asked for, of references that stand alone. -/
inductive ReassemblyTree.Respells (alone : Prop) : ReassemblyTree → ReassemblyTree → Prop where
  | same (tree : ReassemblyTree) : Respells alone tree tree
  | pre (terms : List Member) {reference other : List Member} {target : Word}
      (names : Names (listWords reference) target) (names' : Names (listWords other) target) :
      Respells alone (.pre terms reference target names) (.pre terms other target names')
  | plain {members others : List Member} {target : Word} (asked : alone)
      (refers : Refers members target) (refers' : Refers others target)
      (not_pre : members.head? ≠ some (.symbol preWord))
      (not_pre' : others.head? ≠ some (.symbol preWord)) :
      Respells alone (.plain members not_pre) (.plain others not_pre')

inductive RuleItem.Respells (alone : Prop) : RuleItem → RuleItem → Prop where
  | same (item : RuleItem) : Respells alone item item
  | transformation (pattern : List Member) {first other : ReassemblyTree}
      {more others : List ReassemblyTree}
      (reassemblies : List.Forall₂ (ReassemblyTree.Respells alone) (first :: more)
        (other :: others)) :
      Respells alone (.transformation pattern first more) (.transformation pattern other others)

inductive RuleTree.Respells (alone : Prop) : RuleTree → RuleTree → Prop where
  | same (tree : RuleTree) : Respells alone tree tree
  | keyword (name : Word) {items others : List RuleItem} {reference other : Option ReferenceTree}
      (not_memory : name ≠ memoryKeyword)
      (items_respell : List.Forall₂ (RuleItem.Respells alone) items others)
      (target : reference.map ReferenceTree.target = other.map ReferenceTree.target) :
      Respells alone (.keyword name items reference not_memory)
        (.keyword name others other not_memory)

/-- The two are the same but for the spelling of references in their rules. -/
structure ScriptTree.Respells (alone : Prop) (tree other : ScriptTree) : Prop where
  greeting : tree.greeting = other.greeting
  start : tree.start = other.start
  rules : List.Forall₂ (RuleTree.Respells alone) tree.rules other.rules

private theorem map_eq_of_forall₂ {α β : Type} {f : α → β} {R : α → α → Prop} {l m : List α}
    (hR : ∀ a b, R a b → f a = f b) (h : List.Forall₂ R l m) : l.map f = m.map f := by
  induction h with
  | nil => rfl
  | cons hab _ ih => rw [List.map_cons, List.map_cons, hR _ _ hab, ih]

/-! ### Reassemblies -/

/-- Only a joined reference that stands alone is a reference. -/
theorem Refers.eq_of_ofTerms_eq {members others : List Member} {target : Word}
    (h : Refers members target) (hother : Refers others target)
    (heq : Reassembly.ofTerms (listWords members) = Reassembly.ofTerms (listWords others)) :
    members = others := by
  cases h with
  | joined first rest =>
    cases hother with
    | joined => rfl
    | apart => cases heq
  | apart =>
    cases hother with
    | joined => cases heq
    | apart => rfl

namespace ReassemblyTree.Respells

variable {tree other : ReassemblyTree}

theorem value_eq (h : tree.Respells False other) : tree.value = other.value := by
  cases h with
  | same => rfl
  | pre terms names names' => rfl
  | plain asked => exact asked.elim

theorem of_value_eq (h : tree.Respells True other) (heq : tree.value = other.value) :
    tree.Respells False other := by
  cases h with
  | same => exact .same _
  | pre terms names names' => exact .pre terms names names'
  | plain _ refers refers' not_pre not_pre' =>
    cases refers.eq_of_ofTerms_eq refers' heq
    exact .same _

theorem forall₂_of_map_value_eq {trees others : List ReassemblyTree}
    (h : List.Forall₂ (Respells True) trees others)
    (heq : trees.map value = others.map value) : List.Forall₂ (Respells False) trees others := by
  induction h with
  | nil => exact .nil
  | cons htree _ ih =>
    obtain ⟨hvalue, hrest⟩ := List.cons.inj heq
    exact .cons (htree.of_value_eq hvalue) (ih hrest)

end ReassemblyTree.Respells

/-! ### Items -/

def RuleItem.patterns : RuleItem → List PatternDraft
  | .transformation pattern first more =>
    [⟨listWords pattern, (first :: more).map ReassemblyTree.value⟩]
  | .substitution _ | .precedence _ | .tags _ => []

namespace RuleItem.Respells

variable {item other : RuleItem}

theorem of_patterns_eq (h : item.Respells True other) (heq : item.patterns = other.patterns) :
    item.Respells False other := by
  cases h with
  | same => exact .same _
  | transformation pattern reassemblies =>
    have hvalues := (PatternDraft.mk.inj (List.cons.inj heq).1).2
    exact .transformation pattern
      (ReassemblyTree.Respells.forall₂_of_map_value_eq reassemblies hvalues)

theorem length_patterns_eq (h : item.Respells True other) :
    item.patterns.length = other.patterns.length := by
  cases h with
  | same => rfl
  | transformation pattern reassemblies => rfl

theorem numbers_eq (h : item.Respells True other) : item.numbers = other.numbers := by
  cases h with
  | same => rfl
  | transformation pattern reassemblies => rfl

theorem addTo_eq (h : item.Respells False other) (draft : RuleDraft) :
    item.addTo draft = other.addTo draft := by
  cases h with
  | same => rfl
  | transformation pattern reassemblies =>
    rw [addTo, addTo, map_eq_of_forall₂ (fun _ _ h => h.value_eq) reassemblies]

end RuleItem.Respells

/-- The patterns of a rule are those of its items. -/
theorem patterns_of_draftFrom {draft result : RuleDraft} {items : List RuleItem}
    {reference : Option ReferenceTree} (h : draftFrom draft items reference = .ok result) :
    result.patterns = draft.patterns ++ items.flatMap RuleItem.patterns := by
  induction items generalizing draft with
  | nil =>
    rw [draftFrom_nil] at h
    cases reference <;> cases h <;> simp
  | cons item items ih =>
    rw [draftFrom_cons, bind_eq_ok] at h
    obtain ⟨next, hnext, hrest⟩ := h
    have hpatterns : next.patterns = draft.patterns ++ item.patterns := by
      cases item with
      | substitution name => cases hnext; simp [RuleItem.patterns]
      | tags members => cases hnext; simp [RuleItem.patterns]
      | transformation pattern first more => cases hnext; rfl
      | precedence digits =>
        simp only [RuleItem.addTo, bind_eq_ok, pure_eq_ok] at hnext
        obtain ⟨precedence, -, rfl⟩ := hnext
        simp [RuleItem.patterns]
    rw [ih hrest, hpatterns, List.flatMap_cons, List.append_assoc]

theorem patterns_eq_of_makes {draft other : RuleDraft} {body : RuleBody} (h : Makes draft body)
    (hother : Makes other body) : draft.patterns = other.patterns := by
  have hinjective : Function.Injective fun p : PatternDraft => (p.terms, p.reassemblies) := by
    rintro ⟨terms, reassemblies⟩ ⟨others, more⟩ heq
    cases heq
    rfl
  refine List.map_injective_iff.mpr hinjective ?_
  rw [← h.transformations_eq, hother.transformations_eq]

/-- Items that make the same patterns have no reference that stands alone spelled in another way. -/
theorem RuleItem.Respells.forall₂_of_patterns_eq {items others : List RuleItem}
    (h : List.Forall₂ (RuleItem.Respells True) items others)
    (heq : items.flatMap RuleItem.patterns = others.flatMap RuleItem.patterns) :
    List.Forall₂ (RuleItem.Respells False) items others := by
  induction h with
  | nil => exact .nil
  | cons hitem _ ih =>
    rw [List.flatMap_cons, List.flatMap_cons] at heq
    obtain ⟨hpatterns, hrest⟩ := List.append_inj heq hitem.length_patterns_eq
    exact .cons (hitem.of_patterns_eq hpatterns) (ih hrest)

theorem draftFrom_eq {items others : List RuleItem} {reference other : Option ReferenceTree}
    (h : List.Forall₂ (RuleItem.Respells False) items others)
    (htarget : reference.map ReferenceTree.target = other.map ReferenceTree.target)
    (draft : RuleDraft) : draftFrom draft items reference = draftFrom draft others other := by
  induction h generalizing draft with
  | nil => cases reference <;> cases other <;> simp_all [draftFrom_nil]
  | cons hitem _ ih =>
    rw [draftFrom_cons, draftFrom_cons, hitem.addTo_eq]
    exact bind_congr ih

/-! ### Rules -/

namespace RuleTree.Respells

variable {alone : Prop} {r other : RuleTree}

theorem key?_eq (h : r.Respells alone other) : r.key? = other.key? := by
  cases h <;> rfl

theorem numbers_eq (h : r.Respells True other) : r.numbers = other.numbers := by
  cases h with
  | same => rfl
  | keyword name not_memory items_respell target =>
    rw [numbers, numbers, List.flatMap_def, List.flatMap_def,
      map_eq_of_forall₂ (fun _ _ h => h.numbers_eq) items_respell]

theorem entries_eq (h : r.Respells False other) : r.entries = other.entries := by
  cases h with
  | same => rfl
  | keyword name not_memory items_respell target =>
    rw [entries, entries, draftFrom_eq items_respell target]

theorem of_entries_eq (h : r.Respells True other) {own : List (Word × Rule)}
    (hown : r.entries = .ok own) (hsame : other.entries = .ok own) : r.Respells False other := by
  cases h with
  | same => exact .same _
  | keyword name not_memory items_respell target =>
    obtain ⟨draft, rule, hdraft, hrule, rfl⟩ := entries_keyword_eq_ok.mp hown
    obtain ⟨draft', rule', hdraft', hrule', hentry⟩ := entries_keyword_eq_ok.mp hsame
    cases hentry
    obtain ⟨body, hbody, rfl⟩ := ruleOf_eq_ok.mp hrule
    obtain ⟨body', hbody', hbodies⟩ := ruleOf_eq_ok.mp hrule'
    obtain ⟨-, -, -, -, rfl⟩ := Rule.mk.inj hbodies
    have hpatterns := patterns_eq_of_makes (makes_of_bodyOf hbody) (makes_of_bodyOf hbody')
    rw [patterns_of_draftFrom hdraft, patterns_of_draftFrom hdraft'] at hpatterns
    exact .keyword name not_memory
      (RuleItem.Respells.forall₂_of_patterns_eq items_respell (List.append_cancel_left hpatterns))
      target

end RuleTree.Respells

/-! ### Scripts -/

/-- What a rule of a text stands for can be looked up in the script. -/
theorem Means.own_eq {tree : ScriptTree} {s : Script} (h : Means tree s) {r : RuleTree}
    (hr : r ∈ tree.rules) {own : List (Word × Rule)} (hown : r.entries = .ok own) :
    own = r.key?.toList.filterMap fun key => (s.rules.get? key).map (Prod.mk key) := by
  have hget : ∀ entry ∈ own,
      ((fun key => (s.rules.get? key).map (Prod.mk key)) ∘ Prod.fst) entry = some entry := by
    intro entry hentry
    rw [Function.comp_apply, h.get?_of_mem hr hown hentry]
    rfl
  rw [← RuleTree.keys_entries hown, List.filterMap_map, List.filterMap_congr hget,
    List.filterMap_some]

namespace ScriptTree.Respells

variable {tree other : ScriptTree} {s t : Script}

theorem keys_eq {alone : Prop} (h : tree.Respells alone other) : tree.keys = other.keys := by
  have hkeys := map_eq_of_forall₂ (fun _ _ h => h.key?_eq) h.rules
  have hmap (rules : List RuleTree) :
      rules.filterMap RuleTree.key? = (rules.map RuleTree.key?).filterMap id := by
    rw [List.filterMap_map]
    rfl
  rw [keys, keys, hmap, hmap, hkeys]

/-- Every rule of the second tree is one of the first in another spelling. -/
theorem exists_of_mem {alone : Prop} (h : tree.Respells alone other) :
    ∀ r ∈ other.rules, ∃ own ∈ tree.rules, own.Respells alone r := by
  have hmem : ∀ {rules others : List RuleTree},
      List.Forall₂ (RuleTree.Respells alone) rules others →
        ∀ r ∈ others, ∃ own ∈ rules, own.Respells alone r := by
    intro rules others h
    induction h with
    | nil => simp
    | cons hrule _ ih => grind
  exact hmem h.rules

theorem admissible (h : tree.Respells True other) (ha : tree.Admissible) : other.Admissible := by
  obtain ⟨hdiffer, hnone, hmemory, hkeyword, hshort⟩ := ha
  rw [h.keys_eq] at hdiffer hnone hmemory
  refine ⟨hdiffer, hnone, hmemory, fun name pairs four hr => ?_, fun r hr => ?_⟩
  · obtain ⟨own, hown, hrespells⟩ := h.exists_of_mem _ hr
    cases hrespells
    exact h.keys_eq ▸ hkeyword name pairs four hown
  · obtain ⟨own, hown, hrespells⟩ := h.exists_of_mem _ hr
    exact hrespells.numbers_eq ▸ hshort own hown

theorem entries_eq (h : tree.Respells False other) : tree.entries = other.entries := by
  have hrules := map_eq_of_forall₂ (fun _ _ h => h.entries_eq) h.rules
  have hmapM (rules : List RuleTree) :
      rules.mapM RuleTree.entries = (rules.map RuleTree.entries).mapM id := by
    rw [List.mapM_map]
    rfl
  rw [entries, entries, hmapM, hmapM, hrules]

/-- Scripts whose texts differ in the spelling of references have the same rules just when no
reference that stands alone is spelled in another way. -/
theorem rules_eq_iff (h : tree.Respells True other) (hs : Means tree s) (ht : Means other t) :
    t.rules = s.rules ↔ tree.Respells False other := by
  constructor
  · -- Rules at the same place have one key, so what they stand for is looked up in equal maps.
    intro heq
    obtain ⟨hlength, hzip⟩ := List.forall₂_iff_zip.mp h.rules
    refine ⟨h.greeting, h.start, List.forall₂_iff_zip.mpr ⟨hlength, fun {r r'} hpair => ?_⟩⟩
    obtain ⟨hr, hr'⟩ := List.of_mem_zip hpair
    obtain ⟨own, hown⟩ := hs.exists_entries hr
    obtain ⟨own', hown'⟩ := ht.exists_entries hr'
    have hsame : own' = own := by
      rw [hs.own_eq hr hown, ht.own_eq hr' hown', (hzip hpair).key?_eq, heq]
    exact (hzip hpair).of_entries_eq hown (hsame ▸ hown')
  · intro h
    have hentries := h.entries_eq
    obtain ⟨entries, hown, -, rfl, -⟩ := hs
    obtain ⟨others, hothers, -, rfl, -⟩ := ht
    rw [hentries, hothers] at hown
    cases hown
    rfl

end ScriptTree.Respells

end ScriptGrammar

open ScriptGrammar

/-- A text with references spelled in another way is read as well, and with the same greeting. Its
rules are the same just when the spelling differs at the ends of rules and in `PRE` lists only. -/
theorem Script.read_respelled {text : List Char} {s : Script} (h : Script.read text = .ok s) :
    (∃ tree : ScriptTree, Lexemes.tokens text = tree.tokens) ∧
      ∀ (tree other : ScriptTree) (respelled : List Char), Lexemes.tokens text = tree.tokens →
        tree.Respells True other → Lexemes.tokens respelled = other.tokens →
          ∃ t, Script.read respelled = .ok t ∧ t.greeting = s.greeting ∧
            (t.rules = s.rules ↔ tree.Respells False other) := by
  obtain ⟨tree, htokens, hmeans⟩ := Script.read_eq_ok_iff.mp h
  refine ⟨⟨tree, htokens⟩, fun tree' other respelled htree hrespells hother => ?_⟩
  obtain rfl := ScriptTree.eq_of_tokens_eq htokens htree
  have hlexical : ∀ token ∈ tree.tokens, token.Lexical := htokens ▸ Lexemes.lexical_of_mem_tokens
  have hlexical' : ∀ token ∈ other.tokens, token.Lexical := hother ▸ Lexemes.lexical_of_mem_tokens
  have hadmissible := (ScriptTree.exists_means_iff hlexical).mp ⟨s, hmeans⟩
  obtain ⟨t, ht⟩ := (ScriptTree.exists_means_iff hlexical').mpr (hrespells.admissible hadmissible)
  refine ⟨t, Script.read_eq_ok_iff.mpr ⟨other, hother, ht⟩, ?_, hrespells.rules_eq_iff hmeans ht⟩
  obtain ⟨_, -, -, rfl, -⟩ := hmeans
  obtain ⟨_, -, -, rfl, -⟩ := ht
  rw [hrespells.greeting]

theorem Script.read_with_references_apart :
    ∃ s, Script.read
        ("(HI) (NONE) (A ((0) (PRE (1) (=B))) (=B)) ".toList ++
          "(MEMORY A (0 =) (0 =) (0 =) (0 =))".toList) = .ok s ∧
      ∃ t, Script.read
          ("(HI) (NONE) (A ((0) (PRE (1) (= B))) (= B)) ".toList ++
            "(MEMORY A (0 =) (0 =) (0 =) (0 =))".toList) = .ok t ∧
        t.greeting = s.greeting ∧ t.rules = s.rules := by
  let none : RuleTree := .keyword noneKeyword [] none (by decide)
  let memory : RuleTree :=
    .memory ['A'] (List.replicate 4 ⟨[.number ['0']], [], by decide, by decide⟩) rfl
  let joined : Names (listWords [.symbol ['=', 'B']]) ['B'] := .joined 'B' []
  let apart : Names (listWords [.symbol ['='], .symbol ['B']]) ['B'] := .apart ['B']
  let item (reference : List Member) (names : Names (listWords reference) ['B']) : RuleItem :=
    .transformation [.number ['0']] (.pre [.number ['1']] reference ['B'] names) []
  let tree : ScriptTree := ⟨[.symbol ['H', 'I']], false,
    [none, .keyword ['A'] [item _ joined] (some (.joined 'B' [])) (by decide), memory]⟩
  let other : ScriptTree := ⟨[.symbol ['H', 'I']], false,
    [none, .keyword ['A'] [item _ apart] (some (.apart ['B'])) (by decide), memory]⟩
  have hrespells (alone : Prop) : tree.Respells alone other := by
    have hitem : (item _ joined).Respells alone (item _ apart) :=
      .transformation _ (.cons (.pre _ joined apart) .nil)
    refine ⟨rfl, rfl, .cons (.same none) (.cons ?_ (.cons (.same memory) .nil))⟩
    exact .keyword ['A'] (by decide) (.cons hitem .nil) rfl
  refine (Script.exists_read_of_isSome (by decide +kernel)).imp fun s hs => ⟨hs.1, ?_⟩
  exact ((Script.read_respelled hs.1).2 tree other _ (by decide +kernel) (hrespells True)
    (by decide +kernel)).imp fun t ht => ⟨ht.1, ht.2.1, ht.2.2.mpr (hrespells False)⟩

/-- Scripts that are read from two texts have different rules if a test tells them apart. -/
theorem Script.exists_rules_ne {text other : List Char} (p : WordMap Rule → Bool)
    (h : (Script.read text).toOption.any (fun s => p s.rules) = true)
    (hother : (Script.read other).toOption.any (fun t => !p t.rules) = true) :
    ∃ s t, Script.read text = .ok s ∧ Script.read other = .ok t ∧ t.rules ≠ s.rules := by
  obtain ⟨s, hs, htrue⟩ := Script.exists_read_of_any h
  obtain ⟨t, ht, hfalse⟩ := Script.exists_read_of_any hother
  refine ⟨s, t, hs, ht, fun heq => ?_⟩
  rw [heq, htrue] at hfalse
  cases hfalse

/-- Where a reference stands alone as a reassembly its spelling matters. -/
theorem Script.rules_of_reference_apart_alone :
    ∃ s t, Script.read
        ("(HI) (NONE ((0) (OH))) (A ((0) (=B))) (B ((0) (OK))) ".toList ++
          "(MEMORY A (0 = A) (0 = B) (0 = C) (0 = D))".toList) = .ok s ∧
      Script.read
        ("(HI) (NONE ((0) (OH))) (A ((0) (= B))) (B ((0) (OK))) ".toList ++
          "(MEMORY A (0 = A) (0 = B) (0 = C) (0 = D))".toList) = .ok t ∧
      t.rules ≠ s.rules := by
  refine Script.exists_rules_ne (fun rules => (rules.get? ['A']).any fun rule =>
    ScriptWriter.transformations rule.body = [([['0']], [.link ['B']])]) ?_ ?_
  · decide +kernel
  · decide +kernel

end Colloquy
