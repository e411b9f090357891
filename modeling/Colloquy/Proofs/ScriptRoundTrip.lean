import Colloquy.Proofs.LoadedScripts
import Colloquy.Proofs.SpelledTexts

/-!
# Writing a script and reading it again

What is written for a part of a loaded script spells a tree that stands for that part. The tree need
not be the one that the part was read from: items come in one order, and a target stands behind its
sign without a space. A script with a memory rule is therefore read from its own text.
-/

namespace Colloquy

open Lexemes

namespace ScriptGrammar

open ScriptReader ScriptWriter

/-! ### References -/

theorem isSymbol_reference {target : Word} (h : Unbroken target) : IsSymbol ('=' :: target) where
  ne_nil := List.cons_ne_nil _ _
  head := by simp
  unbroken := List.forall_mem_cons.mpr ⟨by decide, h⟩

/-- A word behind the sign of a reference names itself as the target. -/
theorem names_joined {target : Word} (hne : target ≠ []) :
    Names (listWords [.symbol ('=' :: target)]) target := by
  cases target with
  | nil => exact absurd rfl hne
  | cons first rest => exact .joined first rest

/-- A member is a symbol if its word begins like one. -/
theorem eq_symbol_of_word_eq {m : Member} (h : m.form.Lexical) {first : Char} {rest : Word}
    (hword : m.word = first :: rest) (hdigit : first.isDigit = false) (hopening : first ≠ '(') :
    m = .symbol (first :: rest) := by
  cases m with
  | symbol name => exact congrArg Member.symbol hword
  | number digits =>
    have hfirst := (Form.lexical_number.mp h).isDigit first (by
      rw [show digits = first :: rest from hword]
      exact List.mem_cons_self)
    rw [hdigit] at hfirst
    cases hfirst
  | group names => exact absurd (List.cons.inj hword).1.symm hopening

/-- A list that names a target is written as the target behind its sign. -/
theorem exists_reference {members : List Member} {target : Word}
    (h : (listForm members).Lexical) (hnames : Names (listWords members) target) :
    ∃ written : List Member, Names (listWords written) target ∧
      Spells ('=' :: target) (Form.tokensAll (written.map Member.form)) := by
  have hmembers := lexical_listForm.mp h
  generalize hwords : listWords members = words at hnames
  cases hnames with
  | joined first rest =>
    obtain ⟨m, rfl, hword⟩ := List.map_eq_singleton_iff.mp hwords
    have hm := hmembers m List.mem_cons_self
    obtain rfl := eq_symbol_of_word_eq hm hword (by decide) (by decide)
    exact ⟨_, names_joined (List.cons_ne_nil _ _), Spells.symbol (Form.lexical_symbol.mp hm)⟩
  | apart target =>
    obtain ⟨sign, others, rfl, hsign, hothers⟩ := List.map_eq_cons_iff.mp hwords
    obtain ⟨m, rfl, rfl⟩ := List.map_eq_singleton_iff.mp hothers
    have hm := hmembers m (List.mem_cons_of_mem _ List.mem_cons_self)
    cases m with
    | symbol name =>
      obtain ⟨hne, -, hunbroken⟩ := Form.lexical_symbol.mp hm
      exact ⟨_, names_joined hne, Spells.symbol (isSymbol_reference hunbroken)⟩
    | number digits =>
      obtain ⟨hne, hdigits⟩ := Form.lexical_number.mp hm
      have hunbroken : Unbroken digits := fun c hc => endsSymbol_of_isDigit (hdigits c hc)
      exact ⟨_, names_joined hne, Spells.symbol (isSymbol_reference hunbroken)⟩
    | group names =>
      -- The bracket of a group ends the sign, so the two are read apart again.
      refine ⟨[.symbol equalsWord, .group names], .apart _, ?_⟩
      have hspells := Spells.equals.append (spells_member hm).2 (breaks_cons _ rfl)
      simpa [equalsWord, Member.form, Member.word, Form.tokensAll, Form.tokens] using hspells

/-! ### Reassemblies -/

theorem reassembly_ofTerms (words : List Word) :
    ScriptWriter.reassembly (Reassembly.ofTerms words) = bracketed words := by
  unfold Reassembly.ofTerms
  split
  · simp [ScriptWriter.reassembly, ScriptWriter.reference, bracketed, Words.join]
  · split
    · rename_i hwords
      rw [hwords]
      rfl
    · rfl

/-- The words of a rewriting reassembly, each with the tokens that it spells. -/
def preSpelling (terms : List Member) (target : Word) (reference : List Token) :
    List (Word × List Token) :=
  [(['('], [.opening]), (preWord, [.symbol preWord]), (['('], [.opening])] ++
    terms.map (fun m => (m.word, m.form.tokens)) ++
    [([')'], [.closing]), (['('], [.opening]), ('=' :: target, reference), ([')'], [.closing]),
      ([')'], [.closing])]

theorem spells_pre {terms : List Member} (h : (listForm terms).Lexical) {target : Word}
    {reference : List Token} (hreference : Spells ('=' :: target) reference) :
    Spells (Words.join (preWords (listWords terms) target))
      ((preSpelling terms target reference).flatMap (·.2)) := by
  have hterms := lexical_listForm.mp h
  have hpre : Spells preWord [.symbol preWord] :=
    Spells.symbol (isSymbol_of_all (by decide) (by decide))
  have hopening : Spells ['('] [.opening] := Spells.nil.opening
  have hwords : preWords (listWords terms) target =
      (preSpelling terms target reference).map (·.1) := by
    simp [preWords, preSpelling, listWords, Function.comp_def]
  rw [hwords]
  refine Spells.join _ _ fun p hp => ?_
  simp only [preSpelling, List.mem_append, List.mem_cons, List.mem_map, List.not_mem_nil,
    or_false] at hp
  rcases hp with ((rfl | rfl | rfl) | ⟨m, hm, rfl⟩) | rfl | rfl | rfl | rfl | rfl
  · exact ⟨List.cons_ne_nil _ _, hopening⟩
  · exact ⟨List.cons_ne_nil _ _, hpre⟩
  · exact ⟨List.cons_ne_nil _ _, hopening⟩
  · exact spells_member (hterms m hm)
  · exact ⟨List.cons_ne_nil _ _, Spells.closing⟩
  · exact ⟨List.cons_ne_nil _ _, hopening⟩
  · exact ⟨List.cons_ne_nil _ _, hreference⟩
  · exact ⟨List.cons_ne_nil _ _, Spells.closing⟩
  · exact ⟨List.cons_ne_nil _ _, Spells.closing⟩

theorem exists_reassembly (tree : ReassemblyTree) (h : tree.form.Lexical) :
    ∃ written : ReassemblyTree, written.value = tree.value ∧
      Spells (ScriptWriter.reassembly tree.value) written.form.tokens := by
  cases tree with
  | plain members not_pre =>
    refine ⟨.plain members not_pre, rfl, ?_⟩
    rw [ReassemblyTree.value, reassembly_ofTerms]
    exact spells_bracketed h
  | pre terms members target hnames =>
    obtain ⟨hterms, hmembers⟩ := ReassemblyTree.lexical_pre.mp h
    obtain ⟨written, hwritten, hreference⟩ := exists_reference hmembers hnames
    refine ⟨.pre terms written target hwritten, rfl, ?_⟩
    have hspells := spells_pre hterms hreference
    rw [ReassemblyTree.value, ScriptWriter.reassembly]
    simpa [preSpelling, ReassemblyTree.form, listForm, Form.tokens, Form.tokensAll,
      Form.tokensAll_eq_flatMap (terms.map _), List.flatMap_map] using hspells

theorem exists_reassemblies {trees : List ReassemblyTree}
    (h : ∀ tree ∈ trees, tree.form.Lexical) :
    ∃ written : List ReassemblyTree,
      written.map ReassemblyTree.value = trees.map ReassemblyTree.value ∧
      Spells ((trees.map ReassemblyTree.value).flatMap fun r =>
          newLine 8 ++ ScriptWriter.reassembly r)
        (Form.tokensAll (written.map ReassemblyTree.form)) := by
  induction trees with
  | nil => exact ⟨[], rfl, Spells.nil⟩
  | cons tree trees ih =>
    obtain ⟨htree, htrees⟩ := List.forall_mem_cons.mp h
    obtain ⟨first, hfirst, hspells⟩ := exists_reassembly tree htree
    obtain ⟨others, hothers, hrest⟩ := ih htrees
    refine ⟨first :: others, by rw [List.map_cons, hfirst, hothers, List.map_cons], ?_⟩
    have hbreaks : Breaks ((trees.map ReassemblyTree.value).flatMap fun r =>
        newLine 8 ++ ScriptWriter.reassembly r) :=
      breaks_flatMap fun r _ => breaks_cons _ rfl
    exact (hspells.newLine 8).append hrest hbreaks

/-! ### Items of a rule -/

theorem exists_transformation {pattern : List Member} {first : ReassemblyTree}
    {more : List ReassemblyTree}
    (h : ∀ form ∈ (RuleItem.transformation pattern first more).forms, form.Lexical) :
    ∃ item : RuleItem,
      (∀ draft, item.addTo draft = (RuleItem.transformation pattern first more).addTo draft) ∧
      Spells (ScriptWriter.transformation (listWords pattern)
          ((first :: more).map ReassemblyTree.value))
        (Form.tokensAll item.forms) := by
  obtain ⟨hpattern, htrees⟩ := RuleItem.lexical_transformation.mp h
  obtain ⟨written, hwritten, hspells⟩ := exists_reassemblies htrees
  obtain ⟨top, others, rfl, htop, hothers⟩ := List.map_eq_cons_iff.mp hwritten
  refine ⟨.transformation pattern top others, fun draft => ?_, ?_⟩
  · rw [RuleItem.addTo, hwritten, RuleItem.addTo]
  · have hbreaks := hspells.append Spells.closing (breaks_cons _ rfl)
    have hlist := ((spells_bracketed hpattern).append hbreaks
      (Breaks.append (breaks_flatMap fun r _ => breaks_cons _ rfl)
        (breaks_cons _ rfl))).opening.newLine 4
    simpa [ScriptWriter.transformation, RuleItem.forms, Form.tokens, Form.tokensAll] using hlist

theorem exists_patterns {patterns : List PatternDraft}
    (h : ∀ p ∈ patterns, ∃ pattern first more,
      (∀ form ∈ (RuleItem.transformation pattern first more).forms, form.Lexical) ∧
      p = ⟨listWords pattern, (first :: more).map ReassemblyTree.value⟩) :
    ∃ items : List RuleItem,
      (∀ draft : RuleDraft, items.foldlM RuleItem.addTo draft =
        .ok { draft with patterns := draft.patterns ++ patterns }) ∧
      Spells (patterns.flatMap fun p => ScriptWriter.transformation p.terms p.reassemblies)
        (Form.tokensAll (items.flatMap RuleItem.forms)) := by
  induction patterns with
  | nil => exact ⟨[], fun draft => by rw [List.append_nil]; rfl, Spells.nil⟩
  | cons p patterns ih =>
    obtain ⟨hp, hpatterns⟩ := List.forall_mem_cons.mp h
    obtain ⟨pattern, first, more, hforms, rfl⟩ := hp
    obtain ⟨item, hadd, hspells⟩ := exists_transformation hforms
    obtain ⟨items, hitems, hrest⟩ := ih hpatterns
    refine ⟨item :: items, fun draft => ?_, ?_⟩
    · rw [List.foldlM_cons, hadd]
      refine (hitems _).trans ?_
      rw [List.append_assoc, List.singleton_append]
    · rw [List.flatMap_cons, List.flatMap_cons, Form.tokensAll_append]
      exact hspells.append hrest (breaks_flatMap fun p _ => breaks_cons _ rfl)

theorem isSymbol_tagsWord : IsSymbol tagsWord :=
  isSymbol_of_all (by decide) (by decide)

theorem written_eq_self {text : Option Word} (h : ∀ w, text = some w → w ≠ []) :
    Rule.written text = text := by
  cases text with
  | none => rfl
  | some w =>
    have hw := h w rfl
    simp [Rule.written, hw]

theorem exists_substitution {draft : RuleDraft} (h : SoundDraft draft) :
    ∃ items : List RuleItem,
      items.foldlM RuleItem.addTo .bare = .ok ⟨draft.substitution, 0, [], [], none⟩ ∧
      Spells
        (match Rule.written draft.substitution with
          | some substitute => [' ', '=', ' '] ++ substitute
          | none => [])
        (Form.tokensAll (items.flatMap RuleItem.forms)) := by
  rw [written_eq_self fun w hw => (h.substitution w hw).ne_nil]
  cases hsubstitution : draft.substitution with
  | none => exact ⟨[], rfl, Spells.nil⟩
  | some name =>
    have hname := (Spells.symbol (h.substitution name hsubstitution)).space
    have hequals := (Spells.equals.append hname (breaks_cons _ rfl)).space
    exact ⟨[.substitution name], rfl, hequals⟩

theorem exists_tags {draft : RuleDraft} (h : SoundDraft draft) (substitution : Option Word) :
    ∃ items : List RuleItem,
      items.foldlM RuleItem.addTo ⟨substitution, 0, [], [], none⟩ =
        .ok ⟨substitution, 0, draft.tags, [], none⟩ ∧
      Spells
        (if draft.tags.isEmpty then [] else ' ' :: ScriptReader.tagsWord ++ bracketed draft.tags)
        (Form.tokensAll (items.flatMap RuleItem.forms)) := by
  obtain ⟨members, hmembers, htags⟩ := h.tags
  split
  · rename_i hempty
    rw [List.isEmpty_iff.mp hempty]
    exact ⟨[], rfl, Spells.nil⟩
  · rename_i hempty
    refine ⟨[.tags members], ?_, ?_⟩
    · rw [← htags]
      rfl
    · have hbracketed := spells_bracketed hmembers
      rw [htags] at hbracketed
      have hword := Spells.symbol isSymbol_tagsWord
      have hspells := (hword.append hbracketed (breaks_cons _ rfl)).space
      simpa [RuleItem.forms, Form.tokensAll, Form.tokens] using hspells

theorem exists_precedence {draft : RuleDraft} (h : SoundDraft draft) (substitution : Option Word)
    (tags : List Word) :
    ∃ items : List RuleItem,
      items.foldlM RuleItem.addTo ⟨substitution, 0, tags, [], none⟩ =
        .ok ⟨substitution, draft.precedence, tags, [], none⟩ ∧
      Spells (if (0 : Int) < draft.precedence then
          ' ' :: Numerals.write (draft.precedence : Int).toNat else [])
        (Form.tokensAll (items.flatMap RuleItem.forms)) := by
  split
  · rename_i hpositive
    refine ⟨[.precedence (Numerals.write draft.precedence)], ?_, ?_⟩
    · have hvalue := Numerals.valueWithin_eq_ok.mpr
        ⟨h.precedence, Numerals.value_write draft.precedence⟩
      simp only [List.foldlM_cons, List.foldlM_nil, RuleItem.addTo, hvalue]
      rfl
    · have hnumber : IsNumber (Numerals.write draft.precedence) :=
        ⟨Numerals.write_ne_nil _, Numerals.isDigit_of_mem_write⟩
      rw [Int.toNat_natCast]
      exact (Spells.number hnumber).space
  · rename_i hpositive
    have hzero : draft.precedence = 0 := by omega
    rw [hzero]
    exact ⟨[], rfl, Spells.nil⟩

/-- What stands between the keyword and the patterns of a sound rule. -/
theorem exists_head {draft : RuleDraft} (h : SoundDraft draft) (key : Word) (body : RuleBody) :
    ∃ items : List RuleItem,
      items.foldlM RuleItem.addTo .bare =
        .ok ⟨draft.substitution, draft.precedence, draft.tags, [], none⟩ ∧
      Spells (ruleHead ⟨key, draft.substitution, draft.precedence, draft.tags, body⟩)
        (Form.tokensAll (items.flatMap RuleItem.forms)) := by
  obtain ⟨substitution, hsubstitution, hfirst⟩ := exists_substitution h
  obtain ⟨tags, htags, hsecond⟩ := exists_tags h draft.substitution
  obtain ⟨precedence, hprecedence, hthird⟩ := exists_precedence h draft.substitution draft.tags
  refine ⟨substitution ++ tags ++ precedence, ?_, ?_⟩
  · simp only [List.foldlM_append, bind_eq_ok]
    exact ⟨_, ⟨_, hsubstitution, htags⟩, hprecedence⟩
  · simp only [List.flatMap_append, Form.tokensAll_append]
    have hbreaks {p : Prop} [Decidable p] {text : List Char} :
        Breaks (if p then ' ' :: text else []) := by
      split
      · exact breaks_cons _ rfl
      · exact breaks_nil
    exact (hfirst.append hsecond (by rw [← ite_not]; exact hbreaks)).append hthird hbreaks

theorem exists_link {draft : RuleDraft} (h : SoundDraft draft) {body : RuleBody}
    (hlink : link? body = draft.link) :
    ∃ reference : Option ReferenceTree, reference.map ReferenceTree.target = draft.link ∧
      Spells (ruleLink body) (Form.tokensAll (reference.toList.map ReferenceTree.form)) := by
  unfold ruleLink
  rw [hlink]
  cases hdraft : draft.link with
  | none => exact ⟨none, rfl, Spells.nil⟩
  | some target =>
    obtain ⟨hne, hunbroken⟩ := h.link target hdraft
    cases target with
    | nil => exact absurd rfl hne
    | cons first rest =>
      refine ⟨some (.joined first rest), rfl, ?_⟩
      have hsymbol := Spells.symbol (isSymbol_reference hunbroken)
      have hreference := (hsymbol.append Spells.closing (breaks_cons _ rfl)).opening.space
      have hline : Spells (' ' :: ScriptWriter.reference (first :: rest))
          (Form.tokensAll [(ReferenceTree.joined first rest).form]) := by
        simpa [ScriptWriter.reference, ReferenceTree.form, Form.tokens, Form.tokensAll] using
          hreference
      dsimp only
      split
      · exact hline
      · exact hline.newLine 3

/-! ### Rules -/

theorem Makes.transformations_eq {draft : RuleDraft} {body : RuleBody} (h : Makes draft body) :
    transformations body = draft.patterns.map fun p => (p.terms, p.reassemblies) := by
  cases h with
  | link target patterns link => rw [patterns]; rfl
  | substitution patterns link tags => rw [patterns]; rfl
  | tag patterns link tags => rw [patterns]; rfl
  | pre d terms target patterns link => rw [patterns]; rfl
  | transform ts patterns =>
    rw [patterns, List.map_map]
    rfl

theorem Makes.link?_eq {draft : RuleDraft} {body : RuleBody} (h : Makes draft body)
    (hne : ∀ w, draft.link = some w → w ≠ []) : link? body = draft.link := by
  have hwritten := written_eq_self hne
  cases h with
  | link target patterns link =>
    rw [link] at hwritten ⊢
    exact hwritten
  | substitution patterns link tags => rw [link]; rfl
  | tag patterns link tags => rw [link]; rfl
  | pre d terms target patterns link => rw [link]; rfl
  | transform ts patterns => exact hwritten

/-- How a keyword is written that has been kept under its key. -/
def writtenAs (key : Word) : Word :=
  if key = noneKey then noneKeyword else key

/-- The rule without a keyword of its own is written by its name, also where a text takes its key
for the name, and every other keyword as it stands. -/
theorem writtenAs_keyOf (name : Word) :
    writtenAs (keyOf name) = if name = noneKeyword ∨ name = noneKey then noneKeyword else name := by
  by_cases hname : name = noneKeyword
  · rw [if_pos (.inl hname), hname]
    decide
  · by_cases hkey : name = noneKey
    · rw [if_pos (.inr hkey), hkey]
      decide
    · simp [keyOf, writtenAs, hname, hkey]

theorem keyOf_writtenAs (name : Word) : keyOf (writtenAs (keyOf name)) = keyOf name := by
  rw [writtenAs_keyOf]
  split
  · rename_i hname
    rcases hname with rfl | rfl <;> decide
  · rfl

theorem isSymbol_writtenAs {name : Word} (h : IsSymbol name) :
    IsSymbol (writtenAs (keyOf name)) := by
  rw [writtenAs_keyOf]
  split
  · exact isSymbol_of_all (by decide) (by decide)
  · exact h

theorem writtenAs_ne_memoryKeyword {name : Word} (h : name ≠ memoryKeyword) :
    writtenAs (keyOf name) ≠ memoryKeyword := by
  rw [writtenAs_keyOf]
  split
  · decide
  · exact h

theorem breaks_ruleHead (r : Rule) : Breaks (ruleHead r) := by
  unfold ruleHead
  refine Breaks.append (Breaks.append ?_ ?_) ?_
  · split
    · exact breaks_cons _ rfl
    · exact breaks_nil
  · split
    · exact breaks_nil
    · exact breaks_cons _ rfl
  · split
    · exact breaks_cons _ rfl
    · exact breaks_nil

theorem breaks_ruleLink (body : RuleBody) : Breaks (ruleLink body) := by
  unfold ruleLink
  split
  · exact breaks_nil
  · split
    · exact breaks_cons _ rfl
    · exact breaks_cons _ rfl

/-- What is written for a keyword rule spells a tree of the same rule. -/
theorem exists_keyword_tree {name : Word} {draft : RuleDraft} {rule : Rule}
    (symbol : IsSymbol name) (not_memory : name ≠ memoryKeyword) (sound : SoundDraft draft)
    (made : ruleOf (keyOf name) draft = .ok rule) :
    ∃ tree : RuleTree, tree.entries = .ok [(keyOf name, rule)] ∧
      Spells (ScriptWriter.keywordRule rule) tree.form.tokens := by
  obtain ⟨body, hbody, hrule⟩ := ruleOf_eq_ok.mp made
  have hmakes := makes_of_bodyOf hbody
  have hlink := hmakes.link?_eq fun w hw => (sound.link w hw).1
  obtain ⟨head, hhead, hfirst⟩ := exists_head sound (keyOf name) body
  obtain ⟨patterns, hpatterns, hsecond⟩ := exists_patterns sound.patterns
  obtain ⟨reference, hreference, hthird⟩ := exists_link sound hlink
  have hdraft : draftFrom .bare (head ++ patterns) reference = .ok draft := by
    simp only [draftFrom, List.foldlM_append, bind_eq_ok, pure_eq_ok]
    refine ⟨_, ⟨_, hhead, hpatterns _⟩, ?_⟩
    obtain ⟨_, _, _, _, link⟩ := draft
    cases reference <;> cases hreference <;> rfl
  refine ⟨.keyword (writtenAs (keyOf name)) (head ++ patterns) reference
    (writtenAs_ne_memoryKeyword not_memory), ?_, ?_⟩
  · refine RuleTree.entries_keyword_eq_ok.mpr ⟨draft, rule, hdraft, ?_, ?_⟩
    · rw [keyOf_writtenAs]
      exact made
    · rw [keyOf_writtenAs]
  · subst hrule
    have hpatternTexts : (transformations body).flatMap (fun t => transformation t.1 t.2) =
        draft.patterns.flatMap fun p => transformation p.terms p.reassemblies := by
      rw [hmakes.transformations_eq, List.flatMap_map]
    have hkeyword := (Spells.symbol (isSymbol_writtenAs symbol)).opening
    have hbreaks : Breaks (draft.patterns.flatMap fun p => transformation p.terms p.reassemblies) :=
      breaks_flatMap fun p _ => breaks_cons _ rfl
    have hspells := (((hkeyword.append hfirst (breaks_ruleHead _)).append hsecond hbreaks).append
      hthird (breaks_ruleLink body)).append Spells.closingLine (breaks_cons _ rfl)
    rw [← hpatternTexts] at hspells
    simpa [ScriptWriter.keywordRule, Rule.writtenKeyword, writtenAs, RuleTree.form, Form.tokens,
      Form.tokensAll, List.append_assoc] using hspells

def pairText (pair : MemoryPair) : List Char :=
  newLine 4 ++ ['('] ++ Words.join pair.decomposition.terms ++ [' ', '=', ' ']
    ++ Words.join pair.template ++ [')']

theorem spells_pair {tree : PairTree} (h : tree.form.Lexical) {pair : MemoryPair}
    (hvalue : tree.value = .ok pair) : Spells (pairText pair) tree.form.tokens := by
  simp only [PairTree.value, bind_eq_ok, pure_eq_ok, decomposition_eq_ok] at hvalue
  obtain ⟨d, hd, rfl⟩ := hvalue
  obtain ⟨hpattern, htemplate⟩ := PairTree.lexical_form.mp h
  have hback := ((spells_members htemplate).append Spells.closing (breaks_cons _ rfl)).space
  have hsign := (Spells.equals.append hback (breaks_cons _ rfl)).space
  have hspells := (((spells_members hpattern).append hsign (breaks_cons _ rfl)).opening.newLine 4)
  rw [hd] at hspells
  simpa [pairText, equalsWord, PairTree.form, Form.tokens, Form.tokensAll] using hspells

theorem spells_pairs {trees : List PairTree} (h : ∀ p ∈ trees, p.form.Lexical)
    {pairs : List MemoryPair} (hvalues : trees.mapM PairTree.value = .ok pairs) :
    Spells (pairs.flatMap pairText) (Form.tokensAll (trees.map PairTree.form)) := by
  induction trees generalizing pairs with
  | nil =>
    cases hvalues
    exact Spells.nil
  | cons tree trees ih =>
    obtain ⟨htree, htrees⟩ := List.forall_mem_cons.mp h
    obtain ⟨pair, pairs, hpair, hpairs, rfl⟩ := mapM_cons_eq_ok.mp hvalues
    exact (spells_pair htree hpair).append (ih htrees hpairs)
      (breaks_flatMap fun pair _ => breaks_cons _ rfl)

/-- What is written for the memory rule spells the tree that it is read from. -/
theorem spells_memoryRule {name : Word} {trees : List PairTree} {pairs : List MemoryPair}
    (symbol : IsSymbol name) (lexical : ∀ p ∈ trees, p.form.Lexical)
    (four : trees.length = MemoryRule.pairCount)
    (values : trees.mapM PairTree.value = .ok pairs) :
    Spells (ScriptWriter.memoryRule ⟨name, pairs⟩)
      (RuleTree.memory name trees four).form.tokens := by
  have hmemory : IsSymbol memoryKeyword := isSymbol_of_all (by decide) (by decide)
  have hbreaks : Breaks (pairs.flatMap pairText) :=
    breaks_flatMap fun pair _ => breaks_cons _ rfl
  have hhead := (Spells.symbol hmemory).opening.append (Spells.symbol symbol).space
    (breaks_cons _ rfl)
  have hspells := (hhead.append (spells_pairs lexical values) hbreaks).append Spells.closingLine
    (breaks_cons _ rfl)
  have htext : ScriptWriter.memoryRule ⟨name, pairs⟩ =
      '(' :: memoryKeyword ++ ' ' :: name ++ pairs.flatMap pairText ++ [')', '\n'] := rfl
  rw [htext]
  simpa [RuleTree.form, Form.tokens, Form.tokensAll] using hspells

theorem LoadedRule.exists_tree {key : Word} {rule : Rule} (h : LoadedRule key rule) :
    ∃ tree : RuleTree, tree.entries = .ok [(key, rule)] ∧
      Spells (ScriptWriter.rule rule) tree.form.tokens := by
  cases h with
  | memory symbol lexical four values =>
    exact ⟨.memory _ _ four, RuleTree.entries_memory_eq_ok.mpr ⟨_, values, rfl⟩,
      spells_memoryRule symbol lexical four values⟩
  | keyword symbol not_memory sound made =>
    obtain ⟨tree, htree, hspells⟩ := exists_keyword_tree symbol not_memory sound made
    obtain ⟨body, hbody, rfl⟩ := ruleOf_eq_ok.mp made
    refine ⟨tree, htree, ?_⟩
    cases makes_of_bodyOf hbody <;> exact hspells

/-! ### Scripts -/

theorem breaks_rule (r : Rule) : Breaks (ScriptWriter.rule r) := by
  unfold ScriptWriter.rule
  split
  · exact breaks_cons _ rfl
  · exact breaks_cons _ rfl

/-- What is written for rules spells trees of the same rules. -/
theorem exists_trees {entries : List (Word × Rule)}
    (h : ∀ entry ∈ entries, LoadedRule entry.1 entry.2) :
    ∃ trees : List RuleTree, trees.mapM RuleTree.entries = .ok (entries.map ([·])) ∧
      Spells (entries.flatMap fun entry => ScriptWriter.rule entry.2)
        (Form.tokensAll (trees.map RuleTree.form)) := by
  induction entries with
  | nil => exact ⟨[], rfl, Spells.nil⟩
  | cons entry entries ih =>
    obtain ⟨hentry, hentries⟩ := List.forall_mem_cons.mp h
    obtain ⟨trees, htrees, hrest⟩ := ih hentries
    obtain ⟨tree, htree, hspells⟩ := hentry.exists_tree
    exact ⟨tree :: trees, mapM_cons_eq_ok.mpr ⟨_, _, htree, htrees, rfl⟩,
      hspells.append hrest (breaks_flatMap fun entry _ => breaks_rule entry.2)⟩

end ScriptGrammar

open ScriptGrammar

/-- The keyword rules and the rule under the key of the memory rule are all rules. -/
theorem Script.perm_entries {s : Script} {memory : Rule}
    (h : s.rules.get? memoryKey = some memory) :
    (s.keywordRules.entries ++ [(memoryKey, memory)]).Perm s.rules.entries := by
  have hmemory : (memoryKey, memory) ∈ s.rules.entries := WordMap.mem_entries.mpr h
  have hnodup : (s.keywordRules.entries ++ [(memoryKey, memory)]).Nodup := by
    rw [List.nodup_append]
    refine ⟨s.keywordRules.nodup_entries, List.pairwise_singleton _ _, ?_⟩
    rintro entry hentry _ hsingle rfl
    rw [List.mem_singleton.mp hsingle] at hentry
    exact (Script.mem_keywordRules.mp hentry).2 rfl
  rw [List.perm_ext_iff_of_nodup hnodup s.rules.nodup_entries]
  rintro ⟨key, rule⟩
  rw [List.mem_append, Script.mem_keywordRules, List.mem_singleton]
  constructor
  · rintro (⟨hentry, -⟩ | hentry)
    · exact hentry
    · rwa [hentry]
  · intro hentry
    by_cases hkey : key = memoryKey
    · subst hkey
      have hrule := WordMap.mem_entries.mp hentry
      rw [h] at hrule
      exact .inr (by rw [Option.some.inj hrule])
    · exact .inl ⟨hentry, hkey⟩

/-- A loaded script is read from what is written for its greeting and its rules, in any order. -/
theorem Script.Loaded.read_of_perm {s : Script} (h : s.Loaded) {entries : List (Word × Rule)}
    (hperm : entries.Perm s.rules.entries) :
    Script.read (ScriptWriter.bracketed s.greeting ++ ['\n'] ++
      entries.flatMap fun entry => ScriptWriter.rule entry.2) = .ok s := by
  obtain ⟨greeting, hgreeting, hwords⟩ := h.greeting
  obtain ⟨trees, htrees, hrules⟩ :=
    exists_trees fun entry hentry => h.rules entry (hperm.mem_iff.mp hentry)
  refine Script.read_eq_ok_iff.mpr ⟨⟨greeting, false, trees⟩, ?_, ?_⟩
  · have hline := (spells_bracketed hgreeting).append Spells.nil.newline (breaks_cons _ rfl)
    have htext := hline.append hrules (breaks_flatMap fun entry _ => breaks_rule entry.2)
    rw [hwords] at htext
    rw [htext.tokens_eq]
    simp [ScriptTree.tokens, ScriptTree.forms, Form.tokensAll]
  · refine ⟨entries, ?_, ?_, ?_, h.complete⟩
    · refine ScriptTree.entries_eq_ok.mpr ⟨_, htrees, ?_⟩
      rw [← List.flatMap_def, List.flatMap_singleton']
    · exact (hperm.map (·.1)).nodup_iff.mpr s.rules.nodup_keys
    · rw [WordMap.ofList_eq_of_perm hperm, hwords]

/-- A loaded script with a memory rule is read from its own text. -/
theorem Script.Loaded.read_write {s : Script} (h : s.Loaded) {m : MemoryRule}
    (hm : s.memoryRule? = some m) : Script.read s.write = .ok s := by
  obtain ⟨memory, hmemory, hbody⟩ := Option.bind_eq_some_iff.mp hm
  have hkeywordRule : ∀ entry ∈ s.keywordRules.entries,
      ScriptWriter.keywordRule entry.2 = ScriptWriter.rule entry.2 := by
    intro entry hentry
    obtain ⟨hrules, hkey⟩ := Script.mem_keywordRules.mp hentry
    unfold ScriptWriter.rule
    split
    · rename_i hsome
      exact absurd ((h.rules entry hrules).memory?_eq_some hsome).1 hkey
    · rfl
  have htext : s.write = ScriptWriter.bracketed s.greeting ++ ['\n'] ++
      (s.keywordRules.entries ++ [(memoryKey, memory)]).flatMap
        fun entry => ScriptWriter.rule entry.2 := by
    have hmemoryRule : ScriptWriter.memoryRule m = ScriptWriter.rule memory := by
      rw [ScriptWriter.rule, hbody]
    rw [List.flatMap_append, List.flatMap_singleton, ← hmemoryRule, List.flatMap_def,
      ← List.map_congr_left hkeywordRule, ← List.flatMap_def, ← List.append_assoc, Script.write, hm]
  rw [htext]
  exact h.read_of_perm (Script.perm_entries hmemory)

/-- A script that has been read, with its memory rule, is read again from the text that is written
for it, which is then the text that is written for it. -/
theorem Script.read_write_of_read {text : List Char} {s : Script} (h : Script.read text = .ok s)
    (hm : s.memoryRule?.isSome = true) :
    Script.read s.write = .ok s ∧ (Script.read s.write).map Script.write = .ok s.write := by
  obtain ⟨m, hmemory⟩ := Option.isSome_iff_exists.mp hm
  have hread := (Script.loaded_of_read h).read_write hmemory
  refine ⟨hread, ?_⟩
  rw [hread]
  rfl

theorem Script.read_write_of_groups_and_references :
    ∃ s, Script.read
        ("(HI) START (NONE ((0) (OH))) (MY = YOUR 07 DLIST(/A) ((0 (*I ME) 0) ".toList ++
        "(PRE (I 2) (= (A B))) (=NONE)) (= NONE)) ".toList ++
        "(MEMORY MY (0 = A) (0 = B) (0 = C) (0 = D))".toList) = .ok s ∧
      Script.read s.write = .ok s ∧ (Script.read s.write).map Script.write = .ok s.write := by
  refine (Script.exists_read_of_isSome ?_).imp fun s hs =>
    ⟨hs.1, Script.read_write_of_read hs.1 hs.2⟩
  decide +kernel

end Colloquy
