import Colloquy.Proofs.ScriptRoundTrip
import Colloquy.Proofs.WellFormedScripts

/-!
# Scripts that are read from texts

A script is the reading of some text exactly when it is well formed. Each part of a script is well formed
exactly when it is what a tree of the grammar stands for whose words are as they are read from texts,
so the statements follow the grammar from its leaves up.
-/

namespace Colloquy

open Numerals Lexemes ScriptReader

/-- A list is made by a function exactly when each of its members is. -/
theorem exists_map_eq_iff {α β : Type} {p : α → Prop} {f : α → β} {results : List β} :
    (∃ l : List α, (∀ a ∈ l, p a) ∧ l.map f = results) ↔ ∀ b ∈ results, ∃ a, p a ∧ f a = b := by
  induction results with
  | nil => simp
  | cons b results ih =>
    rw [List.forall_mem_cons, ← ih]
    constructor
    · rintro ⟨l, hl, hmap⟩
      obtain ⟨a, rest, rfl, ha, hrest⟩ := List.map_eq_cons_iff.mp hmap
      obtain ⟨hfirst, hothers⟩ := List.forall_mem_cons.mp hl
      exact ⟨⟨a, hfirst, ha⟩, rest, hothers, hrest⟩
    · rintro ⟨⟨a, hfirst, rfl⟩, rest, hothers, rfl⟩
      exact ⟨a :: rest, List.forall_mem_cons.mpr ⟨hfirst, hothers⟩, rfl⟩

namespace ScriptGrammar

/-! ### Words -/

theorem isListed_iff {w : Word} : IsListed w ↔ ∃ m : Member, m.form.Lexical ∧ m.word = w := by
  constructor
  · rintro (hnumber | hsymbol | ⟨names, hnames, rfl⟩)
    · exact ⟨.number w, Form.lexical_number.mpr hnumber, rfl⟩
    · exact ⟨.symbol w, Form.lexical_symbol.mpr hsymbol, rfl⟩
    · exact ⟨.group names, Member.lexical_group.mpr hnames, rfl⟩
  · rintro ⟨m, hm, rfl⟩
    cases m with
    | number digits => exact .inl (Form.lexical_number.mp hm)
    | symbol name => exact .inr (.inl (Form.lexical_symbol.mp hm))
    | group names => exact .inr (.inr ⟨names, Member.lexical_group.mp hm, rfl⟩)

/-- Words are those of a list exactly when each of them can stand in one. -/
theorem exists_members_iff {ws : List Word} :
    (∃ members, (listForm members).Lexical ∧ listWords members = ws) ↔
      ∀ w ∈ ws, IsListed w := by
  simp only [isListed_iff, lexical_listForm]
  exact exists_map_eq_iff

theorem isNumber_or_isSymbol_iff {w : Word} :
    IsNumber w ∨ IsSymbol w ↔
      ∃ m : Member, (m.form.Lexical ∧ m.isGroup = false) ∧ m.word = w := by
  constructor
  · rintro (hnumber | hsymbol)
    · exact ⟨.number w, ⟨Form.lexical_number.mpr hnumber, rfl⟩, rfl⟩
    · exact ⟨.symbol w, ⟨Form.lexical_symbol.mpr hsymbol, rfl⟩, rfl⟩
  · rintro ⟨m, ⟨hm, hplain⟩, rfl⟩
    cases m with
    | number digits => exact .inl (Form.lexical_number.mp hm)
    | symbol name => exact .inr (Form.lexical_symbol.mp hm)
    | group names => cases hplain

/-- Only a symbol has the word of a symbol. -/
theorem word_eq_iff {m : Member} (h : m.form.Lexical) {name : Word} (hname : IsSymbol name) :
    m.word = name ↔ m = .symbol name := by
  constructor
  · intro hword
    obtain ⟨hne, hhead, hunbroken⟩ := hname
    obtain ⟨first, rest, rfl⟩ := List.exists_cons_of_ne_nil hne
    have hopening : first ≠ '(' := by
      rintro rfl
      cases hunbroken '(' List.mem_cons_self
    exact eq_symbol_of_word_eq h hword (hhead first rfl) hopening
  · rintro rfl
    rfl

theorem unbroken_of_isListed {rest : Word} (h : IsListed ('=' :: rest)) : Unbroken rest := by
  obtain ⟨m, hm, hword⟩ := isListed_iff.mp h
  obtain rfl := eq_symbol_of_word_eq hm hword (by decide) (by decide)
  exact (List.forall_mem_cons.mp (Form.lexical_symbol.mp hm).unbroken).2

theorem IsListed.isNamed {w : Word} (h : IsListed w) : IsNamed w := by
  rcases h with hnumber | hsymbol | ⟨names, hnames, rfl⟩
  · have hunbroken : Unbroken w := fun c hc => endsSymbol_of_isDigit (hnumber.isDigit c hc)
    exact ⟨hnumber.ne_nil, .inl hunbroken⟩
  · exact ⟨hsymbol.ne_nil, .inl hsymbol.unbroken⟩
  · exact ⟨List.cons_ne_nil _ _, .inr ⟨names, hnames, rfl⟩⟩

theorem exists_names_iff {target : Word} :
    (∃ members, (listForm members).Lexical ∧ Names (listWords members) target) ↔
      IsNamed target := by
  constructor
  · rintro ⟨members, hmembers, hnames⟩
    have hlisted := exists_members_iff.mp ⟨members, hmembers, rfl⟩
    generalize listWords members = words at hnames hlisted
    cases hnames with
    | joined first rest =>
      have hunbroken := unbroken_of_isListed (hlisted _ List.mem_cons_self)
      exact ⟨List.cons_ne_nil _ _, .inl hunbroken⟩
    | apart target => exact (hlisted target (List.mem_cons_of_mem _ List.mem_cons_self)).isNamed
  · -- A word that is not broken can be joined to the sign; a group has to stand apart from it.
    rintro ⟨hne, hunbroken | ⟨names, hnames, rfl⟩⟩
    · have hsymbol := Form.lexical_symbol.mpr (isSymbol_reference hunbroken)
      refine ⟨[.symbol ('=' :: target)], ?_, names_joined hne⟩
      exact lexical_listForm.mpr (List.forall_mem_singleton.mpr hsymbol)
    · have hsign := Form.lexical_symbol.mpr (show IsSymbol equalsWord by decide)
      refine ⟨[.symbol equalsWord, .group names], ?_, .apart _⟩
      exact lexical_listForm.mpr (List.forall_mem_cons.mpr
        ⟨hsign, List.forall_mem_singleton.mpr (Member.lexical_group.mpr hnames)⟩)

/-! ### Reassemblies -/

theorem head?_listWords_iff {members : List Member} (h : (listForm members).Lexical) :
    (listWords members).head? = some preWord ↔ members.head? = some (.symbol preWord) := by
  cases members with
  | nil => exact iff_of_false nofun nofun
  | cons m members =>
    have hm := lexical_listForm.mp h m List.mem_cons_self
    have hword := word_eq_iff hm (show IsSymbol preWord by decide)
    simpa [listWords] using hword

theorem wellFormed_ofTerms {terms : List Word} (hlisted : ∀ term ∈ terms, IsListed term)
    (hpre : terms.head? ≠ some preWord) : (Reassembly.ofTerms terms).WellFormed := by
  by_cases hnewKey : terms = [Reassembly.newKeyWord]
  · subst hnewKey
    trivial
  · by_cases hlink : ∃ name, name ≠ [] ∧ terms = ['=' :: name]
    · obtain ⟨name, hne, rfl⟩ := hlink
      obtain ⟨first, rest, rfl⟩ := List.exists_cons_of_ne_nil hne
      exact ⟨hne, unbroken_of_isListed (hlisted _ List.mem_cons_self)⟩
    · have hname (name : Word) (hne : name ≠ []) : terms ≠ ['=' :: name] := by
        rintro rfl
        exact hlink ⟨name, hne, rfl⟩
      rw [ofTerms_eq_template_iff.mpr ⟨hnewKey, hname⟩]
      exact ⟨hlisted, hnewKey, hname, hpre⟩

/-- A single symbol is a list that stands for what the symbol alone orders. -/
theorem exists_plain_of_isSymbol {name : Word} (h : IsSymbol name) (hpre : name ≠ preWord) :
    ∃ tree : ReassemblyTree, tree.form.Lexical ∧ tree.value = .ofTerms [name] := by
  have hnot_pre : [Member.symbol name].head? ≠ some (.symbol preWord) := by
    simpa using hpre
  refine ⟨.plain [.symbol name] hnot_pre, ?_, rfl⟩
  exact lexical_listForm.mpr (List.forall_mem_singleton.mpr (Form.lexical_symbol.mpr h))

theorem exists_reassemblyTree_iff {r : Reassembly} :
    (∃ tree : ReassemblyTree, tree.form.Lexical ∧ tree.value = r) ↔ r.WellFormed := by
  constructor
  · rintro ⟨tree, htree, rfl⟩
    cases tree with
    | plain members not_pre =>
      have hlisted := exists_members_iff.mp ⟨members, htree, rfl⟩
      exact wellFormed_ofTerms hlisted ((head?_listWords_iff htree).not.mpr not_pre)
    | pre terms members target hnames =>
      obtain ⟨hterms, hmembers⟩ := ReassemblyTree.lexical_pre.mp htree
      exact ⟨exists_members_iff.mp ⟨terms, hterms, rfl⟩,
        exists_names_iff.mp ⟨members, hmembers, hnames⟩⟩
  · intro h
    cases r with
    | template terms =>
      obtain ⟨hlisted, hnewKey, hlink, hpre⟩ := h
      obtain ⟨members, hmembers, rfl⟩ := exists_members_iff.mpr hlisted
      exact ⟨.plain members ((head?_listWords_iff hmembers).not.mp hpre), hmembers,
        ofTerms_eq_template_iff.mpr ⟨hnewKey, hlink⟩⟩
    | newKey =>
      have hsymbol : IsSymbol Reassembly.newKeyWord := by decide
      exact exists_plain_of_isSymbol hsymbol (by decide)
    | link target =>
      obtain ⟨hne, hunbroken⟩ := h
      obtain ⟨first, rest, rfl⟩ := List.exists_cons_of_ne_nil hne
      exact exists_plain_of_isSymbol (isSymbol_reference hunbroken) (by simp [preWord])
    | pre terms target =>
      obtain ⟨hlisted, htarget⟩ := h
      obtain ⟨terms, hterms, rfl⟩ := exists_members_iff.mpr hlisted
      obtain ⟨members, hmembers, hnames⟩ := exists_names_iff.mpr htarget
      refine ⟨.pre terms members target hnames, ?_, rfl⟩
      exact ReassemblyTree.lexical_pre.mpr ⟨hterms, hmembers⟩

theorem exists_transformation_iff {t : Transformation} :
    (∃ pattern first more,
      (∀ form ∈ (RuleItem.transformation pattern first more).forms, form.Lexical) ∧
      draftOf t = ⟨listWords pattern, (first :: more).map ReassemblyTree.value⟩) ↔
      t.WellFormed := by
  simp only [RuleItem.lexical_transformation, draftOf, PatternDraft.mk.injEq]
  constructor
  · rintro ⟨pattern, first, more, ⟨hpattern, htrees⟩, hterms, hreassemblies⟩
    constructor
    · exact exists_members_iff.mp ⟨pattern, hpattern, hterms.symm⟩
    · rw [hreassemblies]
      exact List.cons_ne_nil _ _
    · intro reassembly hmem
      rw [hreassemblies] at hmem
      obtain ⟨tree, htree, hvalue⟩ := List.mem_map.mp hmem
      exact exists_reassemblyTree_iff.mp ⟨tree, htrees tree htree, hvalue⟩
  · rintro ⟨hpattern, hne, hreassemblies⟩
    obtain ⟨pattern, hlexical, hterms⟩ := exists_members_iff.mpr hpattern
    obtain ⟨trees, htrees, hvalues⟩ := exists_map_eq_iff.mpr fun reassembly hmem =>
      exists_reassemblyTree_iff.mpr (hreassemblies reassembly hmem)
    cases trees with
    | nil => exact absurd hvalues.symm hne
    | cons first more =>
      exact ⟨pattern, first, more, ⟨hlexical, htrees⟩, hterms.symm, hvalues.symm⟩

/-! ### Keyword rules -/

theorem Makes.parts_eq {draft : RuleDraft} {body : RuleBody} (h : Makes draft body) :
    draft.patterns = body.transformations.map draftOf ∧ draft.link = body.link? := by
  cases h with
  | link target patterns link => exact ⟨patterns, link⟩
  | substitution patterns link tags => exact ⟨patterns, link⟩
  | tag patterns link tags => exact ⟨patterns, link⟩
  | pre d terms target patterns link => exact ⟨patterns, link⟩
  | transform ts patterns => exact ⟨patterns, rfl⟩

theorem classified_of_bodyOf {draft : RuleDraft} {body : RuleBody} (h : bodyOf draft = .ok body) :
    body.Classified draft.tags := by
  cases makes_of_bodyOf h with
  | link target patterns link => trivial
  | substitution patterns link tags => exact tags
  | tag patterns link tags => exact tags
  | pre d terms target patterns link => trivial
  | transform ts patterns =>
    -- A rule with patterns is all that is left when none of the other bodies has been made.
    unfold bodyOf at h
    split at h
    · cases h
    · split at h <;> cases h
    · simp only [bind_eq_ok, pure_eq_ok] at h
      obtain ⟨d, -, hbody⟩ := h
      cases hbody
    · rename_i hlinked hbare hrewrites
      constructor
      · rintro rfl
        cases hlink : draft.link with
        | none => exact hbare patterns hlink
        | some target => exact hlinked target patterns hlink
      · rintro hlink decomposition terms target rfl
        exact hrewrites _ _ _ patterns hlink

theorem bodyOf_of_classified {tags : List Word} {body : RuleBody} (h : body.Classified tags)
    (substitution : Option Word) (precedence : Nat) :
    bodyOf ⟨substitution, precedence, tags, body.transformations.map draftOf, body.link?⟩ =
      .ok body := by
  cases body with
  | substitution =>
    obtain rfl : tags = [] := h
    rfl
  | tag =>
    have htags : ¬ tags.isEmpty = true := fun hempty => h (List.isEmpty_iff.mp hempty)
    exact congrArg Except.ok (if_neg htags)
  | link target => rfl
  | pre d terms target =>
    change (do return RuleBody.pre (← Decomposition.ofTerms d.terms) terms target) = _
    rw [ofTerms_terms]
    rfl
  | transform ts link =>
    obtain ⟨hne, hrewrites⟩ := h
    unfold bodyOf
    split
    · rename_i hpatterns _
      exact absurd (List.map_eq_nil_iff.mp hpatterns) hne
    · rename_i hpatterns _
      exact absurd (List.map_eq_nil_iff.mp hpatterns) hne
    · rename_i hpatterns hlink
      obtain ⟨⟨d, reassemblies⟩, rfl, hdraft⟩ := List.map_eq_singleton_iff.mp hpatterns
      cases hdraft
      exact absurd rfl (hrewrites hlink d _ _)
    · simp only [bind_eq_ok, pure_eq_ok, compile_eq_ok]
      exact ⟨ts, rfl, rfl⟩
  | memory pairs => exact h.elim

/-- What is known of the rule of a text is sound exactly when its parts are well formed. -/
theorem soundDraft_iff {draft : RuleDraft} {body : RuleBody}
    (hpatterns : draft.patterns = body.transformations.map draftOf)
    (hlink : draft.link = body.link?) :
    SoundDraft draft ↔ (∀ substitute ∈ draft.substitution, IsSymbol substitute) ∧
      (write draft.precedence).length ≤ digitLimit ∧ (∀ tag ∈ draft.tags, IsListed tag) ∧
      (∀ t ∈ body.transformations, t.WellFormed) ∧ ∀ target ∈ body.link?, IsTarget target := by
  have hdrafts : (∀ p ∈ draft.patterns, ∃ pattern first more,
      (∀ form ∈ (RuleItem.transformation pattern first more).forms, form.Lexical) ∧
      p = ⟨listWords pattern, (first :: more).map ReassemblyTree.value⟩) ↔
      ∀ t ∈ body.transformations, t.WellFormed := by
    rw [hpatterns, List.forall_mem_map]
    simp only [exists_transformation_iff]
  rw [← hlink]
  constructor
  · intro h
    have htargets : ∀ target ∈ draft.link, IsTarget target := fun target htarget =>
      ⟨(h.link target htarget).1, (h.link target htarget).2⟩
    exact ⟨h.substitution, h.precedence, exists_members_iff.mp h.tags, hdrafts.mp h.patterns,
      htargets⟩
  · rintro ⟨hsubstitution, hprecedence, htags, htransformations, htargets⟩
    exact
      { substitution := hsubstitution
        precedence := hprecedence
        tags := exists_members_iff.mpr htags
        patterns := hdrafts.mpr htransformations
        link := fun target htarget =>
          ⟨(htargets target htarget).ne_nil, (htargets target htarget).unbroken⟩ }

theorem exists_keyOf_iff {key : Word} :
    (∃ name, (IsSymbol name ∧ name ≠ memoryKeyword) ∧ keyOf name = key) ↔ IsKey key := by
  constructor
  · rintro ⟨name, ⟨hsymbol, hmemory⟩, rfl⟩
    unfold keyOf
    split
    · decide
    · rename_i hnone
      exact ⟨hsymbol, hmemory, hnone⟩
  · rintro ⟨hsymbol, hmemory, hnone⟩
    exact ⟨key, ⟨hsymbol, hmemory⟩, if_neg hnone⟩

/-- What is known of a keyword rule in a text when all of it has been read. -/
def draftFor (r : Rule) : RuleDraft :=
  ⟨r.substitution, r.precedence.toNat, r.tags, r.body.transformations.map draftOf, r.body.link?⟩

theorem ruleOf_draftFor {key : Word} {r : Rule} (h : r.WellFormed key) :
    ruleOf key (draftFor r) = .ok r := by
  refine ruleOf_eq_ok.mpr ⟨r.body, bodyOf_of_classified h.classified _ _, ?_⟩
  rw [draftFor, Int.toNat_of_nonneg h.precedence_nonneg, ← h.keyword]

/-- A keyword rule is well formed exactly when some rule in a text stands for it. -/
theorem keywordRule_wellFormed_iff {key : Word} {r : Rule} :
    r.WellFormed key ↔ ∃ name draft, (IsSymbol name ∧ name ≠ memoryKeyword) ∧ keyOf name = key ∧
      SoundDraft draft ∧ ruleOf key draft = .ok r := by
  constructor
  · intro h
    obtain ⟨name, hname, hkey⟩ := exists_keyOf_iff.mpr h.keyed
    have hsound : SoundDraft (draftFor r) := (soundDraft_iff rfl rfl).mpr
      ⟨h.substitution, h.precedence_short, h.tags, h.transformations, h.link⟩
    exact ⟨name, draftFor r, hname, hkey, hsound, ruleOf_draftFor h⟩
  · rintro ⟨name, draft, hname, hkey, hsound, hrule⟩
    obtain ⟨body, hbody, rfl⟩ := ruleOf_eq_ok.mp hrule
    obtain ⟨hpatterns, hlink⟩ := (makes_of_bodyOf hbody).parts_eq
    obtain ⟨hsubstitution, hshort, htags, htransformations, htargets⟩ :=
      (soundDraft_iff hpatterns hlink).mp hsound
    exact
      { keyed := exists_keyOf_iff.mp ⟨name, hname, hkey⟩
        keyword := rfl
        substitution := hsubstitution
        precedence_nonneg := Int.natCast_nonneg _
        precedence_short := hshort
        tags := htags
        classified := classified_of_bodyOf hbody
        transformations := htransformations
        link := htargets }

/-! ### Memory rules -/

theorem exists_pairTree_iff {pair : MemoryPair} :
    (∃ tree : PairTree, tree.form.Lexical ∧ tree.value = .ok pair) ↔ pair.WellFormed := by
  have hequals : IsSymbol equalsWord := by decide
  constructor
  · rintro ⟨⟨pattern, template, no_equals, no_group⟩, htree, hvalue⟩
    simp only [PairTree.value, bind_eq_ok, pure_eq_ok, decomposition_eq_ok] at hvalue
    obtain ⟨d, hterms, rfl⟩ := hvalue
    obtain ⟨hpattern, htemplate⟩ := PairTree.lexical_form.mp htree
    constructor
    · rw [← hterms]
      exact exists_members_iff.mp ⟨pattern, lexical_listForm.mpr hpattern, rfl⟩
    · rw [← hterms]
      intro hmem
      obtain ⟨m, hm, hword⟩ := List.mem_map.mp hmem
      exact no_equals ((word_eq_iff (hpattern m hm) hequals).mp hword ▸ hm)
    · intro term hterm
      obtain ⟨m, hm, hword⟩ := List.mem_map.mp hterm
      exact isNumber_or_isSymbol_iff.mpr ⟨m, ⟨htemplate m hm, no_group m hm⟩, hword⟩
  · rintro ⟨hpattern, hno_equals, htemplate⟩
    obtain ⟨pattern, hlexical, hterms⟩ := exists_members_iff.mpr hpattern
    obtain ⟨template, hmembers, hwords⟩ := exists_map_eq_iff.mpr fun term hterm =>
      isNumber_or_isSymbol_iff.mp (htemplate term hterm)
    -- The first equals sign of a pair ends its pattern, so the pattern has none of its own.
    have hnot_mem : .symbol equalsWord ∉ pattern := fun hmem =>
      hno_equals (hterms ▸ List.mem_map_of_mem hmem)
    refine ⟨⟨pattern, template, hnot_mem, fun m hm => (hmembers m hm).2⟩, ?_, ?_⟩
    · exact PairTree.lexical_form.mpr
        ⟨lexical_listForm.mp hlexical, fun m hm => (hmembers m hm).1⟩
    · simp only [PairTree.value, bind_eq_ok, pure_eq_ok, decomposition_eq_ok]
      exact ⟨pair.decomposition, hterms, congrArg (MemoryPair.mk _) hwords⟩

/-- A memory rule is well formed exactly when some rule in a text stands for it. -/
theorem memoryRule_wellFormed_iff {m : MemoryRule} :
    m.WellFormed ↔ ∃ trees : List PairTree, IsSymbol m.keyword ∧
      (∀ p ∈ trees, p.form.Lexical) ∧ trees.length = MemoryRule.pairCount ∧
      trees.mapM PairTree.value = .ok m.pairs := by
  constructor
  · rintro ⟨hkeyword, hfour, hpairs⟩
    have hvalues : ∀ result ∈ m.pairs.map Except.ok, ∃ tree : PairTree,
        tree.form.Lexical ∧ tree.value = result :=
      List.forall_mem_map.mpr fun pair hpair => exists_pairTree_iff.mpr (hpairs pair hpair)
    obtain ⟨trees, htrees, hmap⟩ := exists_map_eq_iff.mpr hvalues
    have hmapM := mapM_eq_ok_iff.mpr hmap
    exact ⟨trees, hkeyword, htrees, (length_of_mapM hmapM).symm.trans hfour, hmapM⟩
  · rintro ⟨trees, hkeyword, htrees, hfour, hmapM⟩
    refine ⟨hkeyword, (length_of_mapM hmapM).trans hfour, fun pair hpair => ?_⟩
    have hresult : .ok pair ∈ trees.map PairTree.value :=
      mapM_eq_ok_iff.mp hmapM ▸ List.mem_map_of_mem hpair
    obtain ⟨tree, htree, hvalue⟩ := List.mem_map.mp hresult
    exact exists_pairTree_iff.mp ⟨tree, htrees tree htree, hvalue⟩

/-! ### Scripts -/

/-- A rule is well formed under a key exactly when some rule in a text stands for it under
that key. -/
theorem loadedRule_iff {key : Word} {r : Rule} :
    LoadedRule key r ↔ (r.memory? = none → r.WellFormed key) ∧
      ∀ m ∈ r.memory?, key = memoryKey ∧ r = m.rule ∧ m.WellFormed := by
  constructor
  · intro h
    cases h with
    | memory symbol lexical four values =>
      refine ⟨nofun, fun m hm => ?_⟩
      cases hm
      exact ⟨rfl, rfl, memoryRule_wellFormed_iff.mpr ⟨_, symbol, lexical, four, values⟩⟩
    | keyword symbol not_memory sound made =>
      have hrule := keywordRule_wellFormed_iff.mpr
        ⟨_, _, ⟨symbol, not_memory⟩, rfl, sound, made⟩
      refine ⟨fun _ => hrule, fun m hm => ?_⟩
      rw [hrule.memory?_eq_none] at hm
      cases hm
  · rintro ⟨hkeyword, hmemory⟩
    cases hm : r.memory? with
    | none =>
      obtain ⟨name, draft, ⟨hsymbol, hname⟩, rfl, hsound, hmade⟩ :=
        keywordRule_wellFormed_iff.mp (hkeyword hm)
      exact .keyword hsymbol hname hsound hmade
    | some m =>
      obtain ⟨rfl, rfl, hrule⟩ := hmemory m hm
      obtain ⟨trees, hsymbol, hlexical, hfour, hvalues⟩ := memoryRule_wellFormed_iff.mp hrule
      exact .memory hsymbol hlexical hfour hvalues

end ScriptGrammar

open ScriptGrammar

theorem Script.loaded_iff_wellFormed {s : Script} : s.Loaded ↔ s.WellFormed := by
  constructor
  · rintro ⟨hgreeting, hrules, hcomplete⟩
    exact
      { greeting := exists_members_iff.mp hgreeting
        keywordRules := fun entry hentry => (loadedRule_iff.mp (hrules entry hentry)).1
        memoryRules := fun entry hentry => (loadedRule_iff.mp (hrules entry hentry)).2
        complete := hcomplete }
  · rintro ⟨hgreeting, hkeywordRules, hmemoryRules, hcomplete⟩
    exact
      { greeting := exists_members_iff.mpr hgreeting
        rules := fun entry hentry =>
          loadedRule_iff.mpr ⟨hkeywordRules entry hentry, hmemoryRules entry hentry⟩
        complete := hcomplete }

/-- A script that is read from a text is well formed. -/
theorem Script.wellFormed_of_read {text : List Char} {s : Script} (h : Script.read text = .ok s) :
    s.WellFormed :=
  Script.loaded_iff_wellFormed.mp (Script.loaded_of_read h)

theorem Script.wellFormed_of_groups_and_references :
    ∃ s, Script.read
        ("(HI 2 (* YOU)) (NONE ((0) (= NONE) (NEWKEY))) (MY = YOUR 07 DLIST(/A) ".toList ++
        "((0 (*I ME) 0) (PRE (I 2) (= (A B))) (=NONE)) (= NONE)) (I ((0) (PRE (1) (=MY)))) ".toList ++
        "(MEMORY MY (0 = A) ((/A) = 1) (0 = C) (0 = D))".toList) = .ok s ∧ s.WellFormed := by
  refine (Script.exists_read_of_isSome ?_).imp fun s hs =>
    ⟨hs.1, Script.wellFormed_of_read hs.1⟩
  decide +kernel

/-- Well-formed scripts are all that can be known: each of them is read from some text. -/
theorem Script.exists_read_iff_wellFormed {s : Script} :
    (∃ text, Script.read text = .ok s) ↔ s.WellFormed := by
  rw [← Script.loaded_iff_wellFormed]
  constructor
  · rintro ⟨text, h⟩
    exact Script.loaded_of_read h
  · intro h
    exact ⟨_, h.read_of_perm (List.Perm.refl _)⟩

end Colloquy
