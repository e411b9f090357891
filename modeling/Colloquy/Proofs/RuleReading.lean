import Colloquy.Proofs.ScriptGrammar

/-!
# Reading the parts of a rule

Each function of the reader accepts the items of one kind of tree and nothing else, and gives what
the tree stands for. The statements follow the grammar from its leaves up, from the words of a list
to the items of a keyword rule.
-/

namespace Colloquy

theorem bind_eq_ok {ε α β : Type} {x : Except ε α} {f : α → Except ε β} {b : β} :
    x >>= f = .ok b ↔ ∃ a, x = .ok a ∧ f a = .ok b := by
  cases x <;> simp [bind, Except.bind]

theorem pure_eq_ok {ε α : Type} {a b : α} : (pure a : Except ε α) = .ok b ↔ a = b := by
  simp [pure, Except.pure]

theorem mapError_eq_ok {ε δ α : Type} {f : ε → δ} {x : Except ε α} {a : α} :
    x.mapError f = .ok a ↔ x = .ok a := by
  cases x with
  | error e => exact iff_of_false (fun h => by cases h) fun h => by cases h
  | ok b => exact ⟨fun h => by cases h; rfl, fun h => by cases h; rfl⟩

theorem mapM_cons_eq_ok {ε α β : Type} {f : α → Except ε β} {a : α} {l : List α}
    {results : List β} :
    (a :: l).mapM f = .ok results ↔
      ∃ b others, f a = .ok b ∧ l.mapM f = .ok others ∧ results = b :: others := by
  simp only [List.mapM_cons, bind_eq_ok, pure_eq_ok]
  constructor
  · rintro ⟨b, hb, others, hothers, rfl⟩
    exact ⟨b, others, hb, hothers, rfl⟩
  · rintro ⟨b, others, hb, hothers, rfl⟩
    exact ⟨b, hb, others, hothers, rfl⟩

theorem mapM_eq_ok_iff {ε α β : Type} {f : α → Except ε β} {l : List α} {results : List β} :
    l.mapM f = .ok results ↔ l.map f = results.map .ok := by
  induction l generalizing results with
  | nil => cases results <;> simp [pure_eq_ok]
  | cons a l ih =>
    cases results with
    | nil =>
      refine iff_of_false (fun h => ?_) nofun
      obtain ⟨_, _, _, _, hresults⟩ := mapM_cons_eq_ok.mp h
      cases hresults
    | cons b results =>
      simp only [mapM_cons_eq_ok, ih, List.map_cons, List.cons.injEq]
      constructor
      · rintro ⟨_, _, hb, hothers, rfl, rfl⟩
        exact ⟨hb, hothers⟩
      · rintro ⟨hb, hothers⟩
        exact ⟨b, results, hb, hothers, rfl, rfl⟩

theorem exists_mapM_iff {ε α β : Type} {f : α → Except ε β} {l : List α} :
    (∃ results, l.mapM f = .ok results) ↔ ∀ a ∈ l, ∃ b, f a = .ok b := by
  induction l with
  | nil => exact iff_of_true ⟨[], rfl⟩ (by simp)
  | cons a l ih =>
    rw [List.forall_mem_cons, ← ih]
    simp only [mapM_cons_eq_ok]
    grind

theorem length_of_mapM {ε α β : Type} {f : α → Except ε β} {l : List α} {results : List β}
    (h : l.mapM f = .ok results) : results.length = l.length := by
  have hlength := congrArg List.length (mapM_eq_ok_iff.mp h)
  rwa [List.length_map, List.length_map, eq_comm] at hlength

namespace ScriptReader

open ScriptGrammar Ending

@[simp] theorem refuse_ne_ok {α : Type} (fault : GrammarFault) (line : Nat) (a : α) :
    refuse fault line ≠ .ok a := by
  simp [refuse]

@[simp] theorem sized_eq_ok {α : Type} {x : Except Numerals.Oversized α} {a : α} :
    sized x = .ok a ↔ x = .ok a := by
  cases x <;> simp [sized]

theorem close_eq_ok {ending : Ending} {items : List Item} {u : Unit} :
    close ending items = .ok u ↔ ending.IsBracket ∧ items = [] := by
  cases items with
  | nil => cases ending <;> simp [close, isBracket_bracket, not_isBracket_text]
  | cons item items => simp [close]

theorem close_of_forms? {ending : Ending} (hending : ending.IsBracket) {items : List Item}
    (h : Item.forms? items = some []) : close ending items = .ok () :=
  close_eq_ok.mpr ⟨hending, Item.forms?_eq_some_nil.mp h⟩

theorem groupMembers_eq_ok {ending : Ending} {items : List Item} {names : List Word} :
    groupMembers ending items = .ok names ↔
      ending.IsBracket ∧ Item.forms? items = some (names.map .symbol) := by
  induction items generalizing names with
  | nil =>
    cases ending <;>
      simp [groupMembers, isBracket_bracket, not_isBracket_text, @eq_comm _ _ names]
  | cons item items ih =>
    rw [Item.forms?_cons_eq_some]
    cases item with
    | number digits line =>
      simp only [groupMembers, refuse_ne_ok, Item.form?, false_iff]
      rintro ⟨-, form, rest, hform, -, hnames⟩
      cases names <;> cases hform <;> simp at hnames
    | list inner last line =>
      simp only [groupMembers, refuse_ne_ok, Item.form?_list, false_iff]
      rintro ⟨-, form, rest, ⟨-, forms, -, rfl⟩, -, hnames⟩
      cases names <;> simp at hnames
    | symbol name line =>
      simp only [groupMembers, bind_eq_ok, pure_eq_ok, ih, Item.form?]
      constructor
      · rintro ⟨others, ⟨hending, hothers⟩, rfl⟩
        exact ⟨hending, _, _, rfl, hothers, rfl⟩
      · rintro ⟨hending, form, rest, hform, hrest, hnames⟩
        cases hform
        cases names with
        | nil => cases hnames
        | cons first names =>
          simp only [List.map_cons, List.cons.injEq, Form.symbol.injEq] at hnames
          obtain ⟨rfl, rfl⟩ := hnames
          exact ⟨names, ⟨hending, hrest⟩, rfl⟩

theorem word_eq_ok {item : Item} {w : Word} :
    word item = .ok w ↔ ∃ m : Member, item.form? = some m.form ∧ m.word = w := by
  cases item with
  | number digits line =>
    simp only [word, Except.ok.injEq, Item.form?, Option.some.injEq]
    constructor
    · rintro rfl
      exact ⟨.number digits, rfl, rfl⟩
    · rintro ⟨m, hm, rfl⟩
      cases m <;> cases hm
      rfl
  | symbol name line =>
    simp only [word, Except.ok.injEq, Item.form?, Option.some.injEq]
    constructor
    · rintro rfl
      exact ⟨.symbol name, rfl, rfl⟩
    · rintro ⟨m, hm, rfl⟩
      cases m <;> cases hm
      rfl
  | list items ending line =>
    simp only [word, bind_eq_ok, pure_eq_ok, groupMembers_eq_ok, Item.form?_list]
    constructor
    · rintro ⟨names, ⟨hending, hnames⟩, rfl⟩
      exact ⟨.group names, ⟨hending, _, hnames, rfl⟩, rfl⟩
    · rintro ⟨m, ⟨hending, forms, hforms, hm⟩, rfl⟩
      cases m <;> cases hm
      exact ⟨_, ⟨hending, hforms⟩, rfl⟩

theorem words_eq_ok {ending : Ending} {items : List Item} {ws : List Word} :
    words ending items = .ok ws ↔
      ending.IsBracket ∧
        ∃ ms : List Member, Item.forms? items = some (ms.map Member.form) ∧ listWords ms = ws := by
  induction items generalizing ws with
  | nil =>
    cases ending <;>
      simp [words, isBracket_bracket, not_isBracket_text, listWords]
  | cons item items ih =>
    simp only [words, bind_eq_ok, pure_eq_ok, word_eq_ok, ih, Item.forms?_cons_eq_some]
    constructor
    · rintro ⟨w, ⟨m, hm, rfl⟩, others, ⟨hending, ms, hms, rfl⟩, rfl⟩
      exact ⟨hending, m :: ms, ⟨_, _, hm, hms, rfl⟩, rfl⟩
    · rintro ⟨hending, ms, ⟨form, rest, hform, hrest, hms⟩, rfl⟩
      cases ms with
      | nil => cases hms
      | cons m ms =>
        cases hms
        exact ⟨_, ⟨m, hform, rfl⟩, _, ⟨hending, ms, hrest, rfl⟩, rfl⟩

theorem words_list_eq_ok {items : List Item} {ending : Ending} (line : Nat) {ws : List Word} :
    words ending items = .ok ws ↔
      ∃ ms, Item.form? (.list items ending line) = some (listForm ms) ∧ listWords ms = ws := by
  simp only [words_eq_ok, Item.form?_list, listForm, Form.list.injEq]
  grind

theorem takeList_eq_ok {ending : Ending} {items rest : List Item} {ws : List Word} :
    takeList ending items = .ok (ws, rest) ↔
      ∃ item ms, items = item :: rest ∧ item.form? = some (listForm ms) ∧ listWords ms = ws := by
  unfold takeList
  split
  · rename_i inner last line others
    simp only [bind_eq_ok, pure_eq_ok, Prod.mk.injEq, words_list_eq_ok line]
    grind
  · rename_i hlist
    simp only [refuse_ne_ok, false_iff]
    rintro ⟨item, ms, rfl, hform, -⟩
    cases item with
    | list inner last line => exact hlist inner last line rest rfl
    | number digits line => cases hform
    | symbol name line => cases hform

theorem target?_eq_some {ws : List Word} {target : Word} :
    target? ws = some target ↔ Names ws target := by
  constructor
  · intro h
    unfold target? at h
    split at h
    · cases h
      exact .joined _ _
    · cases h
      exact .apart _
    · cases h
  · rintro (⟨first, rest⟩ | target)
    · rfl
    · rfl

/-! ### Reassemblies and transformations -/

private theorem plain_of_words {items : List Item} {ending : Ending} (line : Nat)
    {ws : List Word} (h : words ending items = .ok ws)
    (hpre : ∀ last rest, items ≠ .symbol preWord last :: rest) :
    ∃ tree : ReassemblyTree, Item.form? (.list items ending line) = some tree.form ∧
      tree.value = .ofTerms ws := by
  obtain ⟨ms, hform, rfl⟩ := (words_list_eq_ok line).mp h
  refine ⟨.plain ms fun hhead => ?_, hform, rfl⟩
  obtain ⟨ms, rfl⟩ := List.head?_eq_some_iff.mp hhead
  obtain ⟨-, hforms⟩ := Item.form?_list_eq_list.mp hform
  obtain ⟨last, rest, rfl, -⟩ := Item.forms?_eq_some_symbol_cons.mp hforms
  exact hpre last rest rfl

theorem tree_of_reassembly {items : List Item} {ending : Ending} (line : Nat) {r : Reassembly}
    (h : reassembly items ending = .ok r) :
    ∃ tree : ReassemblyTree, Item.form? (.list items ending line) = some tree.form ∧
      tree.value = r := by
  unfold reassembly at h
  split at h
  · rename_i name last rest
    split at h
    · rename_i hname
      subst hname
      simp only [bind_eq_ok, Prod.exists, takeList_eq_ok, close_eq_ok] at h
      obtain ⟨_, _, ⟨first, terms, rfl, hterms, rfl⟩, _, _,
        ⟨second, reference, rfl, hreference, rfl⟩, _, ⟨hending, rfl⟩, h⟩ := h
      split at h
      · rename_i target htarget
        cases h
        refine ⟨.pre terms reference target (target?_eq_some.mp htarget), ?_, rfl⟩
        refine Item.form?_list_eq_list.mpr ⟨hending, ?_⟩
        simp [Item.forms?_cons_eq_some, hterms, hreference]
      · simp at h
    · rename_i hname
      simp only [bind_eq_ok, pure_eq_ok] at h
      obtain ⟨ws, hws, rfl⟩ := h
      refine plain_of_words line hws fun _ _ hitems => hname ?_
      cases hitems
      rfl
  · rename_i hsymbol
    simp only [bind_eq_ok, pure_eq_ok] at h
    obtain ⟨ws, hws, rfl⟩ := h
    exact plain_of_words line hws fun _ _ hitems => hsymbol _ _ _ hitems

theorem reassembly_of_tree (tree : ReassemblyTree) {items : List Item} {ending : Ending}
    {line : Nat} (h : Item.form? (.list items ending line) = some tree.form) :
    reassembly items ending = .ok tree.value := by
  cases tree with
  | plain ms hpre =>
    have hws : words ending items = .ok (listWords ms) := (words_list_eq_ok line).mpr ⟨ms, h, rfl⟩
    unfold reassembly
    split
    · rename_i name last rest
      split
      · rename_i hname
        subst hname
        obtain ⟨-, hforms⟩ := Item.form?_list_eq_list.mp h
        cases ms with
        | nil => simp [Item.forms?_cons_eq_some] at hforms
        | cons m ms =>
          obtain ⟨form, _, hform, _, hms⟩ := Item.forms?_cons_eq_some.mp hforms
          cases m <;> cases hform <;> cases hms
          exact absurd rfl hpre
      · rw [hws]
        rfl
    · rw [hws]
      rfl
  | pre terms reference target hnames =>
    obtain ⟨hending, hforms⟩ := Item.form?_list_eq_list.mp h
    obtain ⟨last, rest, rfl, hrest⟩ := Item.forms?_eq_some_symbol_cons.mp hforms
    obtain ⟨first, rest, rfl, hfirst, hrest⟩ := Item.forms?_eq_some_cons.mp hrest
    obtain ⟨second, rest, rfl, hsecond, hrest⟩ := Item.forms?_eq_some_cons.mp hrest
    have hterms : takeList ending (first :: second :: rest) =
        .ok (listWords terms, second :: rest) :=
      takeList_eq_ok.mpr ⟨first, terms, rfl, hfirst, rfl⟩
    have hreference : takeList ending (second :: rest) = .ok (listWords reference, rest) :=
      takeList_eq_ok.mpr ⟨second, reference, rfl, hsecond, rfl⟩
    have hclose := close_of_forms? hending hrest
    simp [reassembly, hterms, hreference, hclose, target?_eq_some.mpr hnames, bind, Except.bind,
      ReassemblyTree.value]

theorem reassemblies_eq_ok {ending : Ending} {items : List Item} {rs : List Reassembly} :
    reassemblies ending items = .ok rs ↔
      ending.IsBracket ∧ ∃ trees : List ReassemblyTree,
        Item.forms? items = some (trees.map ReassemblyTree.form) ∧
        trees.map ReassemblyTree.value = rs := by
  induction items generalizing rs with
  | nil =>
    simp only [reassemblies, bind_eq_ok, pure_eq_ok, close_eq_ok, Item.forms?_nil_eq_some,
      List.map_eq_nil_iff]
    grind
  | cons item items ih =>
    constructor
    · intro h
      cases item with
      | list inner last line =>
        simp only [reassemblies, bind_eq_ok, pure_eq_ok, ih] at h
        obtain ⟨r, hr, _, ⟨hending, trees, htrees, rfl⟩, rfl⟩ := h
        obtain ⟨tree, htree, rfl⟩ := tree_of_reassembly line hr
        exact ⟨hending, tree :: trees,
          Item.forms?_cons_eq_some.mpr ⟨_, _, htree, htrees, rfl⟩, rfl⟩
      | number digits line =>
        simp only [reassemblies, bind_eq_ok, close_eq_ok] at h
        obtain ⟨_, ⟨-, hitems⟩, -⟩ := h
        cases hitems
      | symbol name line =>
        simp only [reassemblies, bind_eq_ok, close_eq_ok] at h
        obtain ⟨_, ⟨-, hitems⟩, -⟩ := h
        cases hitems
    · rintro ⟨hending, trees, htrees, rfl⟩
      obtain ⟨form, rest, hform, hrest, hlist⟩ := Item.forms?_cons_eq_some.mp htrees
      cases trees with
      | nil => cases hlist
      | cons tree trees =>
        cases hlist
        obtain ⟨inner, last, line, rfl⟩ := Item.exists_eq_list hform tree.exists_form_eq_list
        simp only [reassemblies, bind_eq_ok, pure_eq_ok, ih]
        exact ⟨_, reassembly_of_tree tree hform, _, ⟨hending, trees, hrest, rfl⟩, rfl⟩

theorem transformation_eq_ok {items : List Item} {ending : Ending} (line : Nat)
    {draft : PatternDraft} :
    transformation items ending = .ok draft ↔
      ∃ (pattern : List Member) (first : ReassemblyTree) (more : List ReassemblyTree),
        Item.form? (.list items ending line) =
          some (.list (listForm pattern :: (first :: more).map ReassemblyTree.form)) ∧
        draft = ⟨listWords pattern, (first :: more).map ReassemblyTree.value⟩ := by
  constructor
  · intro h
    simp only [transformation, bind_eq_ok, Prod.exists, takeList_eq_ok] at h
    obtain ⟨_, rest, ⟨item, pattern, rfl, hitem, rfl⟩, h⟩ := h
    split at h
    · simp only [bind_eq_ok, pure_eq_ok, reassemblies_eq_ok] at h
      obtain ⟨_, ⟨hending, trees, htrees, rfl⟩, rfl⟩ := h
      cases trees with
      | nil =>
        -- The list that has been looked for in front of the reassemblies is one of them.
        simp [Item.forms?_eq_some_nil] at htrees
      | cons first more =>
        refine ⟨pattern, first, more, Item.form?_list_eq_list.mpr ⟨hending, ?_⟩, rfl⟩
        exact Item.forms?_cons_eq_some.mpr ⟨_, _, hitem, htrees, rfl⟩
    · simp at h
  · rintro ⟨pattern, first, more, hform, rfl⟩
    obtain ⟨hending, hforms⟩ := Item.form?_list_eq_list.mp hform
    obtain ⟨item, rest, rfl, hitem, hrest⟩ := Item.forms?_eq_some_cons.mp hforms
    obtain ⟨second, others, rfl, hsecond, -⟩ := Item.forms?_eq_some_cons.mp hrest
    obtain ⟨inner, last, place, rfl⟩ := Item.exists_eq_list hsecond first.exists_form_eq_list
    have hpattern : takeList ending (item :: .list inner last place :: others) =
        .ok (listWords pattern, .list inner last place :: others) :=
      takeList_eq_ok.mpr ⟨item, pattern, rfl, hitem, rfl⟩
    have hmore : reassemblies ending (.list inner last place :: others) =
        .ok ((first :: more).map ReassemblyTree.value) :=
      reassemblies_eq_ok.mpr ⟨hending, first :: more, hrest, rfl⟩
    simp [transformation, hpattern, hmore, bind, Except.bind, pure, Except.pure]

theorem reference_eq_ok {items : List Item} {ending : Ending} (line : Nat) {target : Word} :
    reference items ending = .ok target ↔
      ∃ tree : ReferenceTree, Item.form? (.list items ending line) = some tree.form ∧
        tree.target = target := by
  constructor
  · intro h
    unfold reference at h
    split at h
    · simp only [bind_eq_ok, pure_eq_ok, close_eq_ok] at h
      obtain ⟨_, ⟨hending, rfl⟩, rfl⟩ := h
      refine ⟨.apart _, Item.form?_list_eq_list.mpr ⟨hending, ?_⟩, rfl⟩
      simp [Item.forms?_cons_eq_some, equalsWord]
    · simp at h
    · rename_i name _ rest _ hname
      simp only [bind_eq_ok, pure_eq_ok, close_eq_ok] at h
      obtain ⟨_, ⟨hending, rfl⟩, rfl⟩ := h
      cases name with
      | nil => simp at hname
      | cons first name =>
        refine ⟨.joined first name, Item.form?_list_eq_list.mpr ⟨hending, ?_⟩, rfl⟩
        simp [Item.forms?_cons_eq_some]
    · simp at h
  · rintro ⟨tree, hform, rfl⟩
    cases tree with
    | apart target =>
      obtain ⟨hending, hforms⟩ := Item.form?_list_eq_list.mp hform
      obtain ⟨last, rest, rfl, hrest⟩ := Item.forms?_eq_some_symbol_cons.mp hforms
      obtain ⟨place, rest, rfl, hend⟩ := Item.forms?_eq_some_symbol_cons.mp hrest
      have hclose := close_of_forms? hending hend
      simp [reference, equalsWord, hclose, bind, Except.bind, pure, Except.pure,
        ReferenceTree.target]
    | joined first name =>
      obtain ⟨hending, hforms⟩ := Item.form?_list_eq_list.mp hform
      obtain ⟨last, rest, rfl, hrest⟩ := Item.forms?_eq_some_symbol_cons.mp hforms
      have hclose := close_of_forms? hending hrest
      simp [reference, hclose, bind, Except.bind, pure, Except.pure, ReferenceTree.target]

/-! ### The items of a keyword rule -/

theorem draftFrom_cons (draft : RuleDraft) (item : RuleItem) (items : List RuleItem)
    (reference : Option ReferenceTree) :
    draftFrom draft (item :: items) reference =
      item.addTo draft >>= fun draft => draftFrom draft items reference := by
  simp only [draftFrom, List.foldlM_cons, bind_assoc]

theorem draftFrom_nil (draft : RuleDraft) (reference : Option ReferenceTree) :
    draftFrom draft [] reference =
      .ok (match reference with
        | none => draft
        | some r => { draft with link := some r.target }) := rfl

theorem isReference_of_form? {items : List Item} {ending : Ending} {line : Nat}
    {tree : ReferenceTree} (h : Item.form? (.list items ending line) = some tree.form) :
    isReference items = true := by
  cases tree <;>
  · obtain ⟨-, hforms⟩ := Item.form?_list_eq_list.mp h
    obtain ⟨last, rest, rfl, -⟩ := Item.forms?_eq_some_symbol_cons.mp hforms
    rfl

theorem not_isReference_of_form? {items : List Item} {ending : Ending} {line : Nat}
    {forms more : List Form}
    (h : Item.form? (.list items ending line) = some (.list (.list forms :: more))) :
    isReference items = false := by
  obtain ⟨-, hforms⟩ := Item.form?_list_eq_list.mp h
  obtain ⟨item, rest, rfl, hitem, -⟩ := Item.forms?_eq_some_cons.mp hforms
  obtain ⟨_, _, _, rfl, -⟩ := Item.form?_eq_list.mp hitem
  rfl

/-- What the items of a rule stand for, in front of the reference that may end the rule. -/
def ItemsMean (items : List Item) (draft result : RuleDraft) : Prop :=
  ∃ (its : List RuleItem) (reference : Option ReferenceTree),
    Item.forms? items =
      some (its.flatMap RuleItem.forms ++ reference.toList.map ReferenceTree.form) ∧
    draftFrom draft its reference = .ok result

private theorem ItemsMean.cons {front items : List Item} {item : RuleItem}
    {draft next result : RuleDraft} (hfront : Item.forms? front = some item.forms)
    (hnext : item.addTo draft = .ok next) (h : ItemsMean items next result) :
    ItemsMean (front ++ items) draft result := by
  obtain ⟨its, reference, hforms, hdraft⟩ := h
  refine ⟨item :: its, reference, ?_, ?_⟩
  · rw [Item.forms?_append_eq_some]
    exact ⟨_, _, hfront, hforms, by simp⟩
  · rw [draftFrom_cons, hnext]
    exact hdraft

theorem itemsMean_of_ruleItems {ending : Ending} {draft : RuleDraft} {items : List Item}
    {result : RuleDraft} (h : ruleItems ending draft items = .ok result) :
    ending.IsBracket ∧ ItemsMean items draft result := by
  fun_induction ruleItems ending draft items with
  | case1 draft line hending =>
    cases h
    exact ⟨⟨_, hending⟩, [], none, rfl, rfl⟩
  | case3 draft digits line rest ih =>
    simp only [bind_eq_ok, sized_eq_ok] at h
    obtain ⟨precedence, hprecedence, h⟩ := h
    obtain ⟨hending, hrest⟩ := ih precedence h
    have hnext : (RuleItem.precedence digits).addTo draft =
        .ok { draft with precedence := precedence } := by
      simp only [RuleItem.addTo, hprecedence]
      rfl
    have hfront : Item.forms? [.number digits line] =
        some (RuleItem.precedence digits).forms := rfl
    exact ⟨hending, hrest.cons hfront hnext⟩
  | case4 draft line name place rest ih =>
    obtain ⟨hending, hrest⟩ := ih h
    have hfront : Item.forms? [.symbol equalsWord line, .symbol name place] =
        some (RuleItem.substitution name).forms := rfl
    exact ⟨hending, hrest.cons hfront rfl⟩
  | case6 draft line items inner place rest _ ih =>
    simp only [bind_eq_ok, words_list_eq_ok place] at h
    obtain ⟨_, ⟨members, hmembers, rfl⟩, h⟩ := h
    obtain ⟨hending, hrest⟩ := ih _ h
    have hfront : Item.forms? [.symbol tagsWord line, .list items inner place] =
        some (RuleItem.tags members).forms := by
      simp [Item.forms?_cons_eq_some, hmembers, RuleItem.forms]
    exact ⟨hending, hrest.cons hfront rfl⟩
  | case9 draft items inner line rest _ =>
    simp only [bind_eq_ok, pure_eq_ok, close_eq_ok, reference_eq_ok line] at h
    obtain ⟨_, ⟨tree, htree, rfl⟩, _, ⟨hending, rfl⟩, rfl⟩ := h
    refine ⟨hending, [], some tree, ?_, rfl⟩
    simp [Item.forms?_cons_eq_some, htree]
  | case10 draft items inner line rest _ ih =>
    simp only [bind_eq_ok, transformation_eq_ok line] at h
    obtain ⟨_, ⟨pattern, first, more, hform, rfl⟩, h⟩ := h
    obtain ⟨hending, hrest⟩ := ih _ h
    have hfront : Item.forms? [.list items inner line] =
        some (RuleItem.transformation pattern first more).forms := by
      simp only [Item.forms?_cons_eq_some, hform, RuleItem.forms]
      simp
    exact ⟨hending, hrest.cons hfront rfl⟩
  | case2 | case5 | case7 | case8 => simp at h

theorem ruleItems_of_itemsMean {ending : Ending} (hending : ending.IsBracket) {items : List Item}
    {draft result : RuleDraft} (h : ItemsMean items draft result) :
    ruleItems ending draft items = .ok result := by
  obtain ⟨its, reference, hforms, hdraft⟩ := h
  -- Each item changes the draft, so the induction is on the items for every draft.
  induction its generalizing items draft with
  | nil =>
    rw [draftFrom_nil] at hdraft
    cases hdraft
    cases reference with
    | none =>
      obtain ⟨line, rfl⟩ := hending
      rw [Item.forms?_eq_some_nil.mp hforms]
      rfl
    | some tree =>
      obtain ⟨item, rest, rfl, hitem, hrest⟩ := Item.forms?_eq_some_cons.mp hforms
      obtain ⟨inner, last, line, rfl⟩ := Item.exists_eq_list hitem tree.exists_form_eq_list
      have hreference := (reference_eq_ok line).mpr ⟨tree, hitem, rfl⟩
      have hclose := close_of_forms? hending hrest
      simp [ruleItems, isReference_of_form? hitem, hreference, hclose, bind, Except.bind, pure,
        Except.pure]
  | cons it its ih =>
    rw [List.flatMap_cons, List.append_assoc] at hforms
    rw [draftFrom_cons, bind_eq_ok] at hdraft
    obtain ⟨next, hnext, hdraft⟩ := hdraft
    cases it with
    | substitution name =>
      cases hnext
      obtain ⟨line, rest, rfl, hrest⟩ := Item.forms?_eq_some_symbol_cons.mp hforms
      obtain ⟨place, rest, rfl, hitems⟩ := Item.forms?_eq_some_symbol_cons.mp hrest
      rw [ruleItems, if_pos rfl]
      exact ih hitems hdraft
    | precedence digits =>
      simp only [RuleItem.addTo, bind_eq_ok, pure_eq_ok] at hnext
      obtain ⟨precedence, hprecedence, rfl⟩ := hnext
      obtain ⟨item, rest, rfl, hitem, hitems⟩ := Item.forms?_eq_some_cons.mp hforms
      obtain ⟨line, rfl⟩ := Item.form?_eq_number.mp hitem
      rw [ruleItems, sized_eq_ok.mpr hprecedence]
      exact ih hitems hdraft
    | tags members =>
      cases hnext
      obtain ⟨line, rest, rfl, hrest⟩ := Item.forms?_eq_some_symbol_cons.mp hforms
      obtain ⟨item, rest, rfl, hitem, hitems⟩ := Item.forms?_eq_some_cons.mp hrest
      obtain ⟨inner, last, place, rfl, hlast, hinner⟩ := Item.form?_eq_list.mp hitem
      have hwords : words last inner = .ok (listWords members) :=
        words_eq_ok.mpr ⟨hlast, members, hinner, rfl⟩
      rw [ruleItems, if_neg (by decide), if_pos rfl]
      simp only [hwords]
      exact ih hitems hdraft
    | transformation pattern first more =>
      cases hnext
      obtain ⟨item, rest, rfl, hitem, hitems⟩ := Item.forms?_eq_some_cons.mp hforms
      have hform := hitem
      obtain ⟨inner, last, line, rfl, -⟩ := Item.form?_eq_list.mp hitem
      have htransformation := (transformation_eq_ok line).mpr ⟨pattern, first, more, hform, rfl⟩
      rw [ruleItems, if_neg (by simp [not_isReference_of_form? hform]), htransformation]
      exact ih hitems hdraft

end ScriptReader

end Colloquy
