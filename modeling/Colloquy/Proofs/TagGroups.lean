import Colloquy.Proofs.LoadedScripts

/-!
# Tags and the groups that name them

A rule puts its keyword under a tag that it lists, with a slash or without. In the index of a loaded
script every tag has the keys of the rules that list it, in their order, and a group of a pattern
that names the tag takes just these words.
-/

namespace Colloquy

namespace TagIndex

/-! ### Names of tags -/

/-- A tag is listed by its name or by its name behind a slash. -/
theorem nameOf_eq_some_iff {listed tag : Word} :
    nameOf listed = some tag ↔
      (listed = tag ∧ tag.head? ≠ some '/') ∨ (listed = '/' :: tag ∧ tag ≠ []) := by
  unfold nameOf
  split
  · simp only [reduceCtorEq, false_iff]
    rintro (⟨rfl, hhead⟩ | ⟨hlisted, hne⟩)
    · exact hhead rfl
    · exact hne (List.cons.inj hlisted).2.symm
  · rename_i name hne
    constructor
    · intro h
      cases h
      exact .inr ⟨rfl, hne⟩
    · rintro (⟨rfl, hhead⟩ | ⟨hlisted, -⟩)
      · exact absurd rfl hhead
      · rw [(List.cons.inj hlisted).2]
  · rename_i hslash hslashes
    constructor
    · intro h
      cases h
      refine .inl ⟨rfl, ?_⟩
      intro hhead
      cases listed with
      | nil => cases hhead
      | cons c name =>
        cases hhead
        exact hslashes name rfl
    · rintro (⟨rfl, -⟩ | ⟨hlisted, -⟩)
      · rfl
      · exact absurd hlisted (hslashes tag)

end TagIndex

def Rule.Carries (r : Rule) (tag : Word) : Prop :=
  tag ∈ r.tags.filterMap TagIndex.nameOf

instance (r : Rule) (tag : Word) : Decidable (r.Carries tag) :=
  inferInstanceAs (Decidable (tag ∈ r.tags.filterMap TagIndex.nameOf))

theorem Rule.carries_iff {r : Rule} {tag : Word} (hne : tag ≠ []) (hhead : tag.head? ≠ some '/') :
    r.Carries tag ↔ tag ∈ r.tags ∨ '/' :: tag ∈ r.tags := by
  rw [Carries, List.mem_filterMap]
  constructor
  · rintro ⟨listed, hlisted, hname⟩
    rcases TagIndex.nameOf_eq_some_iff.mp hname with ⟨rfl, -⟩ | ⟨rfl, -⟩
    · exact .inl hlisted
    · exact .inr hlisted
  · rintro (hlisted | hlisted)
    · exact ⟨tag, hlisted, TagIndex.nameOf_eq_some_iff.mpr (.inl ⟨rfl, hhead⟩)⟩
    · exact ⟨'/' :: tag, hlisted, TagIndex.nameOf_eq_some_iff.mpr (.inr ⟨rfl, hne⟩)⟩

namespace TagIndex

/-! ### Members of tags -/

def members (tags : Tags) (tag : Word) : List Word :=
  (tags.get? tag).getD []

theorem members_insert (tags : Tags) (tag other : Word) (words : List Word) :
    members (tags.insert tag words) other = if other = tag then words else members tags other := by
  rw [members, WordMap.get?_insert]
  split
  · rfl
  · rfl

/-- A word is put behind the others, unless it is among them. -/
theorem members_addMember (tags : Tags) (tag keyword other : Word) :
    members (addMember tags tag keyword) other =
      if other = tag ∧ keyword ∉ members tags other then members tags other ++ [keyword]
      else members tags other := by
  have hmembers : (tags.get? tag).getD [] = members tags tag := rfl
  simp only [addMember, hmembers]
  by_cases hother : other = tag
  · subst hother
    by_cases hmem : keyword ∈ members tags other
    · simp [hmem]
    · simp [hmem, members_insert]
  · simp only [hother, false_and, if_false]
    split
    · rfl
    · rw [members_insert, if_neg hother]

/-- A rule puts its keyword under each of its tags once, however often it lists them. -/
theorem members_addRule (tags : Tags) (r : Rule) (tag : Word) :
    members (addRule tags r) tag =
      if r.Carries tag ∧ r.keyword ∉ members tags tag then members tags tag ++ [r.keyword]
      else members tags tag := by
  have hcarries : r.Carries tag ↔ tag ∈ r.tags.filterMap nameOf := Iff.rfl
  simp only [addRule, hcarries]
  induction r.tags.filterMap nameOf generalizing tags with
  | nil => simp
  | cons name names ih =>
    rw [List.foldl_cons, ih, members_addMember]
    by_cases hmem : r.keyword ∈ members tags tag
    · simp [hmem]
    · by_cases htag : tag = name
      · subst htag
        simp [hmem]
      · simp [htag, hmem]

/-- Rules with different keywords, none of which is under the tag, are added one behind the
other. -/
theorem members_addRules {entries : List (Word × Rule)} {tags : Tags} {tag : Word}
    (hdistinct : (entries.map (·.2.keyword)).Nodup)
    (hnew : ∀ entry ∈ entries, entry.2.keyword ∉ members tags tag) :
    members (entries.foldl (fun tags entry => addRule tags entry.2) tags) tag =
      members tags tag ++ (entries.filter (·.2.Carries tag)).map (·.2.keyword) := by
  induction entries generalizing tags with
  | nil => simp
  | cons entry entries ih =>
    rw [List.map_cons, List.nodup_cons] at hdistinct
    obtain ⟨hhead, hrest⟩ := List.forall_mem_cons.mp hnew
    have hmembers : members (addRule tags entry.2) tag =
        members tags tag ++ if entry.2.Carries tag then [entry.2.keyword] else [] := by
      rw [members_addRule]
      by_cases hcarries : entry.2.Carries tag
      · simp [hcarries, hhead]
      · simp [hcarries]
    have hnew : ∀ other ∈ entries, other.2.keyword ∉ members (addRule tags entry.2) tag := by
      intro other hother hmem
      rw [hmembers, List.mem_append] at hmem
      rcases hmem with hmem | hmem
      · exact hrest other hother hmem
      · -- The word just added is none of those to come, which differ from it.
        have hsame : other.2.keyword = entry.2.keyword := by
          split at hmem
          · exact List.mem_singleton.mp hmem
          · cases hmem
        exact hdistinct.1 (hsame ▸ List.mem_map_of_mem hother)
    rw [List.foldl_cons, ih hdistinct.2 hnew, hmembers]
    by_cases hcarries : entry.2.Carries tag
    · simp [hcarries]
    · simp [hcarries]

/-- If every rule belongs to its key, a tag has the keys of the rules that carry it, in their
order. -/
theorem members_ofRules {rules : WordMap Rule}
    (hkeys : ∀ entry ∈ rules.entries, entry.2.keyword = entry.1) (tag : Word) :
    members (ofRules rules) tag = (rules.entries.filter (·.2.Carries tag)).map (·.1) := by
  have hkeywords : rules.entries.map (·.2.keyword) = rules.entries.map (·.1) :=
    List.map_congr_left hkeys
  have hdistinct : (rules.entries.map (·.2.keyword)).Nodup := by
    rw [hkeywords]
    exact rules.nodup_keys
  have hempty : members WordMap.empty tag = [] := rfl
  rw [ofRules, members_addRules hdistinct (by simp [hempty]), hempty, List.nil_append]
  apply List.map_congr_left
  intro entry hentry
  exact hkeys entry (List.mem_filter.mp hentry).1

end TagIndex

/-! ### Groups -/

/-- A group of a pattern names a tag, with the slash joined to the name or apart from it. -/
inductive NamesTag : List Word → Word → Prop where
  | joined (tag : Word) : NamesTag ['/' :: tag] tag
  | apart (tag : Word) : NamesTag [['/'], tag] tag

theorem Element.groupBody_groupWord (names : List Word) :
    groupBody (ScriptReader.groupWord names) = [' '].intercalate names := by
  have hlast : (ScriptReader.groupWord names).getLast? = some ')' := List.getLast?_concat
  have hfront : (ScriptReader.groupWord names).dropLast = '(' :: [' '].intercalate names :=
    List.dropLast_concat
  simp [groupBody, hlast, hfront]

theorem NamesTag.ofTerm_groupWord {names : List Word} {tag : Word} (h : NamesTag names tag)
    (htag : Lexemes.IsSymbol tag) :
    Element.ofTerm (ScriptReader.groupWord names) = .ok (.tagged tag) := by
  have hnumeral := ScriptGrammar.not_isNumeral_groupWord names
  have hspaces : tag.dropWhile (· == ' ') = tag := by
    obtain ⟨-, -, hunbroken⟩ := htag
    cases tag with
    | nil => rfl
    | cons c tag =>
      have hc : c ≠ ' ' := by
        rintro rfl
        exact absurd (hunbroken ' ' List.mem_cons_self) (by decide)
      simp [hc]
  have hgroup : Element.ofGroup (ScriptReader.groupWord names) = .tagged tag := by
    rw [Element.ofGroup, Element.groupBody_groupWord]
    cases h with
    | joined => simp [List.intercalate_singleton, hspaces]
    | apart => simp [List.intercalate_cons_cons, List.intercalate_singleton, hspaces]
  have hopening : (ScriptReader.groupWord names).head? = some '(' := rfl
  simp [Element.ofTerm, Numerals.read, hnumeral, hopening, hgroup]

/-! ### Loaded scripts -/

theorem Script.Loaded.keyword_eq_key {s : Script} (h : s.Loaded) {entry : Word × Rule}
    (hentry : entry ∈ s.keywordRules.entries) : entry.2.keyword = entry.1 := by
  obtain ⟨hrules, hkey⟩ := Script.mem_keywordRules.mp hentry
  have hloaded := h.rules entry hrules
  apply hloaded.keyword_eq
  cases hm : entry.2.memory? with
  | none => rfl
  | some m => exact absurd (hloaded.memory?_eq_some hm).1 hkey

/-- In a loaded script a tag has the keys of the keyword rules that carry it, in their order. -/
theorem Script.Loaded.members_tags {s : Script} (h : s.Loaded) (tag : Word) :
    TagIndex.members s.tags tag =
      (s.keywordRules.entries.filter (·.2.Carries tag)).map (·.1) :=
  TagIndex.members_ofRules (fun _ hentry => h.keyword_eq_key hentry) tag

theorem Script.Loaded.mem_members_tags_iff {s : Script} (h : s.Loaded) {tag w : Word} :
    w ∈ TagIndex.members s.tags tag ↔
      ∃ entry ∈ s.keywordRules.entries, entry.2.keyword = w ∧ entry.2.Carries tag := by
  rw [h.members_tags, List.mem_map]
  constructor
  · rintro ⟨entry, hfiltered, rfl⟩
    obtain ⟨hentry, hcarries⟩ := List.mem_filter.mp hfiltered
    exact ⟨entry, hentry, h.keyword_eq_key hentry, of_decide_eq_true hcarries⟩
  · rintro ⟨entry, hentry, rfl, hcarries⟩
    have hfiltered : entry ∈ s.keywordRules.entries.filter (·.2.Carries tag) :=
      List.mem_filter.mpr ⟨hentry, decide_eq_true hcarries⟩
    exact ⟨entry, hfiltered, (h.keyword_eq_key hentry).symm⟩

theorem Script.Loaded.ascending_members {s : Script} (h : s.Loaded) (tag : Word) :
    (TagIndex.members s.tags tag).Pairwise (· < ·) := by
  rw [h.members_tags, List.pairwise_map]
  exact s.keywordRules.ascending.filter _

/-- In a script that is read from a text, a group that names a tag takes exactly the keywords of the
keyword rules that list the tag, with a slash or without. The words under every tag ascend, so none
of them stands there twice. -/
theorem Script.tag_groups_take_listed_keywords {text : List Char} {s : Script}
    (h : Script.read text = .ok s) :
    (∀ tag names, Lexemes.IsSymbol tag → tag.head? ≠ some '/' → NamesTag names tag →
        ∃ element, Element.ofTerm (ScriptReader.groupWord names) = .ok element ∧
          ∀ w, element.accepts s.tags w = true ↔
            ∃ entry ∈ s.keywordRules.entries, entry.2.keyword = w ∧
              (tag ∈ entry.2.tags ∨ '/' :: tag ∈ entry.2.tags)) ∧
      ∀ tag words, s.tags.get? tag = some words → words.Pairwise (· < ·) ∧ words.Nodup := by
  have hloaded := Script.loaded_of_read h
  constructor
  · intro tag names hsymbol hhead hnames
    refine ⟨.tagged tag, hnames.ofTerm_groupWord hsymbol, fun w => ?_⟩
    have haccepts : (Element.tagged tag).accepts s.tags w = true ↔
        w ∈ TagIndex.members s.tags tag := List.contains_iff_mem
    rw [haccepts, hloaded.mem_members_tags_iff]
    simp only [Rule.carries_iff hsymbol.ne_nil hhead]
  · intro tag words hwords
    have hmembers : TagIndex.members s.tags tag = words := by
      rw [TagIndex.members, hwords]
      rfl
    have hascending : words.Pairwise (· < ·) := hmembers ▸ hloaded.ascending_members tag
    exact ⟨hascending, hascending.nodup⟩

/-- Two rules list one tag, and a group that names it with the slash apart takes their keywords. -/
theorem Script.tag_group_takes_both_parents :
    ∃ s, Script.read
        ("(HI) (NONE ((0) (OH))) (MOM = MOTHER DLIST(/ FAMILY)) (DAD DLIST(/FAMILY)) ".toList ++
          "(MEMORY MOM (0 = A) (0 = B) (0 = C) (0 = D))".toList) = .ok s ∧
      ∃ element, Element.ofTerm "(/ FAMILY)".toList = .ok element ∧
        element.accepts s.tags "MOM".toList = true ∧ element.accepts s.tags "DAD".toList = true ∧
        ∃ words, s.tags.get? "FAMILY".toList = some words ∧ words.Pairwise (· < ·) := by
  refine (Script.exists_read_of_any (p := fun s => decide
    ((∃ entry ∈ s.keywordRules.entries,
        entry.2.keyword = "MOM".toList ∧ "FAMILY".toList ∈ entry.2.tags) ∧
      (∃ entry ∈ s.keywordRules.entries,
        entry.2.keyword = "DAD".toList ∧ "/FAMILY".toList ∈ entry.2.tags) ∧
      (s.tags.get? "FAMILY".toList).isSome = true)) (by decide +kernel)).imp
    fun s hs => ⟨hs.1, ?_⟩
  obtain ⟨⟨mom, hmom, hmomKeyword, hmomTag⟩, ⟨dad, hdad, hdadKeyword, hdadTag⟩, hwords⟩ :=
    of_decide_eq_true hs.2
  have hsymbol : Lexemes.IsSymbol "FAMILY".toList := Lexemes.isSymbol_of_all (by decide) (by decide)
  obtain ⟨htaken, hordered⟩ := Script.tag_groups_take_listed_keywords hs.1
  obtain ⟨element, helement, haccepts⟩ := htaken _ _ hsymbol (by decide) (.apart "FAMILY".toList)
  obtain ⟨words, hwords⟩ := Option.isSome_iff_exists.mp hwords
  exact ⟨element, helement, (haccepts _).mpr ⟨mom, hmom, hmomKeyword, .inl hmomTag⟩,
    (haccepts _).mpr ⟨dad, hdad, hdadKeyword, .inr hdadTag⟩, words, hwords, (hordered _ _ hwords).1⟩

end Colloquy
