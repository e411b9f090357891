import Mathlib.Data.List.Perm.Basic
import Mathlib.Data.Set.List
import Colloquy.ScriptWriter
import Colloquy.Proofs.LoadedScripts
import Colloquy.Proofs.UniqueDerivations

/-!
# The arrangement of a script

The rules of a script may stand in any order, empty rules may stand between them, and the start may
be marked or not: what is read from the text is the same script.
-/

namespace Colloquy

open ScriptGrammar

/-- A text as a row of forms: a greeting, a mark of the start or none, and bracketed rules. -/
structure Arrangement where
  greeting : List Form
  start : Bool
  rules : List (List Form)

namespace Arrangement

def forms (a : Arrangement) : List Form :=
  .list a.greeting ::
    ((if a.start then [.symbol ScriptReader.startWord] else []) ++ a.rules.map .list)

def tokens (a : Arrangement) : List Token :=
  Form.tokensAll a.forms

def filled (a : Arrangement) : List (List Form) :=
  a.rules.filter fun rule => !rule.isEmpty

/-- The two differ in the order of their rules, in where they have empty rules, and in whether they
mark the start, at most. -/
structure Rearranges (a b : Arrangement) : Prop where
  greeting : a.greeting = b.greeting
  filled : a.filled.Perm b.filled

end Arrangement

namespace ScriptGrammar

/-! ### Rules that are kept -/

namespace RuleTree

theorem entries_of_key?_eq_none {tree : RuleTree} (h : tree.key? = none) :
    tree.entries = .ok [] := by
  cases tree with
  | empty => rfl
  | memory => cases h
  | keyword => cases h

theorem isSome_key?_of_mem {tree : RuleTree} {own : List (Word × Rule)}
    (h : tree.entries = .ok own) {entry : Word × Rule} (hmem : entry ∈ own) :
    tree.key?.isSome = true := by
  have hkey : entry.1 ∈ tree.key? :=
    Option.mem_toList.mp (keys_entries h ▸ List.mem_map_of_mem hmem)
  rw [Option.mem_def.mp hkey, Option.isSome_some]

theorem isSome_key? {tree : RuleTree} {rule : List Form} (h : tree.form = .list rule) :
    tree.key?.isSome = !rule.isEmpty := by
  cases tree <;> cases h <;> rfl

end RuleTree

namespace ScriptTree

def kept (tree : ScriptTree) : List RuleTree :=
  tree.rules.filter fun rule => rule.key?.isSome

theorem keys_eq_filterMap_kept (tree : ScriptTree) :
    tree.keys = tree.kept.filterMap RuleTree.key? := by
  rw [keys, kept, List.filterMap_filter]
  refine List.filterMap_congr fun rule _ => ?_
  cases rule.key? <;> rfl

theorem mem_entries_kept {tree : ScriptTree} {entries : List (Word × Rule)}
    (h : tree.entries = .ok entries) {entry : Word × Rule} :
    entry ∈ entries ↔ ∃ r ∈ tree.kept, ∃ own, r.entries = .ok own ∧ entry ∈ own := by
  rw [mem_entries h]
  constructor
  · rintro ⟨r, hr, own, hown, hmem⟩
    have hkey := RuleTree.isSome_key?_of_mem hown hmem
    exact ⟨r, List.mem_filter.mpr ⟨hr, hkey⟩, own, hown, hmem⟩
  · rintro ⟨r, hr, hown⟩
    exact ⟨r, List.mem_of_mem_filter hr, hown⟩

theorem exists_entries_of_perm {tree other : ScriptTree} (hkept : tree.kept.Perm other.kept)
    {entries : List (Word × Rule)} (h : tree.entries = .ok entries) :
    ∃ others, other.entries = .ok others := by
  have hrule : ∀ r ∈ other.rules, ∃ own, r.entries = .ok own := by
    intro r hr
    cases hkey : r.key? with
    | none => exact ⟨[], RuleTree.entries_of_key?_eq_none hkey⟩
    | some key =>
      have hmem : r ∈ other.kept := List.mem_filter.mpr ⟨hr, hkey ▸ rfl⟩
      exact exists_entries_of_mem h (List.mem_of_mem_filter (hkept.mem_iff.mpr hmem))
  obtain ⟨lists, hlists⟩ := exists_mapM_iff.mpr hrule
  exact ⟨_, entries_eq_ok.mpr ⟨lists, hlists, rfl⟩⟩

end ScriptTree

/-- A script does not depend on the order in which the rules are kept. -/
theorem Means.of_perm {tree other : ScriptTree} {s : Script} (h : Means tree s)
    (hgreeting : tree.greeting = other.greeting) (hkept : tree.kept.Perm other.kept) :
    Means other s := by
  obtain ⟨entries, hentries, hnodup, rfl, hcomplete⟩ := h
  obtain ⟨others, hothers⟩ := ScriptTree.exists_entries_of_perm hkept hentries
  have hkeys : (others.map (·.1)).Nodup := by
    rw [ScriptTree.keys_entries hothers, ScriptTree.keys_eq_filterMap_kept]
    rw [ScriptTree.keys_entries hentries, ScriptTree.keys_eq_filterMap_kept] at hnodup
    exact (hkept.filterMap _).nodup_iff.mp hnodup
  have hmem (entry : Word × Rule) : entry ∈ entries ↔ entry ∈ others := by
    rw [ScriptTree.mem_entries_kept hentries, ScriptTree.mem_entries_kept hothers]
    simp only [hkept.mem_iff]
  have hrules : WordMap.ofList entries = WordMap.ofList others := by
    refine WordMap.ext_get? fun key => Option.ext fun rule => ?_
    rw [WordMap.get?_ofList hnodup, WordMap.get?_ofList hkeys, hmem]
  exact ⟨others, hothers, hkeys, by rw [hgreeting, hrules], hcomplete⟩

/-! ### Derivations of arrangements -/

namespace ScriptTree

structure Derives (tree : ScriptTree) (a : Arrangement) : Prop where
  greeting : listForm tree.greeting = .list a.greeting
  start : tree.start = a.start
  rules : tree.rules.map RuleTree.form = a.rules.map .list

theorem derives_iff {tree : ScriptTree} {a : Arrangement} :
    tree.Derives a ↔ tree.forms = a.forms := by
  constructor
  · rintro ⟨hgreeting, hstart, hrules⟩
    rw [forms, Arrangement.forms, hgreeting, hstart, hrules]
  · intro h
    obtain ⟨hgreeting, hrow⟩ := List.cons.inj h
    obtain ⟨hstart, hrules⟩ := start_append_inj (forall_mem_rules_form tree.rules)
      (List.forall_mem_map.mpr fun rule _ => ⟨rule, rfl⟩) hrow
    exact ⟨hgreeting, hstart, hrules⟩

theorem Derives.tokens {tree : ScriptTree} {a : Arrangement} (h : tree.Derives a) :
    tree.tokens = a.tokens :=
  congrArg Form.tokensAll (derives_iff.mp h)

theorem exists_derives (tree : ScriptTree) : ∃ a : Arrangement, tree.Derives a := by
  obtain ⟨rules, hrules⟩ : tree.rules.map RuleTree.form ∈ Set.range (List.map Form.list) := by
    rw [Set.range_list_map]
    intro form hform
    obtain ⟨forms, hforms⟩ := forall_mem_rules_form tree.rules form hform
    exact ⟨forms, hforms.symm⟩
  exact ⟨⟨tree.greeting.map Member.form, tree.start, rules⟩, rfl, rfl, hrules.symm⟩

theorem Derives.kept {tree : ScriptTree} {a : Arrangement} (h : tree.Derives a) :
    tree.kept.map RuleTree.form = a.filled.map .list := by
  have hrules := h.rules
  rw [ScriptTree.kept, Arrangement.filled]
  generalize tree.rules = rules at hrules ⊢
  generalize a.rules = rows at hrules ⊢
  induction rules generalizing rows with
  | nil => simp_all
  | cons r rules ih =>
    cases rows with
    | nil => cases hrules
    | cons row rows =>
      obtain ⟨hform, hrest⟩ := List.cons.inj hrules
      rw [List.filter_cons, List.filter_cons, RuleTree.isSome_key? hform]
      cases row.isEmpty <;> simp [hform, ih rows hrest]

/-- A derivation of an arrangement gives one of every other arrangement of the same forms, with the
same rules but for empty ones. -/
theorem Derives.exists_of_rearranges {tree : ScriptTree} {a b : Arrangement} (h : tree.Derives a)
    (hab : a.Rearranges b) :
    ∃ other : ScriptTree, other.Derives b ∧ tree.greeting = other.greeting ∧
      tree.kept.Perm other.kept := by
  -- An empty rule has a tree of its own; any other is a rule of the first arrangement.
  have hderived : ∀ row ∈ b.rules, ∃ r : RuleTree, r.form = .list row := by
    intro row hrow
    cases hempty : row.isEmpty with
    | true => exact ⟨.empty, by rw [List.isEmpty_iff.mp hempty]; rfl⟩
    | false =>
      have hfilled : row ∈ a.filled :=
        hab.filled.mem_iff.mpr (List.mem_filter.mpr ⟨hrow, by rw [hempty]; rfl⟩)
      have hform := List.mem_map_of_mem (f := Form.list) hfilled
      rw [← h.kept] at hform
      obtain ⟨r, -, hr⟩ := List.mem_map.mp hform
      exact ⟨r, hr⟩
  obtain ⟨rules, hrules⟩ : b.rules.map .list ∈ Set.range (List.map RuleTree.form) := by
    rw [Set.range_list_map]
    exact List.forall_mem_map.mpr hderived
  have hother : Derives ⟨tree.greeting, b.start, rules⟩ b :=
    ⟨hab.greeting ▸ h.greeting, rfl, hrules⟩
  refine ⟨_, hother, rfl, (List.map_perm_map_iff RuleTree.form_injective).mp ?_⟩
  rw [h.kept, hother.kept]
  exact hab.filled.map Form.list

end ScriptTree

end ScriptGrammar

/-- Every text that is read as a script is a greeting, a mark of the start or none, and bracketed
rules, and any arrangement of these is read as a script that cannot be told from the first. -/
theorem Script.read_of_rearranges {text : List Char} {s : Script}
    (h : Script.read text = .ok s) :
    (∃ a : Arrangement, Lexemes.tokens text = a.tokens) ∧
      ∀ (a b : Arrangement) (arranged : List Char), Lexemes.tokens text = a.tokens →
        a.Rearranges b → Lexemes.tokens arranged = b.tokens →
          ∃ t, Script.read arranged = .ok t ∧ t.greeting = s.greeting ∧ t.rules = s.rules ∧
            t.tags = s.tags ∧ t.write = s.write := by
  obtain ⟨tree, htokens, hmeans⟩ := Script.read_eq_ok_iff.mp h
  constructor
  · obtain ⟨a, ha⟩ := tree.exists_derives
    exact ⟨a, htokens.trans ha.tokens⟩
  · intro a b arranged ha hab hb
    have hderives : tree.Derives a :=
      ScriptTree.derives_iff.mpr (Level.forms_eq_of_tokens_eq htokens ha)
    obtain ⟨other, hother, hgreeting, hkept⟩ := hderives.exists_of_rearranges hab
    have hread := Script.read_eq_ok_iff.mpr
      ⟨other, hb.trans hother.tokens.symm, hmeans.of_perm hgreeting hkept⟩
    exact ⟨s, hread, rfl, rfl, rfl, rfl⟩

theorem Script.read_of_rules_in_another_order :
    ∃ s, Script.read
        ("(HI) START (A DLIST(/T)) () (NONE ((0) (OH))) ".toList ++
          "(MEMORY A (0 = A) (0 = B) (0 = C) (0 = D))".toList) = .ok s ∧
      ∃ t, Script.read
          ("(HI) (MEMORY A (0 = A) (0 = B) (0 = C) (0 = D)) ".toList ++
            "() (NONE ((0) (OH))) () (A DLIST(/T))".toList) = .ok t ∧
        t.greeting = s.greeting ∧ t.rules = s.rules ∧ t.tags = s.tags ∧ t.write = s.write := by
  let tagged : List Form :=
    [.symbol ['A'], .symbol ScriptReader.tagsWord, .list [.symbol ['/', 'T']]]
  let none : List Form :=
    [.symbol noneKeyword, .list [.list [.number ['0']], .list [.symbol ['O', 'H']]]]
  let memory : List Form :=
    .symbol memoryKeyword :: .symbol ['A'] :: ['A', 'B', 'C', 'D'].map fun c =>
      .list [.number ['0'], .symbol ScriptReader.equalsWord, .symbol [c]]
  refine (Script.exists_read_of_isSome (by decide +kernel)).imp fun s hs => ⟨hs.1, ?_⟩
  exact (Script.read_of_rearranges hs.1).2
    ⟨[.symbol ['H', 'I']], true, [tagged, [], none, memory]⟩
    ⟨[.symbol ['H', 'I']], false, [memory, [], none, [], tagged]⟩
    _ (by decide +kernel) ⟨rfl, (List.reverse_perm _).symm⟩ (by decide +kernel)

end Colloquy
