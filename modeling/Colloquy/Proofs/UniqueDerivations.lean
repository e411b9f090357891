import Mathlib.Data.List.Basic
import Colloquy.Proofs.ScriptGrammar

/-!
# The grammar of scripts is unambiguous

Each form of a rule shows by its kind and its first member which part of the rule it begins, so a
row of forms is that of one tree at most. The tokens of a text are those of one row only, and with
it a text has one derivation at most.
-/

namespace Colloquy.ScriptGrammar

open ScriptReader

theorem Member.form_injective : Function.Injective form := by
  have hsymbols : Function.Injective (List.map Form.symbol) :=
    List.map_injective_iff.mpr fun _ _ h => Form.symbol.inj h
  intro m n h
  cases m with
  | symbol name => cases n <;> cases h; rfl
  | number digits => cases n <;> cases h; rfl
  | group names =>
    cases n with
    | symbol => cases h
    | number => cases h
    | group others => rw [hsymbols (Form.list.inj h)]

theorem Member.map_form_injective : Function.Injective (List.map form) :=
  List.map_injective_iff.mpr form_injective

theorem listForm_injective : Function.Injective listForm := fun _ _ h =>
  Member.map_form_injective (Form.list.inj h)

theorem Names.unique {ws : List Word} {target other : Word} (h : Names ws target)
    (hother : Names ws other) : target = other := by
  cases h <;> cases hother <;> rfl

theorem ReassemblyTree.form_injective : Function.Injective form := by
  have hplain : ∀ members : List Member, members.head? ≠ some (.symbol preWord) →
      ∀ rest, listForm members ≠ .list (.symbol preWord :: rest) := by
    intro members hpre rest h
    obtain ⟨m, more, rfl, hm, -⟩ := List.map_eq_cons_iff.mp (Form.list.inj h)
    exact hpre (congrArg some (Member.form_injective (hm : m.form = (Member.symbol preWord).form)))
  intro tree other h
  cases tree with
  | plain members hpre =>
    cases other with
    | plain others _ => cases listForm_injective h; rfl
    | pre => exact absurd h (hplain members hpre _)
  | pre terms reference target hnames =>
    cases other with
    | plain others hpre => exact absurd h.symm (hplain others hpre _)
    | pre others reference' target' hother =>
      obtain ⟨hterms, hreference⟩ : listForm terms = listForm others ∧
          listForm reference = listForm reference' := by
        simpa [form] using h
      cases listForm_injective hterms
      cases listForm_injective hreference
      cases hnames.unique hother
      rfl

theorem ReferenceTree.form_injective : Function.Injective form := by
  intro tree other h
  cases tree <;> cases other <;> cases h <;> rfl

private theorem append_cons_inj_of_not_mem {α : Type} {a : α} {front others back more : List α}
    (hfront : a ∉ front) (hothers : a ∉ others) (h : front ++ a :: back = others ++ a :: more) :
    front = others ∧ back = more := by
  induction front generalizing others with
  | nil =>
    cases others with
    | nil => exact ⟨rfl, (List.cons.inj h).2⟩
    | cons b others => exact absurd (List.cons.inj h).1 (List.ne_of_not_mem_cons hothers)
  | cons b front ih =>
    cases others with
    | nil => exact absurd (List.cons.inj h).1.symm (List.ne_of_not_mem_cons hfront)
    | cons c others =>
      obtain ⟨rfl, hrest⟩ := List.cons.inj h
      obtain ⟨rfl, hback⟩ := ih (List.not_mem_of_not_mem_cons hfront)
        (List.not_mem_of_not_mem_cons hothers) hrest
      exact ⟨rfl, hback⟩

theorem PairTree.form_injective : Function.Injective form := by
  intro ⟨pattern, template, hpattern, _⟩ ⟨others, template', hothers, _⟩ h
  have hmembers : pattern ++ .symbol equalsWord :: template =
      others ++ .symbol equalsWord :: template' := by
    refine Member.map_form_injective ?_
    simpa [Member.form] using Form.list.inj h
  -- Both patterns end at the first sign.
  obtain ⟨rfl, rfl⟩ := append_cons_inj_of_not_mem hpattern hothers hmembers
  rfl

namespace RuleItem

/-- Where an item ends can be told from the forms. -/
theorem forms_append_inj {item other : RuleItem} {rest more : List Form}
    (h : item.forms ++ rest = other.forms ++ more) : item = other ∧ rest = more := by
  have hsigns : equalsWord ≠ tagsWord := by decide
  have htrees : Function.Injective (List.map ReassemblyTree.form) :=
    List.map_injective_iff.mpr ReassemblyTree.form_injective
  cases item <;> cases other <;>
    simp_all [forms, listForm_injective.eq_iff, ReassemblyTree.form_injective.eq_iff,
      htrees.eq_iff]

theorem forms_append_ne_reference {item : RuleItem} {reference : ReferenceTree}
    {rest more : List Form} : item.forms ++ rest ≠ reference.form :: more := by
  cases item <;> cases reference <;> simp [forms, ReferenceTree.form, listForm]

/-- Items and the reference behind them can be told from their forms. -/
theorem row_inj {items others : List RuleItem} {reference other : Option ReferenceTree}
    (h : items.flatMap forms ++ reference.toList.map ReferenceTree.form =
      others.flatMap forms ++ other.toList.map ReferenceTree.form) :
    items = others ∧ reference = other := by
  induction items generalizing others with
  | nil =>
    cases others with
    | nil =>
      refine ⟨rfl, ?_⟩
      cases reference <;> cases other <;> simp_all [ReferenceTree.form_injective.eq_iff]
    | cons item others =>
      rw [List.flatMap_cons, List.append_assoc] at h
      cases reference with
      | none => cases item <;> simp [forms] at h
      | some r => exact absurd h.symm forms_append_ne_reference
  | cons item items ih =>
    rw [List.flatMap_cons, List.append_assoc] at h
    cases others with
    | nil =>
      cases other with
      | none => cases item <;> simp [forms] at h
      | some r => exact absurd h forms_append_ne_reference
    | cons _ others =>
      rw [List.flatMap_cons, List.append_assoc] at h
      obtain ⟨rfl, hrest⟩ := forms_append_inj h
      obtain ⟨rfl, hreference⟩ := ih hrest
      exact ⟨rfl, hreference⟩

end RuleItem

theorem RuleTree.form_injective : Function.Injective form := by
  have hpairs : Function.Injective (List.map PairTree.form) :=
    List.map_injective_iff.mpr PairTree.form_injective
  intro tree other h
  cases tree with
  | empty => cases other <;> cases h; rfl
  | memory name pairs four =>
    cases other with
    | empty => cases h
    | memory name' others four' =>
      obtain ⟨rfl, hrow⟩ : name = name' ∧ pairs.map PairTree.form = others.map PairTree.form := by
        simpa [form] using h
      cases hpairs hrow
      rfl
    | keyword name' items reference not_memory =>
      exact absurd (Form.symbol.inj (List.cons.inj (Form.list.inj h)).1).symm not_memory
  | keyword name items reference not_memory =>
    cases other with
    | empty => cases h
    | memory name' pairs four =>
      exact absurd (Form.symbol.inj (List.cons.inj (Form.list.inj h)).1) not_memory
    | keyword name' others reference' not_memory' =>
      obtain ⟨hname, hrow⟩ := List.cons.inj (Form.list.inj h)
      cases Form.symbol.inj hname
      obtain ⟨rfl, rfl⟩ := RuleItem.row_inj hrow
      rfl

/-- A row of lists shows whether the start is marked in front of it. -/
theorem start_append_inj {start start' : Bool} {row others : List Form}
    (hrow : ∀ form ∈ row, ∃ forms, form = .list forms)
    (hothers : ∀ form ∈ others, ∃ forms, form = .list forms)
    (h : (if start then [.symbol startWord] else []) ++ row =
      (if start' then [.symbol startWord] else []) ++ others) :
    start = start' ∧ row = others := by
  have hmark {row others : List Form} (hrow : ∀ form ∈ row, ∃ forms, form = .list forms) :
      row ≠ [.symbol startWord] ++ others := by
    rintro rfl
    obtain ⟨forms, hforms⟩ := hrow _ List.mem_cons_self
    cases hforms
  cases start <;> cases start'
  · exact ⟨rfl, h⟩
  · exact absurd h (hmark hrow)
  · exact absurd h.symm (hmark hothers)
  · exact ⟨rfl, List.append_cancel_left h⟩

namespace ScriptTree

theorem forall_mem_rules_form (rules : List RuleTree) :
    ∀ form ∈ rules.map RuleTree.form, ∃ forms, form = .list forms :=
  List.forall_mem_map.mpr fun tree _ => tree.exists_form_eq_list

theorem forms_injective : Function.Injective forms := by
  intro ⟨greeting, start, rules⟩ ⟨greeting', start', others⟩ h
  have hrules : Function.Injective (List.map RuleTree.form) :=
    List.map_injective_iff.mpr RuleTree.form_injective
  obtain ⟨hgreeting, hrow⟩ := List.cons.inj h
  obtain ⟨rfl, hforms⟩ :=
    start_append_inj (forall_mem_rules_form rules) (forall_mem_rules_form others) hrow
  cases listForm_injective hgreeting
  cases hrules hforms
  rfl

theorem eq_of_tokens_eq {text : List Char} {tree other : ScriptTree}
    (h : Lexemes.tokens text = tree.tokens) (hother : Lexemes.tokens text = other.tokens) :
    tree = other :=
  forms_injective (Level.forms_eq_of_tokens_eq h hother)

end ScriptTree

end Colloquy.ScriptGrammar
