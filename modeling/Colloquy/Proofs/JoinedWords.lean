import Colloquy.Proofs.WordLaws

/-!
# Joined words

The words of a text are plain: none is empty or holds a space, and a punctuation mark stands alone. Plain
words that are joined to a text are the words of that text.
-/

namespace Colloquy

namespace Words

/-- The word can be one of a text: it is not empty, it holds no space, and it is a punctuation mark or
holds none. -/
structure Plain (w : Word) : Prop where
  ne_nil : w ≠ []
  space_notMem : ' ' ∉ w
  unpunctuated : isMark w = true ∨ ∀ c ∈ w, isPunctuation c = false

/-- The characters stand within a word that is no mark. -/
def Inner (letters : List Char) : Prop :=
  ∀ c ∈ letters, c ≠ ' ' ∧ isPunctuation c = false

theorem inner_nil : Inner [] :=
  fun _ h => nomatch h

/-! ### The words of a text -/

theorem isMark_singleton {c : Char} (h : isPunctuation c = true) : isMark [c] = true := by
  rcases Bool.or_eq_true_iff.mp h with hcomma | hperiod
  · rw [beq_iff_eq.mp hcomma]
    rfl
  · rw [beq_iff_eq.mp hperiod]
    rfl

theorem plain_singleton {c : Char} (h : isPunctuation c = true) : Plain [c] where
  ne_nil := List.cons_ne_nil _ _
  space_notMem hmem := by
    rw [← List.mem_singleton.mp hmem] at h
    exact absurd h (by decide)
  unpunctuated := .inl (isMark_singleton h)

theorem plain_of_inner {w : Word} (hne : w ≠ []) (h : Inner w) : Plain w where
  ne_nil := hne
  space_notMem hmem := (h ' ' hmem).1 rfl
  unpunctuated := .inr fun c hc => (h c hc).2

theorem plain_of_mem_flush {pending : List Char} {rest : List Word} (hpending : Inner pending)
    (hrest : ∀ w ∈ rest, Plain w) : ∀ w ∈ flush pending rest, Plain w := by
  unfold flush
  split
  · exact hrest
  · rename_i hne
    have hne : pending.reverse ≠ [] := by simpa using hne
    refine List.forall_mem_cons.mpr ⟨plain_of_inner hne fun c hc => ?_, hrest⟩
    exact hpending c (List.mem_reverse.mp hc)

theorem plain_of_mem_splitFrom {pending : List Char} (hpending : Inner pending) (text : List Char) :
    ∀ w ∈ splitFrom pending text, Plain w := by
  induction text generalizing pending with
  | nil => exact plain_of_mem_flush hpending nofun
  | cons c text ih =>
    have hbehind : ∀ w ∈ splitFrom [] text, Plain w := ih inner_nil
    rw [splitFrom]
    split
    · exact plain_of_mem_flush hpending hbehind
    · rename_i hspace
      split
      · rename_i hmark
        exact plain_of_mem_flush hpending
          (List.forall_mem_cons.mpr ⟨plain_singleton hmark, hbehind⟩)
      · rename_i hmark
        refine ih (List.forall_mem_cons.mpr ⟨⟨by simpa using hspace, by simpa using hmark⟩, hpending⟩)

theorem plain_of_mem_split {text : List Char} {w : Word} (h : w ∈ split text) : Plain w :=
  plain_of_mem_splitFrom inner_nil text w h

/-! ### Splitting joined words -/

theorem splitFrom_of_inner {letters : List Char} (h : Inner letters) (pending : List Char) :
    splitFrom pending letters = flush (letters.reverse ++ pending) [] := by
  induction letters generalizing pending with
  | nil => rfl
  | cons c letters ih =>
    obtain ⟨⟨hspace, hmark⟩, hletters⟩ := List.forall_mem_cons.mp h
    have hspace : (c == ' ') = false := beq_eq_false_iff_ne.mpr hspace
    rw [splitFrom, hspace, hmark]
    simp [ih hletters]

theorem split_of_plain {w : Word} (h : Plain w) : split w = [w] := by
  obtain ⟨hne, hspace, hmark | hmarks⟩ := h
  · rcases Bool.or_eq_true_iff.mp hmark with hcomma | hperiod
    · rw [beq_iff_eq.mp hcomma]
      rfl
    · rw [beq_iff_eq.mp hperiod]
      rfl
  · have hinner : Inner w := fun c hc => ⟨fun hc' => hspace (hc' ▸ hc), hmarks c hc⟩
    rw [split, splitFrom_of_inner hinner]
    simp [flush, hne]

theorem join_singleton (w : Word) : join [w] = w := by
  cases w <;> simp [join, List.intercalate_singleton]

theorem join_eq_intercalate {words : List Word} (h : ∀ w ∈ words, w ≠ []) :
    join words = [' '].intercalate words := by
  have hall : words.filter (fun w => !w.isEmpty) = words := by
    refine List.filter_eq_self.mpr fun w hw => ?_
    simpa using h w hw
  rw [join, hall]

theorem split_intercalate {words : List Word} (h : ∀ w ∈ words, Plain w) :
    split ([' '].intercalate words) = words := by
  induction words with
  | nil => rfl
  | cons w words ih =>
    obtain ⟨hw, hwords⟩ := List.forall_mem_cons.mp h
    cases words with
    | nil => rw [List.intercalate_singleton, split_of_plain hw]
    | cons v words =>
      rw [List.intercalate_cons_cons, List.append_assoc, List.singleton_append, split_append_space,
        split_of_plain hw, ih hwords]
      rfl

theorem split_join {words : List Word} (h : ∀ w ∈ words, Plain w) : split (join words) = words := by
  rw [join_eq_intercalate fun w hw => (h w hw).ne_nil, split_intercalate h]

end Words

theorem CardCode.plain_of_mem_normalize {text : List Char} {w : Word} (h : w ∈ normalize text) :
    Words.Plain w :=
  Words.plain_of_mem_split (normalize_eq text ▸ h)

end Colloquy
