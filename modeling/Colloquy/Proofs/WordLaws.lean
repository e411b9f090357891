import Mathlib.Data.List.TakeWhile
import Colloquy.BlankText
import Colloquy.CardCode

/-!
# Laws of words and texts

A text splits into words at every space, each word keeps the characters of the text, and there are no
more words than characters. So blanks at the ends of an input do not change its words, and the words of
an input are made of coded characters.
-/

namespace Colloquy

namespace Words

/-! ### Splitting -/

theorem flush_append (pending : List Char) (words more : List Word) :
    flush pending (words ++ more) = flush pending words ++ more := by
  unfold flush
  split <;> rfl

theorem splitFrom_append_space (pending x y : List Char) :
    splitFrom pending (x ++ ' ' :: y) = splitFrom pending x ++ split y := by
  induction x generalizing pending with
  | nil => exact flush_append pending [] (split y)
  | cons c x ih =>
    rw [List.cons_append, splitFrom, splitFrom]
    split
    · rw [ih, flush_append]
    · split
      · rw [ih, ← List.cons_append, flush_append]
      · exact ih (c :: pending)

/-- A space divides the words of a text. -/
theorem split_append_space (x y : List Char) : split (x ++ ' ' :: y) = split x ++ split y :=
  splitFrom_append_space [] x y

theorem split_of_spaces {text : List Char} (h : ∀ c ∈ text, c = ' ') : split text = [] := by
  induction text with
  | nil => rfl
  | cons c text ih =>
    obtain ⟨rfl, hrest⟩ := List.forall_mem_cons.mp h
    exact (split_append_space [] text).trans (ih hrest)

theorem split_spaces_append {spaces : List Char} (h : ∀ c ∈ spaces, c = ' ') (text : List Char) :
    split (spaces ++ text) = split text := by
  induction spaces with
  | nil => rfl
  | cons c spaces ih =>
    obtain ⟨rfl, hrest⟩ := List.forall_mem_cons.mp h
    exact (split_append_space [] (spaces ++ text)).trans (ih hrest)

theorem split_append_spaces {spaces : List Char} (h : ∀ c ∈ spaces, c = ' ') (text : List Char) :
    split (text ++ spaces) = split text := by
  cases spaces with
  | nil => rw [List.append_nil]
  | cons c spaces =>
    obtain ⟨rfl, hrest⟩ := List.forall_mem_cons.mp h
    rw [split_append_space, split_of_spaces hrest, List.append_nil]

theorem mem_flush {pending : List Char} {rest : List Word} {w : Word}
    (h : w ∈ flush pending rest) : w = pending.reverse ∨ w ∈ rest := by
  unfold flush at h
  split at h
  · exact .inr h
  · exact List.mem_cons.mp h

theorem mem_of_mem_splitFrom {pending text : List Char} {w : Word} {c : Char}
    (hw : w ∈ splitFrom pending text) (hc : c ∈ w) : c ∈ pending ∨ c ∈ text := by
  induction text generalizing pending with
  | nil =>
    rcases mem_flush hw with rfl | hw
    · exact .inl (List.mem_reverse.mp hc)
    · cases hw
  | cons d text ih =>
    -- A word that begins behind the character has all its characters there.
    have hbehind (hmem : w ∈ splitFrom [] text) : c ∈ pending ∨ c ∈ d :: text :=
      (ih hmem).elim (fun hnil => nomatch hnil) fun htext => .inr (List.mem_cons_of_mem _ htext)
    rw [splitFrom] at hw
    split at hw
    · rcases mem_flush hw with rfl | hw
      · exact .inl (List.mem_reverse.mp hc)
      · exact hbehind hw
    · split at hw
      · rcases mem_flush hw with rfl | hw
        · exact .inl (List.mem_reverse.mp hc)
        · rcases List.mem_cons.mp hw with rfl | hw
          · exact .inr (List.mem_singleton.mp hc ▸ List.mem_cons_self)
          · exact hbehind hw
      · rcases ih hw with hpending | htext
        · rcases List.mem_cons.mp hpending with rfl | hpending
          · exact .inr List.mem_cons_self
          · exact .inl hpending
        · exact .inr (List.mem_cons_of_mem _ htext)

theorem mem_of_mem_split {text : List Char} {w : Word} {c : Char} (hw : w ∈ split text)
    (hc : c ∈ w) : c ∈ text :=
  (mem_of_mem_splitFrom hw hc).elim (fun hnil => nomatch hnil) id

theorem length_flush_le (pending : List Char) (rest : List Word) :
    (flush pending rest).length ≤ pending.length + rest.length := by
  unfold flush
  split
  · omega
  · rename_i hpending
    have hpos : 0 < pending.length := List.length_pos_iff.mpr (by simpa using hpending)
    rw [List.length_cons]
    omega

theorem length_splitFrom_le (pending text : List Char) :
    (splitFrom pending text).length ≤ pending.length + text.length := by
  induction text generalizing pending with
  | nil => exact length_flush_le pending []
  | cons c text ih =>
    have hbehind := ih []
    rw [splitFrom]
    split
    · have hflush := length_flush_le pending (splitFrom [] text)
      simp only [List.length_cons, List.length_nil] at *
      omega
    · split
      · have hflush := length_flush_le pending ([c] :: splitFrom [] text)
        simp only [List.length_cons, List.length_nil] at *
        omega
      · have hmore := ih (c :: pending)
        simp only [List.length_cons] at *
        omega

theorem length_split_le (text : List Char) : (split text).length ≤ text.length := by
  have h := length_splitFrom_le [] text
  rw [List.length_nil, Nat.zero_add] at h
  exact h

theorem mem_intercalate {separator : List Char} {words : List Word} {c : Char}
    (h : c ∈ separator.intercalate words) : c ∈ separator ∨ ∃ w ∈ words, c ∈ w := by
  induction words with
  | nil => cases h
  | cons w words ih =>
    cases words with
    | nil => exact .inr ⟨w, List.mem_cons_self, by simpa using h⟩
    | cons next words =>
      rw [List.intercalate_cons_cons, List.mem_append, List.mem_append] at h
      rcases h with (h | h) | h
      · exact .inr ⟨w, List.mem_cons_self, h⟩
      · exact .inl h
      · exact (ih h).imp id fun ⟨v, hv, hc⟩ => ⟨v, List.mem_cons_of_mem _ hv, hc⟩

theorem mem_join {words : List Word} {c : Char} (h : c ∈ join words) :
    c = ' ' ∨ ∃ w ∈ words, c ∈ w := by
  rcases mem_intercalate h with hspace | ⟨w, hw, hc⟩
  · exact .inl (List.mem_singleton.mp hspace)
  · exact .inr ⟨w, (List.mem_filter.mp hw).1, hc⟩

end Words

/-! ### Blanks at the ends -/

namespace BlankText

/-- A text is its stripped form with blanks around it. -/
theorem exists_blanks (text : List Char) :
    ∃ before after, text = before ++ strip text ++ after ∧
      (∀ c ∈ before, isBlank c = true) ∧ ∀ c ∈ after, isBlank c = true := by
  let rest := text.dropWhile isBlank
  have hrest : (rest.reverse.dropWhile isBlank).reverse ++ (rest.reverse.takeWhile isBlank).reverse =
      rest := by
    rw [← List.reverse_append, List.takeWhile_append_dropWhile, List.reverse_reverse]
  refine ⟨text.takeWhile isBlank, (rest.reverse.takeWhile isBlank).reverse, ?_, ?_, ?_⟩
  · rw [List.append_assoc]
    exact List.takeWhile_append_dropWhile.symm.trans
      (congrArg (text.takeWhile isBlank ++ ·) hrest.symm)
  · exact fun c hc => List.mem_takeWhile_imp hc
  · exact fun c hc => List.mem_takeWhile_imp (List.mem_reverse.mp hc)

theorem strip_eq_nil_iff {text : List Char} :
    strip text = [] ↔ ∀ c ∈ text, isBlank c = true := by
  constructor
  · intro h
    obtain ⟨before, after, htext, hbefore, hafter⟩ := exists_blanks text
    rw [h, List.append_nil] at htext
    rw [htext]
    exact List.forall_mem_append.mpr ⟨hbefore, hafter⟩
  · intro h
    rw [strip, List.dropWhile_eq_nil_iff.mpr h]
    rfl

end BlankText

namespace CardCode

def reduced (c : Char) : Char :=
  reduceChar c.toUpper

theorem normalize_eq (text : List Char) : normalize text = Words.split (text.map reduced) := by
  rw [normalize, reduce, Words.upper, List.map_map]
  rfl

theorem isDefined_reduced (c : Char) : isDefined (reduced c) = true := by
  unfold reduced reduceChar
  split
  · decide
  · split
    · rename_i h
      exact h
    · decide

theorem toUpper_of_isBlank {c : Char} (h : BlankText.isBlank c = true) : c.toUpper = c := by
  unfold Char.toUpper
  split
  · rename_i hlower
    have hlow : 97 ≤ c.toNat := UInt32.le_iff_toNat_le.mp hlower.1
    have hhigh : c.toNat ≤ 122 := UInt32.le_iff_toNat_le.mp hlower.2
    simp only [BlankText.isBlank, Bool.or_eq_true, Bool.and_eq_true, decide_eq_true_eq,
      beq_iff_eq] at h
    omega
  · rfl

/-- The only coded character that is blank is the space. -/
theorem eq_space_of_isBlank {c : Char} (hblank : BlankText.isBlank c = true)
    (hdefined : isDefined c = true) : c = ' ' := by
  -- There are few slots, so the blanks are sought among them and not the slots among the blanks.
  have hblanks : slots.filter (fun slot => slot.any BlankText.isBlank) = [some ' '] := by decide
  have hmem : some c ∈ slots.filter fun slot => slot.any BlankText.isBlank :=
    List.mem_filter.mpr ⟨List.contains_iff_mem.mp hdefined, hblank⟩
  rw [hblanks] at hmem
  exact Option.some.inj (List.mem_singleton.mp hmem)

theorem reduced_of_isBlank {c : Char} (h : BlankText.isBlank c = true) : reduced c = ' ' := by
  rw [reduced, toUpper_of_isBlank h, reduceChar]
  split
  · rename_i hmark
    rcases Bool.or_eq_true_iff.mp hmark with hmark | hmark
    · rw [beq_iff_eq.mp hmark] at h
      exact absurd h (by decide)
    · rw [beq_iff_eq.mp hmark] at h
      exact absurd h (by decide)
  · split
    · rename_i hdefined
      exact eq_space_of_isBlank h hdefined
    · rfl

/-- The blanks at the ends of an input do not change its words. -/
theorem normalize_strip (text : List Char) : normalize (BlankText.strip text) = normalize text := by
  have hspaces {blanks : List Char} (h : ∀ c ∈ blanks, BlankText.isBlank c = true) :
      ∀ c ∈ blanks.map reduced, c = ' ' := by
    intro c hc
    obtain ⟨blank, hblank, rfl⟩ := List.mem_map.mp hc
    exact reduced_of_isBlank (h blank hblank)
  obtain ⟨before, after, htext, hbefore, hafter⟩ := BlankText.exists_blanks text
  rw [normalize_eq, normalize_eq text]
  have hmap : text.map reduced =
      before.map reduced ++ (BlankText.strip text).map reduced ++ after.map reduced := by
    rw [← List.map_append, ← List.map_append, ← htext]
  rw [hmap, Words.split_append_spaces (hspaces hafter), Words.split_spaces_append (hspaces hbefore)]

theorem isDefined_of_mem_normalize {text : List Char} {w : Word} {c : Char}
    (hw : w ∈ normalize text) (hc : c ∈ w) : isDefined c = true := by
  rw [normalize_eq] at hw
  obtain ⟨d, -, rfl⟩ := List.mem_map.mp (Words.mem_of_mem_split hw hc)
  exact isDefined_reduced d

theorem length_normalize_le (text : List Char) : (normalize text).length ≤ text.length := by
  rw [normalize_eq]
  have h := Words.length_split_le (text.map reduced)
  rw [List.length_map] at h
  exact h

end CardCode

end Colloquy
