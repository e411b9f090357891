import Colloquy.Proofs.JoinedWords
import Colloquy.Proofs.LeastCuts
import Colloquy.Proofs.RegularScripts

/-!
# Templates filled with spans

A pattern hands the spans of a sentence on as texts, and a template that counts to one of them takes its words
out again. Nothing is lost on the way: if the words of the sentence are plain, the template is filled
with the very spans into which the sentence has been cut.
-/

namespace Colloquy

open Numerals

/-- The words that a term of a template stands for when a sentence has been cut: the span that a numeral
counts to, the mark of a missing part if it counts to none, and any other term itself. -/
def spanWords (cut : List (List Word)) (term : Word) : List Word :=
  if isNumeral term then
    if h : 1 ≤ value term ∧ value term ≤ cut.length then cut[value term - 1] else [missingPart]
  else [term]

/-- The template that counts to each of so many parts in turn. -/
def countingTemplate (count : Nat) : List Word :=
  (List.range count).map fun place => write (place + 1)

variable {cut : List (List Word)}

/-! ### Filling a template -/

theorem partWords_joined (h : ∀ span ∈ cut, ∀ w ∈ span, Words.Plain w) (n : Nat) :
    partWords (cut.map Words.join) n =
      if hn : 1 ≤ n ∧ n ≤ cut.length then cut[n - 1] else [missingPart] := by
  cases n with
  | zero => rfl
  | succ n =>
    rw [partWords, List.getElem?_map]
    by_cases hn : n < cut.length
    · have hplain : ∀ w ∈ cut[n], Words.Plain w := h cut[n] (List.getElem_mem hn)
      rw [List.getElem?_eq_getElem hn]
      simp [Nat.succ_le_iff.mpr hn, Words.split_join hplain]
    · rw [List.getElem?_eq_none (Nat.le_of_not_lt hn), dif_neg fun hle => hn hle.2]
      rfl

theorem expandTerm_joined (h : ∀ span ∈ cut, ∀ w ∈ span, Words.Plain w) {term : Word}
    (hterm : isNumeral term = true → term.length ≤ digitLimit) :
    expandTerm (cut.map Words.join) term = .ok (spanWords cut term) := by
  by_cases hnumeral : isNumeral term = true
  · rw [expandTerm, read_of_isNumeral hnumeral (hterm hnumeral), spanWords, if_pos hnumeral]
    exact congrArg Except.ok (partWords_joined h (value term))
  · rw [expandTerm, Numerals.read, if_neg hnumeral, spanWords, if_neg hnumeral]

theorem reassemble_joined (h : ∀ span ∈ cut, ∀ w ∈ span, Words.Plain w) {template : List Word}
    (hshort : ShortNumerals template) :
    reassemble (cut.map Words.join) template = .ok (template.flatMap (spanWords cut)) := by
  induction template with
  | nil => rfl
  | cons term template ih =>
    obtain ⟨hterm, htemplate⟩ := List.forall_mem_cons.mp hshort
    rw [reassemble, expandTerm_joined h hterm]
    simp only [ih htemplate]
    rfl

/-! ### Templates that count to parts that there are -/

theorem spanWords_write {place : Nat} (h : place < cut.length) :
    spanWords cut (write (place + 1)) = cut[place] := by
  have hnumeral : isNumeral (write (place + 1)) = true :=
    List.all_eq_true.mpr isDigit_of_mem_write
  rw [spanWords, if_pos hnumeral]
  simp only [value_write]
  rw [dif_pos ⟨Nat.succ_pos place, h⟩]
  rfl

/-- A template that counts to all parts in turn stands for the whole sentence. -/
theorem flatMap_countingTemplate :
    (countingTemplate cut.length).flatMap (spanWords cut) = cut.flatten := by
  have hspans : (countingTemplate cut.length).map (spanWords cut) = cut := by
    refine List.ext_getElem (by simp [countingTemplate]) fun place hplace hcut => ?_
    simp only [countingTemplate, List.getElem_map, List.getElem_range]
    exact spanWords_write hcut
  rw [List.flatMap_def, hspans]

/-- A term that counts to no missing part stands for itself or for words of the sentence. -/
theorem mem_of_mem_spanWords {term w : Word}
    (hterm : isNumeral term = true → value term ≠ 0 ∧ value term ≤ cut.length)
    (h : w ∈ spanWords cut term) : w ∈ cut.flatten ∨ w = term ∧ isNumeral term = false := by
  unfold spanWords at h
  split at h
  · rename_i hnumeral
    obtain ⟨hne, hle⟩ := hterm hnumeral
    rw [dif_pos ⟨Nat.one_le_iff_ne_zero.mpr hne, hle⟩] at h
    exact .inl (List.mem_flatten.mpr ⟨_, List.getElem_mem _, h⟩)
  · rename_i hnumeral
    exact .inr ⟨List.mem_singleton.mp h, by simpa using hnumeral⟩

/-- The reply of such a template holds its own words and those of the sentence, and no other. -/
theorem mem_of_mem_flatMap_spanWords {template : List Word} (hshort : ShortNumerals template)
    (hwithin : WithinParts cut.length template) {w : Word}
    (h : w ∈ template.flatMap (spanWords cut)) :
    w ∈ cut.flatten ∨ w ∈ template ∧ isNumeral w = false := by
  obtain ⟨term, hmem, hw⟩ := List.mem_flatMap.mp h
  have hterm (hnumeral : isNumeral term = true) : value term ≠ 0 ∧ value term ≤ cut.length :=
    hwithin term hmem (value term) (read_of_isNumeral hnumeral (hshort term hmem hnumeral))
  rcases mem_of_mem_spanWords hterm hw with hsentence | ⟨rfl, hnumeral⟩
  · exact .inl hsentence
  · exact .inr ⟨hmem, hnumeral⟩

/-! ### The templates of a pattern -/

/-- A pattern that matches a sentence of plain words has cut it into one span for each term, and a template is
filled with those spans: a numeral stands for the span that it counts to or for the mark of a missing
part, any other term for itself. So counting to all spans in turn gives the sentence back, and where no
numeral counts beyond the pattern nothing is said but words of the template and of the sentence. -/
theorem templates_filled_with_spans {d : Decomposition} {tags : Tags} {words parts : List Word}
    (hwords : ∀ w ∈ words, Words.Plain w) (h : d.apply tags words = some parts) :
    ∃ cut, LeastCut tags d.elements words cut ∧ cut.length = d.terms.length ∧
      (∀ template, ShortNumerals template →
        reassemble parts template = .ok (template.flatMap (spanWords cut))) ∧
      (ShortNumerals (countingTemplate d.terms.length) →
        reassemble parts (countingTemplate d.terms.length) = .ok words) ∧
      ∀ template, ShortNumerals template → WithinParts d.terms.length template →
        ∃ reply, reassemble parts template = .ok reply ∧
          ∀ w ∈ reply, w ∈ words ∨ w ∈ template ∧ isNumeral w = false := by
  obtain ⟨cut, hspans, rfl⟩ := Option.map_eq_some_iff.mp h
  have hleast := spans_eq_some_iff.mp hspans
  have hlength : cut.length = d.terms.length :=
    hleast.takes.length_eq.symm.trans (length_ofTerms d.elements_eq)
  have hplain : ∀ span ∈ cut, ∀ w ∈ span, Words.Plain w := by
    intro span hspan w hw
    exact hwords w (hleast.flatten ▸ List.mem_flatten.mpr ⟨span, hspan, hw⟩)
  refine ⟨cut, hleast, hlength, fun template => reassemble_joined hplain, fun hshort => ?_,
    fun template hshort hwithin => ⟨_, reassemble_joined hplain hshort, fun w hw => ?_⟩⟩
  · rw [reassemble_joined hplain hshort, ← hlength, flatMap_countingTemplate, hleast.flatten]
  · rw [← hleast.flatten]
    exact mem_of_mem_flatMap_spanWords hshort (hlength ▸ hwithin) hw

def aroundYour : Decomposition :=
  ⟨[['0'], "YOUR".toList, ['0']], [.wildcard 0, .literal "YOUR".toList, .wildcard 0], rfl⟩

theorem spans_around_your :
    let words := CardCode.normalize "Well, is your cat your dog?".toList
    let parts := ["WELL , IS".toList, "YOUR".toList, "CAT YOUR DOG .".toList]
    let template := ["WHY".toList, ['3'], ['9']]
    (∀ w ∈ words, Words.Plain w) ∧ aroundYour.apply WordMap.empty words = some parts ∧
      ShortNumerals template ∧ ∃ cut, LeastCut WordMap.empty aroundYour.elements words cut ∧
        reassemble parts template = .ok (template.flatMap (spanWords cut)) ∧
        reassemble parts (countingTemplate 3) = .ok words := by
  intro words parts template
  have hwords : ∀ w ∈ words, Words.Plain w := fun w hw => CardCode.plain_of_mem_normalize hw
  have hparts : aroundYour.apply WordMap.empty words = some parts := by decide +kernel
  have hshort : ShortNumerals template := by decide +kernel
  obtain ⟨cut, hleast, -, hfilled, hcounted, -⟩ := templates_filled_with_spans hwords hparts
  exact ⟨hwords, hparts, hshort, cut, hleast, hfilled template hshort, hcounted (by decide +kernel)⟩

end Colloquy
