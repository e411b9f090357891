import Colloquy.Decomposition

/-!
# Laws of numerals

A number that is written and read again is the same, and its numeral is not longer than any that
stands for it. Terms can be read as the elements of a pattern exactly when no numeral among them is
too long.
-/

namespace Colloquy

namespace Numerals

theorem value_eq_ofDigitChars (digits : List Char) : value digits = Nat.ofDigitChars 10 digits 0 :=
  Nat.ofDigitChars_eq_foldl.symm

theorem value_write (n : Nat) : value (write n) = n := by
  rw [value_eq_ofDigitChars]
  exact Nat.ofDigitChars_ten_toDigits

theorem isDigit_of_mem_write {n : Nat} : ∀ c ∈ write n, c.isDigit = true := by
  intro c hc
  exact Nat.isDigit_of_mem_toDigits (by omega) (by omega) hc

theorem write_ne_nil (n : Nat) : write n ≠ [] :=
  Nat.toDigits_ne_nil

/-- A list of digits stands for a number below the power of ten of its length. -/
theorem value_lt {digits : List Char} (h : ∀ c ∈ digits, c.isDigit = true) :
    value digits < Nat.pow 10 digits.length := by
  rw [value_eq_ofDigitChars]
  induction digits with
  | nil => simp
  | cons c digits ih =>
    obtain ⟨hc, hdigits⟩ := List.forall_mem_cons.mp h
    have hrest := ih hdigits
    have hbound : c.toNat - '0'.toNat ≤ 9 := by
      simp only [Char.isDigit, Bool.and_eq_true, decide_eq_true_eq] at hc
      have hc : c.val.toNat ≤ 57 := hc.2
      have hzero : '0'.toNat = 48 := rfl
      have hcode : c.toNat = c.val.toNat := rfl
      omega
    have hlead : Nat.pow 10 digits.length * (c.toNat - '0'.toNat) ≤ Nat.pow 10 digits.length * 9 :=
      Nat.mul_le_mul_left _ hbound
    have hpower : Nat.pow 10 (digits.length + 1) = Nat.pow 10 digits.length * 10 := rfl
    rw [Nat.ofDigitChars_cons, Nat.ofDigitChars_eq_ofDigitChars_zero, Nat.mul_zero, Nat.zero_add,
      List.length_cons, hpower]
    change Nat.pow 10 digits.length * _ + _ < _
    omega

theorem length_write_le_iff {n length : Nat} (hlength : 0 < length) :
    (write n).length ≤ length ↔ n < Nat.pow 10 length :=
  Nat.length_toDigits_le_iff (by omega) hlength

theorem writable_iff {n : Int} : Writable n ↔ n.natAbs < Nat.pow 10 digitLimit :=
  length_write_le_iff (by decide)

/-- The numeral that is written for a number is not longer than one that has been read. -/
theorem length_write_value_le {digits : List Char} (hne : digits ≠ [])
    (h : ∀ c ∈ digits, c.isDigit = true) : (write (value digits)).length ≤ digits.length := by
  have hlength : 0 < digits.length := List.length_pos_iff.mpr hne
  exact (length_write_le_iff hlength).mpr (value_lt h)

theorem valueWithin_eq_ok {digits : List Char} {n : Nat} :
    valueWithin digits = .ok n ↔ digits.length ≤ digitLimit ∧ value digits = n := by
  by_cases hlength : digits.length ≤ digitLimit <;> simp [valueWithin, hlength]

theorem exists_valueWithin_iff {digits : List Char} :
    (∃ n, valueWithin digits = .ok n) ↔ digits.length ≤ digitLimit := by
  simp [valueWithin_eq_ok]

theorem read_of_isNumeral {term : Word} (hnumeral : isNumeral term = true)
    (hlength : term.length ≤ digitLimit) : read term = .ok (some (value term)) := by
  have hvalue : valueWithin term = .ok (value term) := valueWithin_eq_ok.mpr ⟨hlength, rfl⟩
  rw [read, if_pos hnumeral, hvalue]
  rfl

end Numerals

open Numerals

def ShortNumerals (terms : List Word) : Prop :=
  ∀ term ∈ terms, isNumeral term = true → term.length ≤ digitLimit

instance (terms : List Word) : Decidable (ShortNumerals terms) :=
  inferInstanceAs (Decidable
    (∀ term ∈ terms, isNumeral term = true → term.length ≤ digitLimit))

theorem exists_ofTerm_iff {term : Word} :
    (∃ element, Element.ofTerm term = .ok element) ↔
      (isNumeral term = true → term.length ≤ digitLimit) := by
  unfold Element.ofTerm Numerals.read valueWithin
  by_cases hnumeral : isNumeral term = true
  · by_cases hlength : term.length ≤ digitLimit <;> simp [hnumeral, hlength, Except.map]
  · simp [hnumeral]

theorem exists_ofTerms_iff {terms : List Word} :
    (∃ elements, Element.ofTerms terms = .ok elements) ↔ ShortNumerals terms := by
  induction terms with
  | nil => simp [Element.ofTerms, ShortNumerals]
  | cons term terms ih =>
    rw [ShortNumerals, List.forall_mem_cons, ← ShortNumerals, ← ih, ← exists_ofTerm_iff,
      Element.ofTerms]
    cases Element.ofTerm term with
    | error e => simp
    | ok element => cases Element.ofTerms terms <;> simp [Except.map]

theorem length_ofTerms {terms : List Word} {elements : List Element}
    (h : Element.ofTerms terms = .ok elements) : elements.length = terms.length := by
  induction terms generalizing elements with
  | nil =>
    cases h
    rfl
  | cons term terms ih =>
    rw [Element.ofTerms] at h
    split at h
    · cases h
    · cases hterms : Element.ofTerms terms with
      | error numeral =>
        rw [hterms] at h
        cases h
      | ok others =>
        rw [hterms] at h
        cases h
        rw [List.length_cons, List.length_cons, ih hterms]

theorem exists_decomposition_iff {terms : List Word} :
    (∃ d, Decomposition.ofTerms terms = .ok d) ↔ ShortNumerals terms := by
  rw [← exists_ofTerms_iff]
  unfold Decomposition.ofTerms
  split
  · rename_i e h
    simp [h]
  · rename_i elements h
    exact iff_of_true ⟨_, rfl⟩ ⟨elements, h⟩

theorem terms_of_ofTerms {terms : List Word} {d : Decomposition}
    (h : Decomposition.ofTerms terms = .ok d) : d.terms = terms := by
  unfold Decomposition.ofTerms at h
  split at h
  · cases h
  · cases h
    rfl

theorem ofTerms_terms (d : Decomposition) : Decomposition.ofTerms d.terms = .ok d := by
  obtain ⟨e, he⟩ := exists_decomposition_iff.mpr (exists_ofTerms_iff.mp ⟨_, d.elements_eq⟩)
  rw [he, Decomposition.eq_of_terms_eq (terms_of_ofTerms he)]

theorem decomposition_eq_ok {terms : List Word} {d : Decomposition} :
    Decomposition.ofTerms terms = .ok d ↔ terms = d.terms := by
  constructor
  · intro h
    exact (terms_of_ofTerms h).symm
  · rintro rfl
    exact ofTerms_terms d

end Colloquy
