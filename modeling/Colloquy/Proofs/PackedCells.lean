import Mathlib.Algebra.Ring.Nat
import Colloquy.CardCode

/-!
# Packed cells

A word is packed by its last cell alone. Packing fails just when the cell holds a character without
a code, and it tells apart any two cells that are not filled up to the same six characters.
-/

namespace Colloquy.CardCode

/-! ### Codes -/

theorem isSome_code? (c : Char) : (code? c).isSome = isDefined c := by
  rw [Bool.eq_iff_iff, code?, List.isSome_idxOf?]
  exact List.contains_iff_mem.symm

theorem slots_of_code? {c : Char} {code : Nat} (h : code? c = some code) :
    slots[code]? = some (some c) := by
  obtain ⟨hlt, hslot, -⟩ := List.idxOf?_eq_some_iff.mp h
  rw [List.getElem?_eq_getElem hlt, hslot]

theorem code?_lt {c : Char} {code : Nat} (h : code? c = some code) : code < codeCount := by
  obtain ⟨hlt, -⟩ := List.getElem?_eq_some_iff.mp (slots_of_code? h)
  exact hlt

theorem code?_inj {c d : Char} {code : Nat} (hc : code? c = some code) (hd : code? d = some code) :
    c = d := by
  have hslots : some (some c) = some (some d) := (slots_of_code? hc).symm.trans (slots_of_code? hd)
  simpa using hslots

/-! ### Appending codes to a datum -/

theorem packOnto_cons_eq_ok {datum packed : Nat} {c : Char} {cs : List Char} :
    packOnto datum (c :: cs) = .ok packed ↔
      ∃ code, code? c = some code ∧ packOnto (datum * codeCount + code) cs = .ok packed := by
  rw [packOnto]
  cases code? c <;> simp

/-- Packing stops at the first character that has no code. -/
theorem packOnto_eq_error_iff {datum : Nat} {cs : List Char} {c : Char} :
    packOnto datum cs = .error c ↔ cs.find? (fun d => !isDefined d) = some c := by
  induction cs generalizing datum with
  | nil => simp [packOnto]
  | cons d cs ih =>
    rw [packOnto, List.find?_cons, ← isSome_code?]
    cases code? d with
    | none => simp
    | some code => simpa using ih

/-- Every character makes room for one code behind what has been packed before. -/
theorem packOnto_lt {datum packed : Nat} {cs : List Char} (h : packOnto datum cs = .ok packed) :
    packed < (datum + 1) * codeCount ^ cs.length := by
  induction cs generalizing datum with
  | nil =>
    cases h
    simp
  | cons c cs ih =>
    obtain ⟨code, hcode, hrest⟩ := packOnto_cons_eq_ok.mp h
    have hlt : code < codeCount := code?_lt hcode
    have hroom : datum * codeCount + code + 1 ≤ (datum + 1) * codeCount := by
      rw [Nat.add_mul]
      omega
    calc packed
        < (datum * codeCount + code + 1) * codeCount ^ cs.length := ih hrest
      _ ≤ (datum + 1) * codeCount * codeCount ^ cs.length := Nat.mul_le_mul_right _ hroom
      _ = (datum + 1) * codeCount ^ (cs.length + 1) := by
          rw [Nat.mul_assoc, Nat.pow_succ, Nat.mul_comm codeCount]

/-- As many characters packed to the same number are the same, behind the same datum. -/
theorem packOnto_inj {a b packed : Nat} {cs ds : List Char} (hc : packOnto a cs = .ok packed)
    (hd : packOnto b ds = .ok packed) (hlength : cs.length = ds.length) : a = b ∧ cs = ds := by
  induction cs generalizing a b ds with
  | nil =>
    obtain rfl := List.length_eq_zero_iff.mp hlength.symm
    cases hc
    cases hd
    exact ⟨rfl, rfl⟩
  | cons c cs ih =>
    cases ds with
    | nil => cases hlength
    | cons d ds =>
      obtain ⟨n, hn, hcs⟩ := packOnto_cons_eq_ok.mp hc
      obtain ⟨m, hm, hds⟩ := packOnto_cons_eq_ok.mp hd
      obtain ⟨hsum, hrest⟩ := ih hcs hds (by simpa using hlength)
      -- Codes are below 64, so the code and the datum before it can be read off from their sum.
      have hnlt : n < 64 := code?_lt hn
      have hmlt : m < 64 := code?_lt hm
      unfold codeCount at hsum
      have hcodes : n = m := by omega
      have hchars : c = d := code?_inj hn (hcodes ▸ hm)
      exact ⟨by omega, by rw [hchars, hrest]⟩

/-! ### Last cells -/

theorem length_lastCell_le (w : Word) : (lastCell w).length ≤ cellSize := by
  rw [lastCell, List.length_drop]
  unfold cellSize
  omega

theorem length_padCell {cell : Word} (h : cell.length ≤ cellSize) :
    (padCell cell).length = cellSize := by
  rw [padCell, List.length_append, List.length_replicate]
  omega

theorem lastCell_append {front w : Word} (hfront : cellSize ∣ front.length) (hw : w ≠ []) :
    lastCell (front ++ w) = lastCell w := by
  obtain ⟨cells, hcells⟩ := hfront
  have hpos : 0 < w.length := List.length_pos_iff.mpr hw
  have hoffset : ((front ++ w).length - 1) / cellSize * cellSize =
      front.length + (w.length - 1) / cellSize * cellSize := by
    rw [List.length_append, hcells]
    unfold cellSize
    omega
  rw [lastCell, lastCell, hoffset, List.drop_append]
  simp

/-- The spaces that fill a cell up have a code. -/
theorem find?_padCell (cell : Word) :
    (padCell cell).find? (fun c => !isDefined c) = cell.find? (fun c => !isDefined c) := by
  have hspaces :
      (List.replicate (cellSize - cell.length) ' ').find? (fun c => !isDefined c) = none := by
    rw [List.find?_eq_none]
    intro c hc
    rw [List.eq_of_mem_replicate hc]
    decide
  rw [padCell, List.find?_append, hspaces, Option.or_none]

/-- Packing a word fails with the first character of its last cell that has no code. -/
theorem pack_eq_error_iff {w : Word} {c : Char} :
    pack w = .error c ↔ (lastCell w).find? (fun d => !isDefined d) = some c := by
  rw [pack, packOnto_eq_error_iff, find?_padCell]

theorem exists_pack_eq_error_iff {w : Word} :
    (∃ c, pack w = .error c) ↔ ∃ c ∈ lastCell w, isDefined c = false := by
  simp only [pack_eq_error_iff]
  rw [← Option.isSome_iff_exists, List.find?_isSome]
  simp

theorem pack_lt {w : Word} {datum : Nat} (h : pack w = .ok datum) : datum < 2 ^ datumBits := by
  have hlt := packOnto_lt h
  rw [length_padCell (length_lastCell_le w)] at hlt
  simpa [codeCount, cellSize, datumBits, charBits] using hlt

theorem pack_inj {w v : Word} {datum : Nat} (hw : pack w = .ok datum) (hv : pack v = .ok datum) :
    padCell (lastCell w) = padCell (lastCell v) := by
  have hlength : (padCell (lastCell w)).length = (padCell (lastCell v)).length := by
    rw [length_padCell (length_lastCell_le w), length_padCell (length_lastCell_le v)]
  exact (packOnto_inj hw hv hlength).2

theorem pack_append {front w : Word} (hfront : cellSize ∣ front.length) (hw : w ≠ []) :
    pack (front ++ w) = pack w := by
  rw [pack, pack, lastCell_append hfront hw]

/-- Packing a word fails just when its last cell holds a character without a code. Otherwise the
datum fits into 36 bits, and words have the same datum just when their last cells are the same once
they are filled up with spaces. -/
theorem pack_tells_last_cells (w : Word) :
    ((∃ c, pack w = .error c) ↔ ∃ c ∈ lastCell w, isDefined c = false) ∧
      ∀ datum, pack w = .ok datum → datum < 2 ^ 36 ∧
        ∀ v other, pack v = .ok other →
          (datum = other ↔ padCell (lastCell w) = padCell (lastCell v)) := by
  refine ⟨exists_pack_eq_error_iff, fun datum hw => ⟨pack_lt hw, fun v other hv => ⟨?_, ?_⟩⟩⟩
  · intro hsame
    exact pack_inj hw (hsame ▸ hv)
  · intro hcells
    rw [pack, hcells] at hw
    exact Except.ok.inj (hw.symm.trans hv)

theorem pack_of_two_cells :
    ∃ datum, pack "INVENTED".toList = .ok datum ∧ datum < 2 ^ 36 ∧
      pack "ED".toList = .ok datum := by
  obtain ⟨datum, hdatum⟩ : ∃ datum, pack "INVENTED".toList = .ok datum := ⟨_, rfl⟩
  obtain ⟨other, hother⟩ : ∃ datum, pack "ED".toList = .ok datum := ⟨_, rfl⟩
  obtain ⟨-, hsound⟩ := pack_tells_last_cells "INVENTED".toList
  obtain ⟨hlt, hsame⟩ := hsound datum hdatum
  have heq : datum = other := (hsame _ other hother).mpr (by decide)
  exact ⟨datum, hdatum, hlt, heq ▸ hother⟩

end Colloquy.CardCode
