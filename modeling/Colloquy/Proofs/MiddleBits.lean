import Mathlib.Algebra.Ring.Int.Defs
import Mathlib.Algebra.Ring.Nat
import Colloquy.MiddleSquare

/-!
# The middle bits of a square

The hash is a window of the bits of a square that has up to seventy of them. For every width that
can be asked for the window ends below bit 64, so nothing is lost when the square is computed in
words of 64 bits and cut off at their top.
-/

namespace Colloquy.MiddleSquare

/-! ### The magnitude -/

theorem natCast_magnitude (datum : Int) : (magnitude datum : Int) = datum % 2 ^ 35 := by
  have hpower : ((Nat.pow 2 magnitudeBits : Nat) : Int) = 2 ^ 35 := by rfl
  have hnonneg : 0 ≤ datum % 2 ^ 35 := Int.emod_nonneg datum (by decide)
  rw [magnitude, hpower]
  exact Int.toNat_of_nonneg hnonneg

/-- Nothing of a datum but its residue is in its magnitude: neither the sign nor a higher bit. -/
theorem magnitude_eq_iff {datum other : Int} :
    magnitude datum = magnitude other ↔ datum % 2 ^ 35 = other % 2 ^ 35 := by
  rw [← natCast_magnitude, ← natCast_magnitude, Int.natCast_inj]

/-- The magnitude is what a mask leaves of the datum in a word, where a negative datum stands in
two's complement. -/
theorem toNat_masked (datum : Int) :
    (BitVec.ofInt 64 datum &&& 0x7FFFFFFFF#64).toNat = magnitude datum := by
  have hword : (BitVec.ofInt 64 datum).toNat = (datum % 2 ^ 64).toNat := BitVec.toNat_ofInt datum
  have hmask : (0x7FFFFFFFF#64).toNat = 2 ^ 35 - 1 := by rfl
  have hnonneg : 0 ≤ datum % 2 ^ 64 := Int.emod_nonneg datum (by decide)
  have hresidue : datum % 2 ^ 64 % 2 ^ 35 = datum % 2 ^ 35 :=
    Int.emod_emod_of_dvd datum (by decide)
  rw [BitVec.toNat_and, hword, hmask, Nat.and_two_pow_sub_one_eq_mod]
  apply Int.natCast_inj.mp
  rw [natCast_magnitude, ← hresidue, Int.natCast_emod, Int.toNat_of_nonneg hnonneg]
  rfl

/-! ### Windows of bits -/

theorem window_mod_two_pow (x : Nat) {width shift bits : Nat} (h : shift + bits ≤ width) :
    (x % 2 ^ width) >>> shift % 2 ^ bits = x >>> shift % 2 ^ bits := by
  apply Nat.eq_of_testBit_eq
  intro i
  simp only [Nat.testBit_mod_two_pow, Nat.testBit_shiftRight]
  by_cases hi : i < bits
  · have hbelow : shift + i < width := by omega
    simp [hi, hbelow]
  · simp [hi]

theorem window_le {bits : Nat} (hbits : bits ≤ widthLimit) :
    magnitudeBits - bits / 2 + bits ≤ 64 := by
  have hlimit : bits ≤ 15 := hbits
  unfold magnitudeBits
  omega

theorem hash_lt (datum : Int) (bits : Nat) : hash datum bits < Nat.pow 2 bits := by
  have hpos : 0 < Nat.pow 2 bits := Nat.two_pow_pos bits
  exact Nat.mod_lt _ hpos

/-- The square may be cut off at 64 bits before its middle is taken. -/
theorem hash_eq_of_cut_off (datum : Int) {bits : Nat} (hbits : bits ≤ widthLimit) :
    hash datum bits =
      (magnitude datum * magnitude datum % 2 ^ 64) >>> (35 - bits / 2) % 2 ^ bits :=
  (window_mod_two_pow _ (window_le hbits)).symm

/-! ### Words of 64 bits -/

/-- The hash as it is computed in words: every operation is one of words and drops what does not
fit. -/
def hashInWords (datum : BitVec 64) (bits : Nat) : BitVec 64 :=
  let m := datum &&& 0x7FFFFFFFF#64
  (m * m) >>> (magnitudeBits - bits / 2) &&& ((1#64 <<< bits) - 1#64)

theorem toNat_ones {bits : Nat} (hbits : bits < 64) :
    ((1#64 <<< bits) - 1#64).toNat = 2 ^ bits - 1 := by
  have hfits : 2 ^ bits < 2 ^ 64 := Nat.pow_lt_pow_right (by decide) hbits
  have hpos : 0 < 2 ^ bits := Nat.two_pow_pos bits
  have hpower : (1#64 <<< bits).toNat = 2 ^ bits := by
    rw [BitVec.toNat_shiftLeft, Nat.shiftLeft_eq]
    simp only [BitVec.toNat_ofNat]
    omega
  have hone : (1#64).toNat = 1 := by rfl
  rw [BitVec.toNat_sub, hpower, hone]
  omega

theorem toNat_hashInWords (datum : Int) {bits : Nat} (hbits : bits ≤ widthLimit) :
    (hashInWords (BitVec.ofInt 64 datum) bits).toNat = hash datum bits := by
  have hlimit : bits < 64 := Nat.lt_of_le_of_lt hbits (by decide)
  rw [hash_eq_of_cut_off datum hbits, hashInWords]
  simp only [BitVec.toNat_and, BitVec.toNat_ushiftRight, BitVec.toNat_mul, toNat_ones hlimit,
    ← toNat_masked]
  exact Nat.and_two_pow_sub_one_eq_mod _ bits

/-- For every datum and every width that is allowed there is a hash. It has no more bits than that,
all data of one residue have it, and words of 64 bits are enough to compute it: it is the window
of the square cut off at 64 bits, and what operations on words make of the datum. -/
theorem hash_needs_one_word (datum : Int) {bits : Nat} (hbits : bits ≤ widthLimit) :
    ∃ value, hashOfWidth datum bits = .ok value ∧ value < 2 ^ bits ∧
      (∀ other : Int, other % 2 ^ 35 = datum % 2 ^ 35 → hashOfWidth other bits = .ok value) ∧
      (∀ m : Nat, (m : Int) = datum % 2 ^ 35 →
        value = (m * m % 2 ^ 64) >>> (35 - bits / 2) % 2 ^ bits) ∧
      value = (hashInWords (BitVec.ofInt 64 datum) bits).toNat := by
  have hallowed : (0 : Int) ≤ bits ∧ (bits : Int) ≤ widthLimit := by omega
  have hok (other : Int) : hashOfWidth other bits = .ok (hash other bits) := by
    rw [hashOfWidth, if_pos hallowed, Int.toNat_natCast]
  refine ⟨hash datum bits, hok datum, hash_lt datum bits, ?_, ?_, ?_⟩
  · intro other hresidue
    have hmagnitude : magnitude other = magnitude datum := magnitude_eq_iff.mpr hresidue
    rw [hok, hash, hash, hmagnitude]
  · intro m hm
    have hmagnitude : m = magnitude datum := by
      rw [← Int.natCast_inj, natCast_magnitude]
      exact hm
    rw [hmagnitude]
    exact hash_eq_of_cut_off datum hbits
  · exact (toNat_hashInWords datum hbits).symm

/-- A negative datum of more than 64 bits has the hash of its residue. -/
theorem hash_of_long_negative_datum :
    ∃ value, hashOfWidth (-(2 ^ 80 + 5)) 15 = .ok value ∧ hashOfWidth (2 ^ 35 - 5) 15 = .ok value ∧
      value = (hashInWords (BitVec.ofInt 64 (-(2 ^ 80 + 5))) 15).toNat := by
  have hbits : 15 ≤ widthLimit := by decide
  obtain ⟨value, hvalue, -, hresidue, -, hwords⟩ := hash_needs_one_word (-(2 ^ 80 + 5)) hbits
  exact ⟨value, hvalue, hresidue (2 ^ 35 - 5) (by decide), hwords⟩

end Colloquy.MiddleSquare
