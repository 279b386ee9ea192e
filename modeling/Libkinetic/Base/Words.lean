import Mathlib.Tactic

/-! # Words of four bytes

The bytes of a 32-bit word, by masks and shifts, the word of four bytes, and the word with its bytes
in the other order. -/

namespace Libkinetic.Base.Words

/-- The byte `n` of a word, 0 for the least significant one. -/
def byte (d : BitVec 32) (n : ℕ) : BitVec 8 := d.extractLsb' (8 * n) 8

/-- The word of four bytes, the most significant one first. -/
def join (b3 b2 b1 b0 : BitVec 8) : BitVec 32 :=
  b3.setWidth 32 <<< 24 ||| b2.setWidth 32 <<< 16 ||| b1.setWidth 32 <<< 8 ||| b0.setWidth 32

/-- The bytes in the other order. -/
def bswap (d : BitVec 32) : BitVec 32 := join (byte d 0) (byte d 1) (byte d 2) (byte d 3)

section Bytes
variable (b3 b2 b1 b0 : BitVec 8) (d : BitVec 32)

theorem byte_join_zero : byte (join b3 b2 b1 b0) 0 = b0 := by
  unfold byte join
  ext i hi
  interval_cases i <;> simp

theorem byte_join_one : byte (join b3 b2 b1 b0) 1 = b1 := by
  unfold byte join
  ext i hi
  interval_cases i <;> simp

theorem byte_join_two : byte (join b3 b2 b1 b0) 2 = b2 := by
  unfold byte join
  ext i hi
  interval_cases i <;> simp

theorem byte_join_three : byte (join b3 b2 b1 b0) 3 = b3 := by
  unfold byte join
  ext i hi
  interval_cases i <;> simp

/-- **A word is made up of its bytes.** -/
theorem join_byte : join (byte d 3) (byte d 2) (byte d 1) (byte d 0) = d := by
  unfold byte join
  ext i hi
  interval_cases i <;> simp

/-- A byte that is masked out and shifted down. -/
theorem mask_three : ((d &&& 0xff000000#32) >>> 24).setWidth 8 = byte d 3 := by
  unfold byte
  ext i hi
  interval_cases i <;> simp

theorem mask_two : ((d &&& 0x00ff0000#32) >>> 16).setWidth 8 = byte d 2 := by
  unfold byte
  ext i hi
  interval_cases i <;> simp

theorem mask_one : ((d &&& 0x0000ff00#32) >>> 8).setWidth 8 = byte d 1 := by
  unfold byte
  ext i hi
  interval_cases i <;> simp

theorem mask_zero : (d &&& 0x000000ff#32).setWidth 8 = byte d 0 := by
  unfold byte
  ext i hi
  interval_cases i <;> simp

/-- Words with the same bytes are the same. -/
theorem eq_of_byte {d d' : BitVec 32} (h0 : byte d 0 = byte d' 0) (h1 : byte d 1 = byte d' 1)
    (h2 : byte d 2 = byte d' 2) (h3 : byte d 3 = byte d' 3) : d = d' := by
  rw [← join_byte d, ← join_byte d', h0, h1, h2, h3]

theorem byte_bswap : byte (bswap d) 0 = byte d 3 ∧ byte (bswap d) 1 = byte d 2 ∧
    byte (bswap d) 2 = byte d 1 ∧ byte (bswap d) 3 = byte d 0 := by
  unfold bswap
  exact ⟨byte_join_zero .., byte_join_one .., byte_join_two .., byte_join_three ..⟩

theorem bswap_bswap : bswap (bswap d) = d := by
  obtain ⟨h0, h1, h2, h3⟩ := byte_bswap d
  obtain ⟨h0', h1', h2', h3'⟩ := byte_bswap (bswap d)
  exact eq_of_byte (h0'.trans h3) (h1'.trans h2) (h2'.trans h1) (h3'.trans h0)

/-- The value of a byte. -/
theorem toNat_byte (n : ℕ) : (byte d n).toNat = d.toNat / 256 ^ n % 256 := by
  unfold byte
  rw [BitVec.extractLsb'_toNat, Nat.shiftRight_eq_div_pow, pow_mul]
  norm_num

/-- The value of a word. -/
theorem toNat_join : (join b3 b2 b1 b0).toNat =
    b3.toNat * 256 ^ 3 + b2.toNat * 256 ^ 2 + b1.toNat * 256 + b0.toNat := by
  have hlt := (join b3 b2 b1 b0).isLt
  have h0 := toNat_byte (join b3 b2 b1 b0) 0
  have h1 := toNat_byte (join b3 b2 b1 b0) 1
  have h2 := toNat_byte (join b3 b2 b1 b0) 2
  have h3 := toNat_byte (join b3 b2 b1 b0) 3
  rw [byte_join_zero] at h0
  rw [byte_join_one] at h1
  rw [byte_join_two] at h2
  rw [byte_join_three] at h3
  omega

end Bytes

end Libkinetic.Base.Words
