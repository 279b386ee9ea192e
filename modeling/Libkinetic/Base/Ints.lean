import Mathlib.Tactic

/-! # The type `int`

Values are stored in 32 bits, in two's complement, and a byte in eight. -/

namespace Libkinetic.Base.Ints

/-- What fits an `int`. -/
def IsInt (z : ℤ) : Prop := -2 ^ 31 ≤ z ∧ z < 2 ^ 31

instance (z : ℤ) : Decidable (IsInt z) := inferInstanceAs (Decidable (_ ∧ _))

/-- A value stored in an `int`. -/
def toInt (z : ℤ) : ℤ := z.bmod (2 ^ 32)

theorem toInt_of_isInt {z : ℤ} (h : IsInt z) : toInt z = z := by
  unfold toInt
  obtain ⟨hlo, hhi⟩ := h
  rw [Int.bmod_eq_of_le] <;> omega

theorem toInt_natCast {n : ℕ} (h : n < 2 ^ 31) : toInt n = n :=
  toInt_of_isInt ⟨by omega, by omega⟩

/-- A byte is below 256. -/
instance neZeroByte : NeZero 256 := ⟨by decide⟩

end Libkinetic.Base.Ints
