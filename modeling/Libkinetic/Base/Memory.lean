import Mathlib.Tactic

/-! # A memory of bytes

Addresses are numbers, and a byte that is not mapped has no value. Numbers of several bytes are
stored with the least significant byte first. An access faults, with the result `none`, if it
touches a byte that is not mapped. -/

namespace Libkinetic.Base.Memory

abbrev Mem := ℕ → Option (Fin 256)

variable {m : Mem} {a a' n n' v : ℕ} {f : ℕ → Fin 256}

/-- The bytes from `a` on are mapped. -/
def Mapped (m : Mem) (a n : ℕ) : Prop := ∀ i < n, (m (a + i)).isSome = true

instance (m : Mem) (a n : ℕ) : Decidable (Mapped m a n) :=
  inferInstanceAs (Decidable (∀ i < n, (m (a + i)).isSome = true))

/-- The number in the `n` bytes from `a` on. -/
def load (m : Mem) (a : ℕ) : ℕ → Option ℕ
  | 0 => some 0
  | n + 1 => (m a).bind fun b => (load m (a + 1) n).map fun v => b + 256 * v

/-- The `n` bytes from `a` on replaced. -/
def put (m : Mem) (a n : ℕ) (f : ℕ → Fin 256) : Mem := fun x =>
  if a ≤ x ∧ x < a + n then some (f (x - a)) else m x

/-- The digits of a number to the base 256. -/
def digit (v i : ℕ) : Fin 256 := ⟨v / 256 ^ i % 256, Nat.mod_lt _ (by decide)⟩

/-- A number is stored in `n` bytes. -/
def store (m : Mem) (a n v : ℕ) : Option Mem :=
  if Mapped m a n then some (put m a n (digit v)) else none

/-- `memset` -/
def fill (m : Mem) (a n : ℕ) (b : Fin 256) : Option Mem :=
  if Mapped m a n then some (put m a n fun _ => b) else none

theorem store_some {m' : Mem} (h : store m a n v = some m') : m' = put m a n (digit v) := by
  unfold store at h
  split_ifs at h
  exact (Option.some.inj h).symm

/-- A store maps nothing. -/
theorem store_unmapped {m' : Mem} {x : ℕ} (h : store m a n v = some m') (hx : m x = none) :
    m' x = none := by
  unfold store at h
  split_ifs at h with hm
  cases h
  unfold put
  rw [if_neg, hx]
  rintro ⟨hle, hlt⟩
  have hmapped := hm (x - a) (by omega)
  rw [Nat.add_sub_cancel' hle, hx] at hmapped
  cases hmapped

theorem load_congr {m' : Mem} : ∀ {n a : ℕ}, (∀ i < n, m (a + i) = m' (a + i)) →
    load m a n = load m' a n
  | 0, _, _ => rfl
  | n + 1, a, h => by
    have hhead : m a = m' a := h 0 (by omega)
    have htail : load m (a + 1) n = load m' (a + 1) n := by
      refine load_congr fun i hi => ?_
      have hnext := h (i + 1) (by omega)
      rwa [show a + (i + 1) = a + 1 + i by omega] at hnext
    rw [load, load, hhead, htail]

/-- **Frame**: what is stored elsewhere is not seen. -/
theorem load_put_of_disjoint (h : a' + n' ≤ a ∨ a + n ≤ a') :
    load (put m a n f) a' n' = load m a' n' := by
  refine load_congr fun i hi => if_neg ?_
  omega

/-- **Read after write.** -/
theorem load_put_digit (m : Mem) (v : ℕ) : ∀ (n a : ℕ),
    load (put m a n (digit v)) a n = some (v % 256 ^ n) := by
  -- the digits from the `k`-th one on
  have key : ∀ (n k a : ℕ) (m : Mem), (∀ i < n, m (a + i) = some (digit v (k + i))) →
      load m a n = some (v / 256 ^ k % 256 ^ n) := by
    intro n
    induction n with
    | zero =>
      intro k a m _
      simp [load, Nat.mod_one]
    | succ n ih =>
      intro k a m h
      have hhead : m a = some (digit v k) := h 0 (by omega)
      have htail : load m (a + 1) n = some (v / 256 ^ (k + 1) % 256 ^ n) := by
        refine ih (k + 1) (a + 1) m fun i hi => ?_
        have hnext := h (i + 1) (by omega)
        rwa [show a + (i + 1) = a + 1 + i by omega, show k + (i + 1) = k + 1 + i by omega] at hnext
      rw [load, hhead, htail]
      simp only [Option.bind_some, Option.map_some, digit, Option.some.injEq]
      rw [pow_succ 256 k, ← Nat.div_div_eq_div_mul, pow_succ' 256 n, Nat.mod_mul]
  intro n a
  have hdigits := key n 0 a (put m a n (digit v)) fun i hi => by
    unfold put
    rw [if_pos ⟨by omega, by omega⟩, Nat.add_sub_cancel_left, zero_add]
  simpa using hdigits

end Libkinetic.Base.Memory
