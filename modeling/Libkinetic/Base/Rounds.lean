import Mathlib.Algebra.Order.Floor.Div
import Mathlib.Tactic

/-! # Bounded loops and pieces of a list

`rounds step n s` runs the rounds `0` to `n - 1` of a loop from the state `s`; a round goes on with
a new state or leaves the loop. `rounds_invariant` is the rule for a loop that may be left, and
`rounds_total` the one for a loop that is not. The second part cuts a list into pieces of the same
length, the last of which may be shorter. -/

namespace Libkinetic.Base.Rounds

section Loops
variable {ε σ : Type*} {step : ℕ → σ → Except ε σ} {P : ℕ → σ → Prop} {s s' : σ} {n : ℕ}

/-- The state after `n` rounds, or how the loop was left. -/
def rounds (step : ℕ → σ → Except ε σ) : ℕ → σ → Except ε σ
  | 0, s => .ok s
  | n + 1, s =>
    match rounds step n s with
    | .ok s => step n s
    | .error e => .error e

theorem rounds_succ_ok (h : rounds step (n + 1) s = .ok s') :
    ∃ t, rounds step n s = .ok t ∧ step n t = .ok s' := by
  unfold rounds at h
  split at h
  · exact ⟨_, ‹_›, h⟩
  · cases h

/-- **A loop that may be left**: what every round keeps holds at the end, if it comes to that. -/
theorem rounds_invariant (h0 : P 0 s)
    (hstep : ∀ i t t', i < n → P i t → step i t = .ok t' → P (i + 1) t')
    (h : rounds step n s = .ok s') : P n s' := by
  induction n generalizing s' with
  | zero =>
    obtain rfl : s = s' := by simpa [rounds] using h
    exact h0
  | succ n ih =>
    obtain ⟨t, ht, hs'⟩ := rounds_succ_ok h
    have hP : P n t := ih (fun i u u' hi => hstep i u u' (by omega)) ht
    exact hstep n t s' (by omega) hP hs'

/-- **A loop that is not left**: it comes to its end. -/
theorem rounds_total (h0 : P 0 s)
    (hstep : ∀ i t, i < n → P i t → ∃ t', step i t = .ok t' ∧ P (i + 1) t') :
    ∃ s', rounds step n s = .ok s' ∧ P n s' := by
  induction n with
  | zero => exact ⟨s, rfl, h0⟩
  | succ n ih =>
    obtain ⟨t, ht, hP⟩ := ih fun i u hi => hstep i u (by omega)
    obtain ⟨t', hstep', hP'⟩ := hstep n t (by omega) hP
    refine ⟨t', ?_, hP'⟩
    simp only [rounds, ht]
    exact hstep'

/-- A loop that is left, is left in one of its rounds. -/
theorem rounds_error {e : ε} (h : rounds step n s = .error e) :
    ∃ i t, i < n ∧ rounds step i s = .ok t ∧ step i t = .error e := by
  induction n with
  | zero => cases h
  | succ n ih =>
    unfold rounds at h
    split at h
    · exact ⟨n, _, Nat.lt_succ_self n, ‹_›, h⟩
    · next hleft =>
      cases h
      obtain ⟨i, t, hi, ht, hs⟩ := ih hleft
      exact ⟨i, t, Nat.lt_succ_of_lt hi, ht, hs⟩

/-- What a round does with which the loop is left. -/
theorem rounds_left {e : ε} {i : ℕ} (hi : i < n) (h : rounds step i s = .ok s')
    (he : step i s' = .error e) : rounds step n s = .error e := by
  induction n with
  | zero => exact absurd hi (Nat.not_lt_zero i)
  | succ n ih =>
    by_cases hin : i = n
    · subst hin
      simp only [rounds, h, he]
    · simp only [rounds, ih (by omega)]

end Loops

section Pieces
variable {α : Type*} {l : List α} {v n i : ℕ}

/-- The piece with number `i`. -/
def piece (v : ℕ) (l : List α) (i : ℕ) : List α := (l.drop (i * v)).take v

/-- How many pieces there are. -/
def pieces (v len : ℕ) : ℕ := len / v + if len % v ≠ 0 then 1 else 0

/-- The first pieces, one after the other. -/
theorem flatten_pieces (v : ℕ) (l : List α) (n : ℕ) :
    ((List.range n).map (piece v l)).flatten = l.take (n * v) := by
  induction n with
  | zero => simp
  | succ n ih =>
    rw [List.range_succ, List.map_append, List.flatten_append, ih, Nat.succ_mul, List.take_add]
    simp [piece]

theorem le_pieces_mul (len : ℕ) (hv : 0 < v) : len ≤ pieces v len * v := by
  have hdiv := Nat.div_add_mod' len v
  have hmod := Nat.mod_lt len hv
  unfold pieces
  split_ifs with h
  · rw [Nat.add_mul, Nat.one_mul]
    omega
  · rw [Nat.add_zero]
    omega

/-- **All pieces, one after the other, are the list.** -/
theorem flatten_all_pieces (l : List α) (hv : 0 < v) :
    ((List.range (pieces v l.length)).map (piece v l)).flatten = l := by
  rw [flatten_pieces, List.take_of_length_le (le_pieces_mul l.length hv)]

theorem pieces_eq_ceilDiv (len : ℕ) (hv : 0 < v) : pieces v len = len ⌈/⌉ v := by
  have hdiv := Nat.div_add_mod len v
  have hmod := Nat.mod_lt len hv
  rw [Nat.ceilDiv_eq_add_pred_div]
  unfold pieces
  symm
  split_ifs with h
  · refine Nat.div_eq_of_lt_le ?_ ?_
    · rw [Nat.add_mul, Nat.mul_comm]
      omega
    · rw [Nat.add_mul, Nat.add_mul, Nat.mul_comm]
      omega
  · refine Nat.div_eq_of_lt_le ?_ ?_
    · rw [Nat.add_zero, Nat.mul_comm]
      omega
    · rw [Nat.add_zero, Nat.add_mul, Nat.mul_comm]
      omega

theorem pieces_le {len m : ℕ} (hv : 0 < v) (h : len ≤ v * m) : pieces v len ≤ m := by
  rw [pieces_eq_ceilDiv len hv]
  exact (ceilDiv_le_iff_le_mul hv).mpr h

/-- If the pieces do not come out even, the last one has the remainder. -/
theorem take_mod_eq_piece (l : List α) (hv : 0 < v) (hi : i + 1 = pieces v l.length)
    (hr : l.length % v ≠ 0) : (l.drop (i * v)).take (l.length % v) = piece v l i := by
  have hdiv := Nat.div_add_mod' l.length v
  have hmod := Nat.mod_lt l.length hv
  have hi' : i = l.length / v := by
    unfold pieces at hi
    rw [if_pos hr] at hi
    omega
  have hlen : (l.drop (i * v)).length = l.length % v := by
    rw [List.length_drop, hi']
    omega
  rw [piece, List.take_of_length_le hlen.le, List.take_of_length_le (by omega)]

end Pieces

end Libkinetic.Base.Rounds
