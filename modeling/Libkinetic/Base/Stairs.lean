import Libkinetic.Base.Windows

/-! # Reading the beginning of a list again and again

A list that is read from its beginning in windows, each of which ends one element before the one
before it, is read in stairs: the first `m` elements, then the first `m - 1`, and so on. A reader
stands at an index of the window it has and moves on inside it or, at its end, to the next one; a
count may end the reading in the middle of a window (`Stair`). -/

namespace Libkinetic.Base.Stairs

open Libkinetic.Base.Windows

variable {α : Type*}

/-- The first `q` elements of the list, then the first `q - 1`, down to the first one. -/
def stairs (l : List α) : ℕ → List α
  | 0 => []
  | q + 1 => l.take (q + 1) ++ stairs l q

/-- How much is read. -/
theorem length_stairs {l : List α} {q : ℕ} (h : q ≤ l.length) :
    2 * (stairs l q).length = q * (q + 1) := by
  induction q with
  | zero => rfl
  | succ q ih =>
    have ih := ih (by omega)
    rw [stairs, List.length_append, List.length_take, Nat.min_eq_left h, Nat.mul_add, ih]
    ring

theorem stairs_subset (l : List α) (q : ℕ) : stairs l q ⊆ l.take q := by
  induction q with
  | zero => exact List.nil_subset _
  | succ q ih =>
    refine List.append_subset.mpr ⟨List.Subset.refl _, fun x hx => ?_⟩
    exact List.take_subset_take_left l (Nat.le_succ q) (ih hx)

/-- Index `i` of the window `w` is element `n` of the stairs from `m` down. The window has the first
`q` elements of the list, or those of them with which the count ends. -/
structure Stair (l : List α) (m : ℕ) (count : Option ℕ) (w : List α) (i n q : ℕ) : Prop where
  lt : i < w.length
  le : q ≤ l.length
  window : w <+: l.take q
  cut : w = l.take q ∨ count = some (n - i + w.length)
  start : i ≤ n
  rest : (stairs l m).drop n = (l.take q).drop i ++ stairs l (q - 1)

section Stair
variable {l w w' : List α} {m i n q : ℕ} {count : Option ℕ}

theorem Stair.length_le (h : Stair l m count w i n q) : w.length ≤ q := by
  have hle := h.window.length_le
  rw [List.length_take] at hle
  omega

theorem Stair.getElem? (h : Stair l m count w i n q) : (stairs l m)[n]? = w[i]? := by
  have hlt := h.lt
  have hlen := h.length_le
  have hle := h.le
  have hn : (stairs l m)[n]? = ((l.take q).drop i ++ stairs l (q - 1))[0]? := by
    rw [← h.rest, List.getElem?_drop, Nat.add_zero]
  obtain ⟨post, hpost⟩ := h.window
  rw [hn, List.getElem?_append_left (by rw [List.length_drop, List.length_take]; omega),
    List.getElem?_drop, Nat.add_zero, ← hpost, List.getElem?_append_left hlt]

/-- The first window. -/
theorem Stair.first (hm : m ≤ l.length) (hw : w <+: l.take m) (hne : w ≠ [])
    (hcut : w = l.take m ∨ count = some w.length) : Stair l m count w 0 0 m := by
  have hpos : 0 < w.length := List.length_pos_iff.mpr hne
  have hle := hw.length_le
  rw [List.length_take] at hle
  refine ⟨hpos, hm, hw, ?_, le_rfl, ?_⟩
  · simpa using hcut
  · obtain ⟨q, rfl⟩ : ∃ q, m = q + 1 := ⟨m - 1, by omega⟩
    rfl

/-- The next element, when the window has one. -/
theorem Stair.next (h : Stair l m count w i n q) (hi : i + 1 < w.length) :
    Stair l m count w (i + 1) (n + 1) q := by
  have hstart := h.start
  refine ⟨hi, h.le, h.window, ?_, by omega, ?_⟩
  · rw [show n + 1 - (i + 1) = n - i by omega]
    exact h.cut
  · have hlen := h.length_le
    have hle := h.le
    rw [← List.drop_drop, h.rest, List.drop_append_of_le_length, List.drop_drop]
    rw [List.length_drop, List.length_take]
    omega

/-- At the end of a window that the count does not end, what is left are the stairs below. -/
theorem Stair.below (h : Stair l m count w i n q) (hi : w.length ≤ i + 1)
    (hcount : count ≠ some (n + 1)) :
    q = i + 1 ∧ w = l.take q ∧ (stairs l m).drop (n + 1) = stairs l (q - 1) := by
  have hlt := h.lt
  have hstart := h.start
  have hw : w = l.take q := by
    refine h.cut.resolve_right fun hc => hcount ?_
    rw [hc, show n - i + w.length = n + 1 by omega]
  have hlen : w.length = q := by
    rw [hw, List.length_take, Nat.min_eq_left h.le]
  refine ⟨by omega, hw, ?_⟩
  rw [← List.drop_drop, h.rest, List.drop_append, List.drop_drop, List.drop_eq_nil_of_le,
    List.length_drop, List.length_take, Nat.min_eq_left h.le, show 1 - (q - i) = 0 by omega]
  · rfl
  · rw [List.length_take]
    omega

/-- The next window, when the reader is at the end of the one it has. -/
theorem Stair.refill (h : Stair l m count w i n q) (hi : w.length ≤ i + 1)
    (hcount : count ≠ some (n + 1)) (hw : w' <+: l.take (q - 1)) (hne : w' ≠ [])
    (hcut : w' = l.take (q - 1) ∨ count = some (n + 1 + w'.length)) :
    Stair l m count w' 0 (n + 1) (q - 1) := by
  obtain ⟨-, -, hrest⟩ := h.below hi hcount
  have hpos : 0 < w'.length := List.length_pos_iff.mpr hne
  have hle := hw.length_le
  rw [List.length_take] at hle
  have hle' := h.le
  refine ⟨hpos, by omega, hw, hcut, Nat.zero_le _, ?_⟩
  rw [hrest]
  obtain ⟨r, hr⟩ : ∃ r, q - 1 = r + 1 := ⟨q - 2, by omega⟩
  rw [hr]
  rfl

end Stair

/-- In an increasing list, read from its end, what is above an element comes before it. -/
theorem above_reverse [LinearOrder α] {full : List α} {q : ℕ} {x : α}
    (hs : full.Pairwise (· < ·)) (hx : full.reverse[q]? = some x) :
    (above x full).reverse = full.reverse.take q := by
  have hq : q < full.length := by
    have := (List.getElem?_eq_some_iff.mp hx).1
    rwa [List.length_reverse] at this
  rw [List.getElem?_reverse hq] at hx
  have hdrop : full.drop (full.length - 1 - q) = x :: full.drop (full.length - 1 - q + 1) := by
    rw [List.drop_eq_getElem_cons (by omega)]
    rw [List.getElem?_eq_getElem (by omega)] at hx
    rw [Option.some.inj hx]
  have hwin : Window full [x] 0 (full.length - 1 - q) := by
    refine ⟨Nat.zero_lt_one, full.take (full.length - 1 - q), full.drop (full.length - 1 - q + 1),
      ?_, ?_⟩
    · rw [List.append_assoc, List.singleton_append, ← hdrop, List.take_append_drop]
    · rw [List.length_take]
      omega
  have habove : above x full = full.drop (full.length - 1 - q + 1) :=
    hwin.rest hs le_rfl (List.cons_ne_nil x [])
  rw [habove, List.take_reverse, show full.length - 1 - q + 1 = full.length - q by omega]

end Libkinetic.Base.Stairs
