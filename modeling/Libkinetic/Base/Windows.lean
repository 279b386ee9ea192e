import Mathlib.Tactic

/-! # Reading a list window by window

A list is read through windows. The reader stands at an index of the window it has, and moves on
inside it or, at its end, to a new window: a non-empty prefix of what comes after. In a strictly
increasing list what comes after a window are the elements above its last one (`Window.rest`), so
that the last element is all that a reader has to remember; where the list is what lies between two
bounds, it is the new lower bound (`filter_between_some`). -/

namespace Libkinetic.Base.Windows

variable {α : Type*}

/-- The elements of a list above `x`. -/
def above [LinearOrder α] (x : α) (l : List α) : List α := l.filter fun y => decide (x < y)

/-- The window `w` is a segment of `full`, and its element `i` is element `n` of `full`. -/
structure Window (full w : List α) (i n : ℕ) : Prop where
  lt : i < w.length
  split : ∃ pre post, full = pre ++ w ++ post ∧ n = pre.length + i

section Window
variable {full w p : List α} {i n : ℕ}

theorem Window.getElem? (h : Window full w i n) : full[n]? = w[i]? := by
  obtain ⟨pre, post, rfl, rfl⟩ := h.split
  have hle : pre.length ≤ pre.length + i := by omega
  rw [List.append_assoc, List.getElem?_append_right hle]
  rw [Nat.add_sub_cancel_left, List.getElem?_append_left h.lt]

/-- The first window. -/
theorem Window.first (hp : p <+: full) (hne : p ≠ []) : Window full p 0 0 := by
  obtain ⟨post, rfl⟩ := hp
  exact ⟨List.length_pos_iff.mpr hne, [], post, rfl, rfl⟩

/-- The next element, when the window has one. -/
theorem Window.next (h : Window full w i n) (hi : i + 1 < w.length) :
    Window full w (i + 1) (n + 1) := by
  obtain ⟨pre, post, hfull, hn⟩ := h.split
  exact ⟨hi, pre, post, hfull, by omega⟩

/-- The next window, when the reader is at the end of the one it has. -/
theorem Window.refill (h : Window full w i n) (hp : p <+: full.drop (n + 1)) (hne : p ≠ []) :
    Window full p 0 (n + 1) := by
  obtain ⟨post, hpost⟩ := hp
  have hlen : n + 1 ≤ full.length := by
    obtain ⟨pre, post', rfl, rfl⟩ := h.split
    have hlt := h.lt
    simp only [List.length_append]
    omega
  refine ⟨List.length_pos_iff.mpr hne, full.take (n + 1), post, ?_, ?_⟩
  · rw [List.append_assoc, hpost, List.take_append_drop]
  · rw [List.length_take]
    omega

/-- **What is left** after the last element of a window. -/
theorem Window.rest [LinearOrder α] (h : Window full w i n) (hs : full.Pairwise (· < ·))
    (hi : w.length ≤ i + 1) (hne : w ≠ []) :
    above (w.getLast hne) full = full.drop (n + 1) := by
  obtain ⟨pre, post, rfl, rfl⟩ := h.split
  have hlt := h.lt
  have hdrop : (pre ++ w ++ post).drop (pre.length + i + 1) = post := by
    have hlen : pre.length + i + 1 = (pre ++ w).length := by
      rw [List.length_append]
      omega
    rw [hlen, List.drop_left]
  obtain ⟨h1, -, h2⟩ := List.pairwise_append.mp hs
  have hlast : w.getLast hne ∈ w := List.getLast_mem hne
  -- nothing up to the last element is above it
  have hlow : above (w.getLast hne) (pre ++ w) = [] := by
    unfold above
    rw [List.filter_eq_nil_iff]
    intro x hx hlt'
    have hlt' := of_decide_eq_true hlt'
    rcases List.mem_append.mp hx with hx | hx
    · exact lt_asymm hlt' ((List.pairwise_append.mp h1).2.2 x hx _ hlast)
    · rw [← List.dropLast_concat_getLast hne, List.mem_append, List.mem_singleton] at hx
      rcases hx with hx | rfl
      · exact lt_asymm hlt' ((List.pairwise_append.mp h1).2.1.rel_dropLast_getLast hx)
      · exact hlt'.false
  have hhigh : above (w.getLast hne) post = post := by
    unfold above
    rw [List.filter_eq_self]
    intro x hx
    exact decide_eq_true (h2 _ (List.mem_append_right _ hlast) x hx)
  rw [hdrop, above, List.filter_append]
  exact (congrArg₂ (· ++ ·) hlow hhigh).trans (List.nil_append _)

end Window

/-! ### The elements between two bounds -/

section Bounds
variable [LinearOrder α]

/-- The elements between two bounds; an absent bound excludes nothing. -/
def between (lo hi : Option α) (loIncl hiIncl : Bool) (x : α) : Bool :=
  (lo.all fun a => decide (a < x) || (loIncl && a == x)) &&
    hi.all fun b => decide (x < b) || (hiIncl && x == b)

variable {lo hi : Option α} {loIncl hiIncl : Bool} {x y : α}

/-- What is above an element of the range is in the range as far as the upper bound goes. -/
theorem between_of_lt (hx : between lo hi loIncl hiIncl x = true) (hxy : x < y) :
    between lo hi loIncl hiIncl y = between (some x) hi false hiIncl y := by
  have hlo : (lo.all fun a => decide (a < y) || (loIncl && a == y)) = true := by
    cases lo with
    | none => rfl
    | some a =>
      have ha : a < x ∨ loIncl = true ∧ a = x := by
        have := (Bool.and_eq_true_iff.mp hx).1
        simpa using this
      have hay : a < y := by
        rcases ha with h | ⟨-, rfl⟩
        · exact h.trans hxy
        · exact hxy
      simp [hay]
  have hx' : ((some x).all fun a => decide (a < y) || (false && a == y)) = true := by
    simp [hxy]
  unfold between
  rw [hlo, hx']

theorem lt_of_between_some (h : between (some x) hi false hiIncl y = true) : x < y := by
  have := (Bool.and_eq_true_iff.mp h).1
  simpa using this

/-- **From an element of the range on**, exclusively: what is left of the range. -/
theorem filter_between_some (l : List α) (hx : between lo hi loIncl hiIncl x = true) :
    l.filter (between (some x) hi false hiIncl) =
      above x (l.filter (between lo hi loIncl hiIncl)) := by
  rw [above, List.filter_filter]
  refine List.filter_congr fun y _ => ?_
  by_cases hxy : x < y
  · rw [between_of_lt hx hxy]
    simp [hxy]
  · have hn : between (some x) hi false hiIncl y = false := by
      rw [← Bool.not_eq_true]
      intro h
      exact hxy (lt_of_between_some h)
    simp [hn, hxy]

end Bounds

end Libkinetic.Base.Windows
