import Mathlib.Data.List.Lex
import Mathlib.Order.Bounds.Basic
import Mathlib.Order.BoundedOrder.Basic

/-! # Lists of bounded length in lexicographic order

Among the nonempty lists of at most `n` elements the first is the least element alone, and the last
is the greatest element `n` times. -/

namespace Libkinetic.Base.Lexicographic

variable {α : Type*} [LinearOrder α]

/-- The nonempty lists of at most `n` elements. -/
def bounded (α : Type*) (n : ℕ) : Set (List α) := {l | l ≠ [] ∧ l.length ≤ n}

theorem nil_le (l : List α) : [] ≤ l := by
  rcases l with _ | ⟨a, l⟩
  · exact le_rfl
  · exact le_of_lt List.Lex.nil

/-- Heads and tails in order. -/
theorem cons_le_of_le {a b : α} {l m : List α} (hab : a ≤ b) (hlm : l ≤ m) : a :: l ≤ b :: m := by
  rcases hab.lt_or_eq with hlt | rfl
  · exact le_of_lt (List.Lex.rel hlt)
  · exact List.cons_le_cons a hlm

theorem le_replicate_top [OrderTop α] {n : ℕ} {l : List α} (hl : l.length ≤ n) :
    l ≤ List.replicate n ⊤ := by
  induction l generalizing n with
  | nil => exact nil_le _
  | cons a l ih =>
    obtain ⟨n, rfl⟩ : ∃ m, n = m + 1 := ⟨n - 1, by rw [List.length_cons] at hl; omega⟩
    rw [List.replicate_succ]
    exact cons_le_of_le le_top (ih (Nat.le_of_succ_le_succ hl))

theorem singleton_bot_le [OrderBot α] {l : List α} (hl : l ≠ []) : [⊥] ≤ l := by
  rcases l with _ | ⟨a, l⟩
  · exact absurd rfl hl
  · exact cons_le_of_le bot_le (nil_le l)

/-- **The first list.** -/
theorem isLeast_singleton_bot [OrderBot α] {n : ℕ} (hn : 1 ≤ n) :
    IsLeast (bounded α n) [⊥] :=
  ⟨⟨List.cons_ne_nil _ _, hn⟩, fun _ hl => singleton_bot_le hl.1⟩

/-- **The last list.** -/
theorem isGreatest_replicate_top [OrderTop α] {n : ℕ} (hn : 1 ≤ n) :
    IsGreatest (bounded α n) (List.replicate n ⊤) := by
  refine ⟨⟨fun hnil => ?_, List.length_replicate.le⟩, fun _ hl => le_replicate_top hl.2⟩
  rw [List.replicate_eq_nil_iff] at hnil
  omega

end Libkinetic.Base.Lexicographic
