import Mathlib.Data.Finset.Basic

/-! # Blocks of an allocator

A heap is the set of the blocks in use. Which calls of `malloc` succeed is given beforehand, and a
block is named by the number of the call that it comes from, so that no name is used twice. To free
what is not in use has no result. -/

namespace Libkinetic.Base.Blocks

/-- The blocks in use, and how often `malloc` was called. -/
structure Heap where
  live : Finset ℕ
  calls : ℕ
  fresh : ∀ p ∈ live, p < calls

namespace Heap
variable {ok : ℕ → Bool} {h h' : Heap} {p q : ℕ}

/-- The heap without blocks. -/
def empty : Heap where
  live := ∅
  calls := 0
  fresh p hp := absurd hp (Finset.notMem_empty p)

/-- The heap after a call that succeeds. -/
def grown (h : Heap) : Heap where
  live := insert h.calls h.live
  calls := h.calls + 1
  fresh p hp := by
    rcases Finset.mem_insert.mp hp with rfl | hp
    · exact Nat.lt_succ_self _
    · exact (h.fresh p hp).trans (Nat.lt_succ_self _)

/-- The heap after a call that fails. -/
def asked (h : Heap) : Heap where
  live := h.live
  calls := h.calls + 1
  fresh p hp := (h.fresh p hp).trans (Nat.lt_succ_self _)

/-- `malloc` -/
def malloc (ok : ℕ → Bool) (h : Heap) : Option ℕ × Heap :=
  if ok h.calls then (some h.calls, h.grown) else (none, h.asked)

/-- `free` -/
def free (h : Heap) (p : ℕ) : Option Heap :=
  if p ∈ h.live then
    some ⟨h.live.erase p, h.calls, fun q hq => h.fresh q (Finset.mem_of_mem_erase hq)⟩
  else none

@[simp] theorem calls_grown (h : Heap) : h.grown.calls = h.calls + 1 := rfl
@[simp] theorem calls_asked (h : Heap) : h.asked.calls = h.calls + 1 := rfl
@[simp] theorem live_asked (h : Heap) : h.asked.live = h.live := rfl

theorem mem_grown : p ∈ h.grown.live ↔ p = h.calls ∨ p ∈ h.live := Finset.mem_insert

theorem calls_mem_grown (h : Heap) : h.calls ∈ h.grown.live := mem_grown.mpr (.inl rfl)

theorem subset_grown (h : Heap) : h.live ⊆ h.grown.live := Finset.subset_insert _ _

theorem malloc_some (hok : ok h.calls = true) : malloc ok h = (some h.calls, h.grown) := if_pos hok

theorem malloc_none (hok : ok h.calls = false) : malloc ok h = (none, h.asked) :=
  if_neg (Bool.eq_false_iff.mp hok)

/-- What was freed is not in use. -/
theorem notMem_of_free (hfree : h.free p = some h') : p ∉ h'.live := by
  unfold free at hfree
  split_ifs at hfree
  obtain rfl := Option.some.inj hfree
  exact Finset.notMem_erase p h.live

/-- **Nothing is freed twice.** -/
theorem free_twice (hfree : h.free p = some h') : h'.free p = none :=
  if_neg (notMem_of_free hfree)

/-- A block that is freed stays so, whatever is freed after it. -/
theorem notMem_free (hp : p ∉ h.live) (hfree : h.free q = some h') : p ∉ h'.live := by
  unfold free at hfree
  split_ifs at hfree
  obtain rfl := Option.some.inj hfree
  exact fun hmem => hp (Finset.mem_of_mem_erase hmem)

/-- The heap after some calls that succeed. -/
def grownBy : ℕ → Heap → Heap
  | 0, h => h
  | n + 1, h => grownBy n h.grown

@[simp] theorem calls_grownBy (n : ℕ) (h : Heap) : (grownBy n h).calls = h.calls + n := by
  induction n generalizing h with
  | zero => rfl
  | succ n ih => rw [grownBy, ih, calls_grown, Nat.add_right_comm, Nat.add_assoc]

theorem mem_grownBy {n : ℕ} :
    p ∈ (grownBy n h).live ↔ p ∈ h.live ∨ h.calls ≤ p ∧ p < h.calls + n := by
  induction n generalizing h with
  | zero =>
    rw [grownBy]
    exact ⟨.inl, fun hp => hp.resolve_right (by omega)⟩
  | succ n ih =>
    rw [grownBy, ih, mem_grown, calls_grown, or_comm (a := p = h.calls), or_assoc]
    refine or_congr_right ?_
    omega

theorem mem_of_free (hfree : h.free p = some h') : q ∈ h'.live ↔ q ∈ h.live ∧ q ≠ p := by
  unfold free at hfree
  split_ifs at hfree
  obtain rfl := Option.some.inj hfree
  exact Finset.mem_erase.trans and_comm

theorem free_of_mem (hp : p ∈ h.live) :
    ∃ h', h.free p = some h' ∧ ∀ q, q ∈ h'.live ↔ q ∈ h.live ∧ q ≠ p :=
  ⟨_, if_pos hp, fun _ => mem_of_free (if_pos hp)⟩

/-- A block that is freed at once, when the next call has failed. -/
theorem free_asked_grown (h : Heap) :
    ∃ h', h.grown.asked.free h.calls = some h' ∧ h'.live = h.live := by
  refine ⟨_, if_pos h.calls_mem_grown, ?_⟩
  exact Finset.erase_insert fun hmem => (h.fresh _ hmem).false

end Heap

end Libkinetic.Base.Blocks
