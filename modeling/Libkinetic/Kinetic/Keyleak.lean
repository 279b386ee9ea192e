import Libkinetic.Kinetic.Rangedup

/-! # Copies that fail

What `ki_keydup` leaves behind when a call of its allocator fails. Without the array nothing is left
to do. Without the copy of an element the array goes to `ki_keydestroy`, with a count of one less
than there are copies, and is then freed again: for the first element the count is the largest
`size_t`, and the array is read past its end; for a later one the last copy is still in use when the
array is freed for the second time. -/

namespace Libkinetic.Kinetic.Keyleak

open Libkinetic.Base.Blocks
open Rangedup (Iov Vec frags allocs dupLoop dupLoop_none kiKeydestroy freeBases
  kiKeydup_empty)

/-- The calls of `malloc` from the call `n` on succeed up to the call `n + m`, which fails. -/
structure FailsAt (ok : ℕ → Bool) (n m : ℕ) : Prop where
  before : ∀ j < m, ok (n + j) = true
  there : ok (n + m) = false

/-- **Null is returned, and everything is released**: what is in use was in use before. What was
allocated since has a new name, and to free a block twice has no result. -/
def Released (ok : ℕ → Bool) (key : Option Keyvec) (h : Heap) : Prop :=
  ∃ h', Rangedup.kiKeydup ok key h = some (none, h') ∧ h'.live = h.live

section Released
variable {ok : ℕ → Bool} {h : Heap} {k : Option Keyvec} {key rest : Keyvec} {iov : List Iov}
  {i m n new : ℕ}

theorem kiKeydup_noarray (hok : ok h.calls = false) : Released ok k h := by
  by_cases hk : frags k = []
  · exact ⟨h, kiKeydup_empty hk, rfl⟩
  · refine ⟨h.asked, ?_, rfl⟩
    rw [Rangedup.kiKeydup, if_neg hk, Heap.malloc_none hok]

/-- **Nothing comes of a copy without the memory for an element.** -/
theorem kiKeydup_none (hm : m + 1 < allocs k) (hfail : FailsAt ok h.calls (m + 1)) :
    Rangedup.kiKeydup ok k h = none := by
  have hk : frags k ≠ [] := by
    intro hnil
    rw [allocs, if_pos hnil] at hm
    exact Nat.not_lt_zero _ hm
  rw [allocs, if_neg hk] at hm
  have harray : ok h.calls = true := hfail.before 0 (Nat.succ_pos m)
  rw [Rangedup.kiKeydup, if_neg hk, Heap.malloc_some harray]
  refine dupLoop_none (by decide) hk ?_
  rintro ⟨-, hall⟩
  have htrue : ok (h.grown.calls + m) = true := hall m (by omega)
  have hfalse := hfail.there
  rw [Heap.calls_grown, Nat.add_right_comm, Nat.add_assoc] at htrue
  rw [htrue] at hfalse
  cases hfalse

theorem not_released (hm : m + 1 < allocs k) (hfail : FailsAt ok h.calls (m + 1)) :
    ¬ Released ok k h := by
  rintro ⟨h', hrun, -⟩
  rw [kiKeydup_none hm hfail] at hrun
  cases hrun

/-- **When a failed copy is cleaned up**: the allocation that fails is the first, of the array. -/
theorem keydup_released_iff (hm : m < allocs k) (hfail : FailsAt ok h.calls m) :
    Released ok k h ↔ m = 0 := by
  rcases m with _ | m
  · exact iff_of_true (kiKeydup_noarray hfail.there) rfl
  · exact iff_of_false (not_released hm hfail) (Nat.succ_ne_zero m)

/-- The call `m` alone fails. -/
def failing (m : ℕ) : ℕ → Bool := fun c => decide (c ≠ m)

theorem failsAt_failing (m : ℕ) : FailsAt (failing m) Heap.empty.calls m where
  before j hj := decide_eq_true (by rw [Heap.empty, Nat.zero_add]; omega)
  there := decide_eq_false (by rw [Heap.empty, Nat.zero_add]; exact not_not.mpr rfl)

def threeElems : Option Keyvec := some [[1], [2], [3]]

theorem threeElems_noarray : Released (failing 0) threeElems Heap.empty ↔ 0 = 0 :=
  keydup_released_iff (by decide) (failsAt_failing 0)

/-- **No memory for the first element**, for the second, or for the third. -/
theorem threeElems_not_released :
    ¬ Released (failing 1) threeElems Heap.empty ∧ ¬ Released (failing 2) threeElems Heap.empty ∧
      ¬ Released (failing 3) threeElems Heap.empty :=
  ⟨not_released (by decide) (failsAt_failing 1), not_released (by decide) (failsAt_failing 2),
    not_released (by decide) (failsAt_failing 3)⟩

/-! ### What is left -/

/-- The elements with their copies, which come from the calls of `malloc` from `n` on. -/
def copies : ℕ → Keyvec → List Iov
  | _, [] => []
  | n, b :: key => ⟨some n, b⟩ :: copies (n + 1) key

theorem copies_append : copies n (key ++ rest) = copies n key ++ copies (n + key.length) rest := by
  induction key generalizing n with
  | nil => rfl
  | cons b key ih =>
    rw [List.cons_append, copies, ih, copies, List.cons_append, List.length_cons,
      Nat.add_right_comm, Nat.add_assoc]

/-- The loop up to an element. -/
theorem dupLoop_append (hcnt : i + key.length < 2 ^ 31)
    (hok : ∀ j < key.length, ok (h.calls + j) = true) :
    dupLoop ok new i iov (key ++ rest) h =
      dupLoop ok new (i + key.length) (iov ++ copies h.calls key) rest
        (h.grownBy key.length) := by
  induction key generalizing i iov h with
  | nil => rw [copies, List.append_nil]; rfl
  | cons b key ih =>
    rw [List.length_cons] at hcnt hok
    have hfirst : ok h.calls = true := hok 0 (by omega)
    have hrest : ∀ j < key.length, ok (h.grown.calls + j) = true := by
      intro j hj
      have hnext := hok (j + 1) (by omega)
      rwa [Heap.calls_grown, Nat.add_right_comm]
    rw [List.cons_append, dupLoop, Heap.malloc_some hfirst]
    dsimp only
    rw [if_pos (by omega), ih (by omega) hrest, List.length_cons, copies, Heap.grownBy,
      Heap.calls_grown, List.append_assoc, List.singleton_append, Nat.add_right_comm, Nat.add_assoc]

/-- **`ki_keydestroy` frees the copies** that its count takes in, and no others. -/
theorem freeBases_copies (iov : List Iov) (hcnt : i + key.length < 2 ^ 31)
    (hlive : ∀ j < key.length, n + j ∈ h.live) :
    ∃ h', freeBases i (copies n key ++ iov) key.length h = some h' ∧
      ∀ p, p ∈ h'.live ↔ p ∈ h.live ∧ ¬ (n ≤ p ∧ p < n + key.length) := by
  induction key generalizing i n h with
  | nil =>
    refine ⟨h, by rw [List.length_nil, freeBases], fun p => ?_⟩
    rw [List.length_nil]
    exact ⟨fun hp => ⟨hp, by omega⟩, fun hp => hp.1⟩
  | cons b key ih =>
    rw [List.length_cons] at hcnt hlive
    have hfirst : n ∈ h.live := hlive 0 (by omega)
    obtain ⟨h₁, hfree, hlive₁⟩ := Heap.free_of_mem hfirst
    have hrest : ∀ j < key.length, n + 1 + j ∈ h₁.live := by
      intro j hj
      have hnext := hlive (j + 1) (by omega)
      rw [hlive₁, Nat.add_right_comm]
      exact ⟨hnext, by omega⟩
    obtain ⟨h', hrun, hlive'⟩ := ih (i := i + 1) (by omega) hrest
    refine ⟨h', ?_, fun p => ?_⟩
    · rw [copies, List.cons_append, List.length_cons, freeBases]
      dsimp only
      rw [hfree]
      dsimp only
      rw [if_pos (by omega), hrun]
    · rw [hlive', hlive₁, List.length_cons, and_assoc]
      refine and_congr_right fun _ => ?_
      omega

/-- A count that is too large for an `int` has no result. -/
theorem freeBases_overflow (hi : i < 2 ^ 31) (hcnt : 2 ^ 31 ≤ i + n) :
    freeBases i iov n h = none := by
  induction n generalizing i iov h with
  | zero => omega
  | succ n ih =>
    rcases iov with _ | ⟨⟨_ | p, bytes⟩, iov⟩
    · rfl
    · rw [freeBases]
      split_ifs with hnext
      · exact ih hnext (by omega)
      · rfl
    · rw [freeBases]
      dsimp only
      rcases h.free p with _ | h₁
      · rfl
      · dsimp only
        split_ifs with hnext
        · exact ih hnext (by omega)
        · rfl

/-- **The first element**: `ki_keydestroy` is called with the largest `size_t` as its count, and
reads past the array. -/
theorem first_element_fails {b : Key} (hfail : FailsAt ok h.calls 1) :
    let v : Vec := ⟨h.calls, List.replicate (rest.length + 1) {}⟩
    Rangedup.kiKeydup ok (some (b :: rest)) h =
        ((kiKeydestroy (some v) (2 ^ 64 - 1) h.grown.asked).bind fun h' =>
          (h'.free h.calls).map fun h => (none, h)) ∧
      kiKeydestroy (some v) (2 ^ 64 - 1) h.grown.asked = none := by
  have harray : ok h.calls = true := hfail.before 0 (by decide)
  have hthere : ok h.grown.calls = false := hfail.there
  have hne : frags (some (b :: rest)) ≠ [] := by simp [frags]
  have hfrags : frags (some (b :: rest)) = b :: rest := rfl
  have hcount : ((((0 : ℕ) : ℤ) - 1) % 2 ^ 64).toNat = 2 ^ 64 - 1 := by decide
  refine ⟨?_, ?_⟩
  · rw [Rangedup.kiKeydup, if_neg hne, Heap.malloc_some harray, hfrags]
    dsimp only
    rw [dupLoop, Heap.malloc_none hthere]
    dsimp only
    rw [hcount, List.nil_append]
  · rw [kiKeydestroy, freeBases_overflow (by decide) (by decide)]
    rfl

/-- What is in use when the array and the copies but the last are freed. -/
theorem destroyed_live {h₂ h₃ : Heap} {p : ℕ}
    (h₂live : p ∈ h₂.live ↔ p ∈ (h.grown.grownBy (n + 1)).live ∧ ¬ (h.calls + 1 ≤ p ∧
      p < h.calls + 1 + n))
    (h₃live : p ∈ h₃.live ↔ p ∈ h₂.live ∧ p ≠ h.calls) :
    p ∈ h₃.live ↔ p ∈ h.live ∨ p = h.calls + n + 1 := by
  rw [h₃live, h₂live, Heap.mem_grownBy, Heap.mem_grown, Heap.calls_grown]
  have hold : p ∈ h.live → p < h.calls := h.fresh p
  by_cases hp : p ∈ h.live
  · have hlt := hold hp
    simp only [hp, or_true, true_or, true_and, iff_true]
    omega
  · simp only [hp, or_false, false_or]
    omega

/-- **A later element**: the last copy is in use, and the array is not, when the array is freed
again. -/
theorem later_element_fails {a b : Key} (hcnt : key.length + 1 < 2 ^ 31)
    (hfail : FailsAt ok h.calls (key.length + 2)) :
    ∃ h' : Heap, (∀ p, p ∈ h'.live ↔ p ∈ h.live ∨ p = h.calls + key.length + 1) ∧
      Rangedup.kiKeydup ok (some (key ++ a :: b :: rest)) h =
        (h'.free h.calls).map fun h => (none, h) := by
  have harray : ok h.calls = true := hfail.before 0 (by omega)
  have hcopies : ∀ j < (key ++ [a]).length, ok (h.grown.calls + j) = true := by
    intro j hj
    rw [List.length_append, List.length_singleton] at hj
    have hnext := hfail.before (j + 1) (by omega)
    rwa [Heap.calls_grown, Nat.add_right_comm]
  have hlen : (key ++ [a]).length = key.length + 1 := by
    rw [List.length_append, List.length_singleton]
  have hthere : ok (h.grown.grownBy (key.length + 1)).calls = false := by
    have hfalse := hfail.there
    rwa [Heap.calls_grownBy, Heap.calls_grown, Nat.add_assoc, Nat.add_comm 1]
  -- the copies but the last are freed, and the array
  have hinuse : ∀ j < key.length,
      h.calls + 1 + j ∈ (h.grown.grownBy (key.length + 1)).asked.live := by
    intro j hj
    rw [Heap.live_asked, Heap.mem_grownBy, Heap.calls_grown]
    omega
  obtain ⟨h₂, hbases, hlive₂⟩ := freeBases_copies (i := 0)
    (copies (h.calls + 1 + key.length) [a] ++ List.replicate (rest.length + 1) ({} : Iov))
    (by omega) hinuse
  have hnew : h.calls ∈ h₂.live := by
    rw [hlive₂, Heap.live_asked, Heap.mem_grownBy]
    exact ⟨.inl h.calls_mem_grown, by omega⟩
  obtain ⟨h₃, hfree, hlive₃⟩ := Heap.free_of_mem hnew
  refine ⟨h₃, fun p => destroyed_live (hlive₂ p) (hlive₃ p), ?_⟩
  have hcount : ((((0 + (key.length + 1) : ℕ) : ℤ) - 1) % 2 ^ 64).toNat = key.length := by
    omega
  have hsplit : key ++ a :: b :: rest = (key ++ [a]) ++ b :: rest := by simp
  have hne : frags (some (key ++ a :: b :: rest)) ≠ [] := by simp [frags]
  have hfrags : frags (some (key ++ a :: b :: rest)) = (key ++ [a]) ++ b :: rest := hsplit
  rw [Rangedup.kiKeydup, if_neg hne, Heap.malloc_some harray, hfrags]
  dsimp only
  rw [dupLoop_append (by omega) hcopies, hlen, List.nil_append, dupLoop, Heap.malloc_none hthere]
  dsimp only
  rw [hcount, kiKeydestroy, Heap.calls_grown, copies_append, List.append_assoc]
  dsimp only
  rw [hbases, Option.bind_some, hfree, Option.bind_some]

end Released

end Libkinetic.Kinetic.Keyleak
