import Mathlib.Data.List.FinRange
import Mathlib.Data.Set.Function
import Mathlib.Data.Set.Card

/-! # The descriptors of a process

A process has its descriptors below a limit, and an open one refers to what was opened: a number
that is used once. `socket` opens the lowest free descriptor, `dup2` has one descriptor refer to what
another refers to, and `close` frees one even where it reports an error. A number that is no open
descriptor is refused and nothing happens. -/

namespace Libkinetic.Base.Descriptors

/-- What each descriptor refers to, and how much was opened so far. -/
structure Files (n : ℕ) where
  desc : Fin n → Option ℕ
  made : ℕ
  fresh : ∀ i, ∀ d ∈ desc i, d < made

namespace Files
variable {n : ℕ} {f f' : Files n} {i j : Fin n} {fd : ℤ} {ok : Bool}

/-- A process without open descriptors. -/
def empty (n : ℕ) : Files n where
  desc _ := none
  made := 0
  fresh _ _ h := by cases h

/-- The descriptor that a number is. -/
def index (n : ℕ) (fd : ℤ) : Option (Fin n) :=
  if h : 0 ≤ fd ∧ fd < n then some ⟨fd.toNat, by omega⟩ else none

/-- The lowest free descriptor. -/
def lowest (f : Files n) : Option (Fin n) := (List.finRange n).find? fun i => f.desc i = none

/-- Something new is opened. -/
def opened (f : Files n) (i : Fin n) : Files n where
  desc := Function.update f.desc i (some f.made)
  made := f.made + 1
  fresh j d hd := by
    by_cases h : j = i
    · subst h
      rw [Function.update_self, Option.mem_some_iff] at hd
      omega
    · rw [Function.update_of_ne h] at hd
      exact (f.fresh j d hd).trans (Nat.lt_succ_self _)

/-- `socket`; `ok` is whether the system has one. -/
def socket (f : Files n) (ok : Bool) : Option (Fin n) × Files n :=
  match if ok then f.lowest else none with
  | none => (none, f)
  | some i => (some i, f.opened i)

/-- A descriptor is made free. -/
def freed (f : Files n) (i : Fin n) : Files n where
  desc := Function.update f.desc i none
  made := f.made
  fresh j d hd := by
    by_cases h : j = i
    · subst h
      rw [Function.update_self] at hd
      cases hd
    · rw [Function.update_of_ne h] at hd
      exact f.fresh j d hd

/-- `close` -/
def close (f : Files n) (fd : ℤ) : Files n := (index n fd).elim f f.freed

/-- A descriptor is made to refer to what another refers to. -/
def copied (f : Files n) (i j : Fin n) : Files n where
  desc := Function.update f.desc j (f.desc i)
  made := f.made
  fresh k d hd := by
    by_cases h : k = j
    · subst h
      rw [Function.update_self] at hd
      exact f.fresh i d hd
    · rw [Function.update_of_ne h] at hd
      exact f.fresh k d hd

/-- `dup2`, and whether it was refused. -/
def dup2 (f : Files n) (i : Fin n) (fd : ℤ) : Option (Files n) :=
  if f.desc i = none then none else (index n fd).map (f.copied i)

/-! ### What the calls do -/

theorem index_coe (i : Fin n) : index n i = some i := by
  have h : 0 ≤ (i : ℤ) ∧ (i : ℤ) < n := by omega
  rw [index, dif_pos h]
  congr

theorem index_eq_some : index n fd = some i ↔ fd = i := by
  constructor
  · intro h
    unfold index at h
    split_ifs at h with hfd
    have := congrArg Fin.val (Option.some.inj h)
    simp only at this
    omega
  · rintro rfl
    exact index_coe i

theorem index_neg (h : fd < 0) : index n fd = none := by
  rw [index, dif_neg (by omega)]

theorem lowest_free (h : f.lowest = some i) : f.desc i = none := by
  have := List.find?_some (p := fun i => f.desc i = none) h
  exact of_decide_eq_true this

theorem socket_cases (f : Files n) (ok : Bool) :
    f.socket ok = (none, f) ∨ ∃ i, f.desc i = none ∧ f.socket ok = (some i, f.opened i) := by
  unfold socket
  cases hi : if ok then f.lowest else none with
  | none => exact .inl rfl
  | some i =>
    refine .inr ⟨i, ?_, rfl⟩
    cases ok
    · cases hi
    · exact lowest_free hi

@[simp] theorem desc_opened_self : (f.opened i).desc i = some f.made := Function.update_self ..

theorem desc_opened_of_ne (h : j ≠ i) : (f.opened i).desc j = f.desc j := Function.update_of_ne h ..

@[simp] theorem desc_freed_self : (f.freed i).desc i = none := Function.update_self ..

theorem desc_freed_of_ne (h : j ≠ i) : (f.freed i).desc j = f.desc j := Function.update_of_ne h ..

@[simp] theorem desc_copied_self : (f.copied i j).desc j = f.desc i := Function.update_self ..

theorem desc_copied_of_ne {k : Fin n} (h : k ≠ j) : (f.copied i j).desc k = f.desc k :=
  Function.update_of_ne h ..

@[simp] theorem close_coe (i : Fin n) : f.close i = f.freed i := by
  rw [close, index_coe, Option.elim_some]

theorem close_neg (h : fd < 0) : f.close fd = f := by
  rw [close, index_neg h, Option.elim_none]

/-- To open and to close leaves no trace among the descriptors. -/
theorem desc_freed_opened (h : f.desc i = none) : ((f.opened i).freed i).desc = f.desc := by
  funext j
  by_cases hj : j = i
  · subst hj
    rw [desc_freed_self, h]
  · rw [desc_freed_of_ne hj, desc_opened_of_ne hj]

/-- `dup2` succeeds on two descriptors, of which one is open. -/
theorem dup2_eq_some (h : f.dup2 i fd = some f') :
    ∃ j : Fin n, fd = j ∧ f.desc i ≠ none ∧ f' = f.copied i j := by
  unfold dup2 at h
  split_ifs at h with hi
  obtain ⟨j, hj, rfl⟩ := Option.map_eq_some_iff.mp h
  exact ⟨j, index_eq_some.mp hj, hi, rfl⟩

theorem dup2_neg (h : fd < 0) : f.dup2 i fd = none := by
  rw [dup2, index_neg h, Option.map_none, ite_self]

/-- The open descriptors. -/
def isOpen (f : Files n) : Set (Fin n) := {i | f.desc i ≠ none}

theorem mem_isOpen : i ∈ f.isOpen ↔ f.desc i ≠ none := Iff.rfl

/-- There are no more than the limit. -/
theorem ncard_isOpen_le : f.isOpen.ncard ≤ n := by
  calc f.isOpen.ncard ≤ (Set.univ : Set (Fin n)).ncard := Set.ncard_le_ncard (Set.subset_univ _)
    _ = n := by rw [Set.ncard_univ, Nat.card_eq_fintype_card, Fintype.card_fin]

end Files

end Libkinetic.Base.Descriptors
