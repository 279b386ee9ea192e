import Mathlib.Tactic

/-! # Lock traces

What one thread does with the mutexes of an ordered set, as the list of its calls of lock and
unlock. A trace is orderly if every mutex is locked while only earlier ones are held, so never one
that the thread holds already; it is clean if it also holds nothing in the end. Clean traces can be
put one after the other, and a clean trace on later mutexes can be put inside a section. -/

namespace Libkinetic.Base.Locks

variable {M : Type*}

/-- A call of lock or of unlock. -/
inductive LockEv (M : Type*)
  | lock (m : M)
  | unlock (m : M)
deriving DecidableEq

/-- A section under one mutex, with nothing else locked in it. -/
def critical (m : M) : List (LockEv M) := [.lock m, .unlock m]

section After
variable [DecidableEq M]

/-- The mutexes held after a trace. -/
def heldAfter : List M → List (LockEv M) → List M
  | held, [] => held
  | held, .lock m :: tr => heldAfter (m :: held) tr
  | held, .unlock m :: tr => heldAfter (held.erase m) tr

theorem heldAfter_append (held : List M) (t1 t2 : List (LockEv M)) :
    heldAfter held (t1 ++ t2) = heldAfter (heldAfter held t1) t2 := by
  induction t1 generalizing held with
  | nil => rfl
  | cons ev t1 ih =>
    cases ev with
    | lock m => exact ih (m :: held)
    | unlock m => exact ih (held.erase m)

end After

variable [LinearOrder M] {held : List M} {m : M} {t1 t2 tr : List (LockEv M)}

/-- Every mutex comes after all that are held when it is locked. -/
def Orderly : List M → List (LockEv M) → Prop
  | _, [] => True
  | held, .lock m :: tr => (∀ h ∈ held, h < m) ∧ Orderly (m :: held) tr
  | held, .unlock m :: tr => Orderly (held.erase m) tr

theorem orderly_append :
    Orderly held (t1 ++ t2) ↔ Orderly held t1 ∧ Orderly (heldAfter held t1) t2 := by
  induction t1 generalizing held with
  | nil => exact (and_iff_right trivial).symm
  | cons ev t1 ih =>
    cases ev with
    | lock m =>
      show _ ∧ Orderly (m :: held) (t1 ++ t2) ↔ _
      rw [ih, ← and_assoc]
      rfl
    | unlock m => exact ih

/-- What a lock order asks of a trace: no mutex is locked that is held, and all that are held come
before it. -/
def Disciplined (tr : List (LockEv M)) : Prop :=
  ∀ t1 m t2, tr = t1 ++ .lock m :: t2 →
    m ∉ heldAfter [] t1 ∧ ∀ h ∈ heldAfter [] t1, h < m

/-- **An orderly trace keeps to the lock order.** -/
theorem Orderly.disciplined (h : Orderly [] tr) : Disciplined tr := by
  rintro t1 m t2 rfl
  have hlt := (orderly_append.mp h).2.1
  exact ⟨fun hm => lt_irrefl m (hlt m hm), hlt⟩

/-- Between two sections: nothing was locked out of order, and nothing is held. -/
structure Clean (held : List M) (tr : List (LockEv M)) : Prop where
  orderly : Orderly held tr
  released : heldAfter held tr = held

theorem Clean.nil : Clean held [] := ⟨trivial, rfl⟩

theorem Clean.append (h1 : Clean held t1) (h2 : Clean held t2) : Clean held (t1 ++ t2) where
  orderly := orderly_append.mpr ⟨h1.orderly, by rw [h1.released]; exact h2.orderly⟩
  released := by rw [heldAfter_append, h1.released, h2.released]

/-- **A section** around a clean trace on later mutexes. -/
theorem Clean.inside (hm : ∀ h ∈ held, h < m) (h : Clean (m :: held) tr) :
    Clean held (.lock m :: tr ++ [.unlock m]) := by
  constructor
  · refine ⟨hm, orderly_append.mpr ⟨h.orderly, ?_⟩⟩
    rw [h.released]
    trivial
  · show heldAfter (m :: held) (tr ++ [.unlock m]) = held
    rw [heldAfter_append, h.released]
    exact List.erase_cons_head m held

theorem Clean.critical (hm : ∀ h ∈ held, h < m) : Clean held (critical m) := .inside hm .nil

theorem Clean.replicate (h : Clean held tr) (n : ℕ) :
    Clean held (List.replicate n tr).flatten := by
  induction n with
  | zero => exact .nil
  | succ n ih => exact h.append ih

end Libkinetic.Base.Locks
