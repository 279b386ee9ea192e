import Mathlib.Algebra.BigOperators.Group.Finset.Basic
import Mathlib.Algebra.Order.BigOperators.Group.Finset
import Mathlib.Data.Multiset.Basic
import Mathlib.Tactic

/-! # Custody of tokens

Tokens enter a system once, are passed between finitely many places, and leave it once. A ledger
says what every place holds, which tokens have entered and which have left. The *moves* are the
three things an honest system does; a ledger is *balanced* if nothing was lost or copied: what is
held, together with what has left, is what has entered, and no token entered twice. Moves keep the
balance (`Move.balanced`), and in a balanced ledger a token that has not left is held exactly once,
at exactly one place (`Balanced.existsUnique`). -/

namespace Libkinetic.Base.Custody

variable {P T : Type*}

/-- What each place holds, and the tokens that have entered and left. -/
structure Ledger (P T : Type*) where
  held : P → Multiset T
  entered : Multiset T
  left : Multiset T

/-- Nothing is lost and nothing is copied. -/
structure Balanced [Fintype P] (l : Ledger P T) : Prop where
  sum : ∑ p, l.held p + l.left = l.entered
  nodup : l.entered.Nodup

/-- **The moves** of an honest system. -/
inductive Move : Ledger P T → Ledger P T → Prop
  /-- A new token arrives at `p`. -/
  | enter {l l' : Ledger P T} (p : P) (t : T) (h : t ∉ l.entered)
      (hp : l'.held p = t ::ₘ l.held p) (ho : ∀ r, r ≠ p → l'.held r = l.held r)
      (he : l'.entered = t ::ₘ l.entered) (hl : l'.left = l.left) : Move l l'
  /-- A token goes from `p` to another place `q`. -/
  | pass {l l' : Ledger P T} (p q : P) (t : T) (hpq : p ≠ q)
      (hp : l.held p = t ::ₘ l'.held p) (hq : l'.held q = t ::ₘ l.held q)
      (ho : ∀ r, r ≠ p → r ≠ q → l'.held r = l.held r)
      (he : l'.entered = l.entered) (hl : l'.left = l.left) : Move l l'
  /-- A token leaves from `p`. -/
  | leave {l l' : Ledger P T} (p : P) (t : T) (hp : l.held p = t ::ₘ l'.held p)
      (ho : ∀ r, r ≠ p → l'.held r = l.held r)
      (he : l'.entered = l.entered) (hl : l'.left = t ::ₘ l.left) : Move l l'

/-- Any number of moves. -/
abbrev Moves : Ledger P T → Ledger P T → Prop := Relation.ReflTransGen Move

section Sum
variable [Fintype P]

/-- Two holdings that differ at one place only. -/
theorem sum_of_eq_off {f g : P → Multiset T} (p : P) {m : Multiset T} (hp : f p = g p + m)
    (ho : ∀ r, r ≠ p → f r = g r) : ∑ x, f x = ∑ x, g x + m := by
  classical
  have h : ∑ x ∈ Finset.univ.erase p, f x = ∑ x ∈ Finset.univ.erase p, g x :=
    Finset.sum_congr rfl fun r hr => ho r (Finset.ne_of_mem_erase hr)
  rw [← Finset.add_sum_erase _ f (Finset.mem_univ p), ← Finset.add_sum_erase _ g (Finset.mem_univ p),
    h, hp]
  abel

theorem sum_cons_of_eq_off {f g : P → Multiset T} (p : P) {t : T} (hp : f p = t ::ₘ g p)
    (ho : ∀ r, r ≠ p → f r = g r) : ∑ x, f x = t ::ₘ ∑ x, g x := by
  have h : f p = g p + {t} := by rw [hp, add_comm, Multiset.singleton_add]
  rw [sum_of_eq_off p h ho, add_comm, Multiset.singleton_add]

end Sum

/-- **Moves keep the balance.** -/
theorem Move.balanced [Fintype P] {l l' : Ledger P T} (h : Move l l') (hb : Balanced l) :
    Balanced l' := by
  classical
  cases h with
  | enter p t h hp ho he hl =>
    refine ⟨?_, he ▸ Multiset.nodup_cons.mpr ⟨h, hb.nodup⟩⟩
    rw [sum_cons_of_eq_off p hp ho, he, hl, Multiset.cons_add, hb.sum]
  | pass p q t hpq hp hq ho he hl =>
    refine ⟨?_, he ▸ hb.nodup⟩
    -- `mid` is the ledger while the token is under way
    set mid : P → Multiset T := Function.update l.held p (l'.held p) with hmid
    have h1 : ∑ x, l.held x = t ::ₘ ∑ x, mid x :=
      sum_cons_of_eq_off p (by simp [hmid, hp]) fun r hr => by simp [hmid, hr]
    have h2 : ∑ x, l'.held x = t ::ₘ ∑ x, mid x := by
      refine sum_cons_of_eq_off q (by simp [hmid, hpq.symm, hq]) fun r hr => ?_
      by_cases hrp : r = p
      · subst hrp; simp [hmid]
      · simp [hmid, hrp, ho r hrp hr]
    rw [h2, ← h1, he, hl, hb.sum]
  | leave p t hp ho he hl =>
    refine ⟨?_, he ▸ hb.nodup⟩
    have h1 := sum_cons_of_eq_off p hp fun r hr => (ho r hr).symm
    rw [he, hl, ← hb.sum, h1, Multiset.add_cons, Multiset.cons_add]

theorem Moves.balanced [Fintype P] {l l' : Ledger P T} (h : Moves l l')
    (hb : Balanced l) : Balanced l' := by
  induction h with
  | refl => exact hb
  | tail _ hm ih => exact hm.balanced ih

theorem balanced_empty [Fintype P] : Balanced (⟨fun _ => 0, 0, 0⟩ : Ledger P T) :=
  ⟨by simp, Multiset.nodup_zero⟩

/-! ### What a balanced ledger says about one token -/

section Balanced
variable [Fintype P] [DecidableEq T] {l : Ledger P T} (hb : Balanced l)
include hb

theorem Balanced.count_sum (t : T) :
    ∑ p, (l.held p).count t + l.left.count t = l.entered.count t := by
  rw [← hb.sum, Multiset.count_add, Multiset.count_sum']

theorem Balanced.count_sum_le (t : T) : ∑ p, (l.held p).count t ≤ 1 := by
  have h1 := hb.count_sum t
  have h2 := Multiset.nodup_iff_count_le_one.mp hb.nodup t
  omega

omit hb in
theorem count_le_sum (l : Ledger P T) (p : P) (t : T) :
    (l.held p).count t ≤ ∑ x, (l.held x).count t := by
  have h : ∑ x ∈ {p}, (l.held x).count t ≤ ∑ x, (l.held x).count t :=
    Finset.sum_le_sum_of_subset (Finset.subset_univ _)
  rwa [Finset.sum_singleton] at h

/-- No place holds a token twice. -/
theorem Balanced.count_le_one (p : P) (t : T) : (l.held p).count t ≤ 1 :=
  (count_le_sum l p t).trans (hb.count_sum_le t)

/-- A token is held at one place only. -/
theorem Balanced.place_unique {p q : P} {t : T} (hp : t ∈ l.held p) (hq : t ∈ l.held q) :
    p = q := by
  classical
  by_contra hne
  have h1 := Multiset.one_le_count_iff_mem.mpr hp
  have h2 := Multiset.one_le_count_iff_mem.mpr hq
  have h3 := hb.count_sum_le t
  have h4 : ∑ x ∈ {p, q}, (l.held x).count t ≤ ∑ x, (l.held x).count t :=
    Finset.sum_le_sum_of_subset (Finset.subset_univ _)
  rw [Finset.sum_pair hne] at h4
  omega

omit [DecidableEq T] in
theorem Balanced.entered_of_held {p : P} {t : T} (hp : t ∈ l.held p) : t ∈ l.entered := by
  rw [← hb.sum]
  exact Multiset.mem_add.mpr (Or.inl (Multiset.mem_sum.mpr ⟨p, Finset.mem_univ p, hp⟩))

/-- A token that has left is held nowhere. -/
theorem Balanced.not_held_of_left {p : P} {t : T} (hl : t ∈ l.left) : t ∉ l.held p := by
  intro hp
  have h1 := hb.count_sum t
  have h2 := Multiset.nodup_iff_count_le_one.mp hb.nodup t
  have h3 := Multiset.one_le_count_iff_mem.mpr hl
  have h4 := Multiset.one_le_count_iff_mem.mpr hp
  have h5 := count_le_sum l p t
  omega

omit [DecidableEq T] in
theorem Balanced.entered_of_left {t : T} (hl : t ∈ l.left) : t ∈ l.entered := by
  rw [← hb.sum]
  exact Multiset.mem_add.mpr (Or.inr hl)

/-- **Exactly one place** holds a token that has entered and not left, and holds it once. -/
theorem Balanced.existsUnique {t : T} (he : t ∈ l.entered) (hl : t ∉ l.left) :
    ∃! p, t ∈ l.held p := by
  rw [← hb.sum] at he
  obtain ⟨p, -, hp⟩ := Multiset.mem_sum.mp ((Multiset.mem_add.mp he).resolve_right hl)
  exact ⟨p, hp, fun q hq => hb.place_unique hq hp⟩

end Balanced

end Libkinetic.Base.Custody
