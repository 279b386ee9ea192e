import Libkinetic.Base.Custody
import Libkinetic.Ktli.Step

/-! # Who holds which kio

What the custody of kios depends on is a small part of a session: the elements of the queues, the
back pointers, and the kios in the hands of a caller, of the sender and of the receiver. That part
is the session's `View`; a `Shift` is one of the five things that may happen to a kio there. A shift
that removes a kio from a queue needs a predicate to hold of it, the kios it acts for. Shifts keep a
view sound (`Shift.sound`). -/

namespace Libkinetic.Ktli

open Libkinetic.Base.CursorList Libkinetic.Base.Custody

inductive Hand
  /-- A caller inside `ktli_send`. -/
  | caller
  | sender
  | receiver
deriving DecidableEq

inductive Place
  | hand (h : Hand)
  | queue (q : QId)
deriving DecidableEq

instance : Fintype Place :=
  ⟨{.hand .caller, .hand .sender, .hand .receiver, .queue .sendq, .queue .recvq, .queue .compq},
    fun p => by rcases p with ⟨_ | _ | _⟩ | ⟨_ | _ | _⟩ <;> decide⟩

@[ext] structure View where
  items : QId → List (ℕ × KioId)
  qbp : KioId → Option ℕ
  nextNode : ℕ
  hand : Hand → Multiset KioId
  issued : List KioId
  accepted : List KioId
  returned : List KioId

namespace View

/-- A kio more in a hand. -/
def give (v : View) (h : Hand) (k : KioId) : View :=
  { v with hand := Function.update v.hand h (k ::ₘ v.hand h) }

/-- A new kio. -/
def issue (v : View) (k : KioId) : View :=
  { v with issued := k :: v.issued, qbp := Function.update v.qbp k none }

/-- A kio in a new element at the rear of a queue. -/
def link (v : View) (q : QId) (k : KioId) : View :=
  { v with
    items := Function.update v.items q (v.items q ++ [(v.nextNode, k)])
    qbp := Function.update v.qbp k (some v.nextNode)
    nextNode := v.nextNode + 1 }

/-- The element at a position of a queue is gone, and its kio's back pointer. -/
def unlink (v : View) (q : QId) (i : ℕ) (k : KioId) : View :=
  { v with
    items := Function.update v.items q ((v.items q).eraseIdx i)
    qbp := Function.update v.qbp k none }

def accept (v : View) (k : KioId) : View := { v with accepted := k :: v.accepted }

def handBack (v : View) (k : KioId) : View := { v with returned := k :: v.returned }

def data (v : View) (q : QId) : List KioId := (v.items q).map Prod.snd

def held (v : View) : Place → Multiset KioId
  | .hand h => v.hand h
  | .queue q => v.data q

def ledger (v : View) : Ledger Place KioId := ⟨v.held, v.issued, v.returned⟩

section Fields
variable (v : View) (h : Hand) (q : QId) (k : KioId)

@[simp] theorem items_give : (v.give h k).items = v.items := rfl
@[simp] theorem qbp_give : (v.give h k).qbp = v.qbp := rfl
@[simp] theorem nextNode_give : (v.give h k).nextNode = v.nextNode := rfl
@[simp] theorem issued_give : (v.give h k).issued = v.issued := rfl
@[simp] theorem issued_link : (v.link q k).issued = v.issued := rfl
@[simp] theorem issued_accept : (v.accept k).issued = v.issued := rfl
@[simp] theorem hand_link : (v.link q k).hand = v.hand := rfl
@[simp] theorem hand_accept : (v.accept k).hand = v.hand := rfl
@[simp] theorem hand_handBack : (v.handBack k).hand = v.hand := rfl
@[simp] theorem entered_ledger : v.ledger.entered = v.issued := rfl

end Fields

/-- **Soundness**: nothing lost and nothing twice, every element of a queue is the one its kio
points back to, and no accepted kio is still with its caller. -/
structure Sound (v : View) : Prop where
  balanced : Balanced v.ledger
  nodes : ∀ q, ((v.items q).map Prod.fst).Nodup
  old : ∀ q, ∀ p ∈ v.items q, p.1 < v.nextNode
  qbp : ∀ q, ∀ p ∈ v.items q, v.qbp p.2 = some p.1
  accepted : ∀ k ∈ v.accepted, k ∈ v.issued ∧ k ∉ v.hand .caller

end View

/-- **Shifts**; `P` holds of the kios that may be removed from a queue. -/
inductive Shift (P : KioId → Prop) : View → View → Prop
  | enter {v : View} (h : Hand) (k : KioId) (hk : k ∉ v.issued) : Shift P v ((v.issue k).give h k)
  | link {v : View} (h : Hand) (hh : h ≠ .caller) (q : QId) (k : KioId) :
      Shift P (v.give h k) (v.link q k)
  | accept {v : View} (q : QId) (k : KioId) :
      Shift P (v.give .caller k) ((v.link q k).accept k)
  | unlink {v : View} (h : Hand) (hh : h ≠ .caller) (q : QId) (i n : ℕ) (k : KioId) (hk : P k)
      (hi : (v.items q)[i]? = some (n, k)) : Shift P v ((v.unlink q i k).give h k)
  | drop {v : View} (h : Hand) (k : KioId) : Shift P (v.give h k) (v.handBack k)

abbrev Shifts (P : KioId → Prop) : View → View → Prop := Relation.ReflTransGen (Shift P)

/-! ### Shifts are moves of the ledger -/

section Held
variable (v : View) (h : Hand) (q : QId) (k : KioId)

theorem held_give (p : Place) :
    (v.give h k).held p = if p = .hand h then k ::ₘ v.held p else v.held p := by
  rcases p with g | r
  · by_cases hg : g = h
    · subst hg; simp [View.held, View.give]
    · simp [View.held, View.give, hg]
  · rfl

theorem held_link (p : Place) :
    (v.link q k).held p = if p = .queue q then k ::ₘ v.held p else v.held p := by
  rcases p with g | r
  · rfl
  · by_cases hr : r = q
    · subst hr
      have : (v.link r k).data r = v.data r ++ [k] := by simp [View.data, View.link]
      simp only [View.held, if_true, this]
      exact Multiset.coe_eq_coe.mpr (List.perm_append_singleton k _)
    · simp [View.held, View.data, View.link, hr]

theorem held_unlink {i n : ℕ} (hi : (v.items q)[i]? = some (n, k)) (p : Place) :
    v.held p = if p = .queue q then k ::ₘ (v.unlink q i k).held p else (v.unlink q i k).held p := by
  rcases p with g | r
  · rfl
  · by_cases hr : r = q
    · subst hr
      have h1 : (v.unlink r i k).data r = ((v.items r).eraseIdx i).map Prod.snd := by
        simp [View.data, View.unlink]
      simp only [View.held, if_true, h1]
      exact Multiset.coe_eq_coe.mpr ((perm_eraseIdx hi).map Prod.snd)
    · simp [View.held, View.data, View.unlink, hr]

end Held

theorem Shift.move {P : KioId → Prop} {v v' : View} (h : Shift P v v') :
    Move v.ledger v'.ledger := by
  cases h with
  | enter h k hk =>
    refine .enter (.hand h) k (by simpa using hk) ?_ (fun r hr => ?_) rfl rfl
    · exact (held_give _ h k _).trans (if_pos rfl)
    · exact (held_give _ h k _).trans (if_neg hr)
  | @link w h hh q k =>
    refine .pass (.hand h) (.queue q) k (by simp) ?_ ?_ (fun r h1 h2 => ?_) rfl rfl
    · exact (held_give _ h k _).trans (if_pos rfl)
    · exact (held_link _ q k _).trans (if_pos rfl)
    · exact ((held_link _ q k r).trans (if_neg h2)).trans
        ((held_give w h k r).trans (if_neg h1)).symm
  | @accept w q k =>
    refine .pass (.hand .caller) (.queue q) k (by simp) ?_ ?_ (fun r h1 h2 => ?_) rfl rfl
    · exact (held_give _ .caller k _).trans (if_pos rfl)
    · exact (held_link _ q k _).trans (if_pos rfl)
    · exact ((held_link _ q k r).trans (if_neg h2)).trans
        ((held_give w .caller k r).trans (if_neg h1)).symm
  | unlink h hh q i n k hk hi =>
    refine .pass (.queue q) (.hand h) k (by simp) ?_ ?_ (fun r h1 h2 => ?_) rfl rfl
    · exact (held_unlink v q k hi _).trans (if_pos rfl)
    · exact (held_give _ h k _).trans (if_pos rfl)
    · exact ((held_give _ h k r).trans (if_neg h2)).trans
        ((held_unlink v q k hi r).trans (if_neg h1)).symm
  | @drop w h k =>
    refine .leave (.hand h) k ?_ (fun r hr => ?_) rfl rfl
    · exact (held_give _ h k _).trans (if_pos rfl)
    · exact ((held_give w h k r).trans (if_neg hr)).symm

/-! ### Shifts keep a view sound -/

namespace View

/-- A kio in a hand is on no queue. -/
theorem Sound.not_mem_of_give {v : View} {h : Hand} {k : KioId} (hv : (v.give h k).Sound)
    (q : QId) :
    k ∉ v.data q := by
  intro hq
  have h1 : k ∈ (v.give h k).ledger.held (.hand h) := by simp [ledger, held_give]
  have h2 : k ∈ (v.give h k).ledger.held (.queue q) := by
    simpa [ledger, held, give, data] using hq
  exact absurd (hv.balanced.place_unique h1 h2) (by simp)

theorem Sound.link {v : View} {h : Hand} {k : KioId} (hv : (v.give h k).Sound) (q : QId) :
    (∀ r, (((v.link q k).items r).map Prod.fst).Nodup) ∧
      (∀ r, ∀ p ∈ (v.link q k).items r, p.1 < (v.link q k).nextNode) ∧
        ∀ r, ∀ p ∈ (v.link q k).items r, (v.link q k).qbp p.2 = some p.1 := by
  have hmem : ∀ r, ∀ p ∈ (v.link q k).items r, p ∈ v.items r ∨ p = (v.nextNode, k) := by
    intro r p hp
    by_cases hr : r = q
    · subst hr; simpa [View.link] using hp
    · left; simpa [View.link, hr] using hp
  refine ⟨fun r => ?_, fun r p hp => ?_, fun r p hp => ?_⟩
  · by_cases hr : r = q
    · subst hr
      have hn := hv.nodes r
      have ho := hv.old r
      simp only [View.link, Function.update_self, List.map_append, List.map_cons, List.map_nil]
      refine List.Nodup.append hn (List.nodup_singleton _) ?_
      intro x hx h1
      obtain ⟨p, hp, rfl⟩ := List.mem_map.mp hx
      have := ho p hp
      rw [List.mem_singleton] at h1
      simp only [nextNode_give] at this
      omega
    · simpa [View.link, hr] using hv.nodes r
  · have hn : (v.link q k).nextNode = v.nextNode + 1 := rfl
    rcases hmem r p hp with hp | rfl
    · have := hv.old r p hp
      simp only [nextNode_give] at this
      omega
    · simp only [hn]; omega
  · rcases hmem r p hp with hp | rfl
    · have hne : p.2 ≠ k := by
        intro hk
        exact hv.not_mem_of_give r (hk ▸ List.mem_map_of_mem hp)
      simpa [View.link, hne] using hv.qbp r p hp
    · simp [View.link]

theorem Sound.unlink {v : View} (hv : v.Sound) {q : QId} {i n : ℕ} {k : KioId}
    (hi : (v.items q)[i]? = some (n, k)) :
    (∀ r, (((v.unlink q i k).items r).map Prod.fst).Nodup) ∧
      (∀ r, ∀ p ∈ (v.unlink q i k).items r, p.1 < v.nextNode) ∧
        ∀ r, ∀ p ∈ (v.unlink q i k).items r, (v.unlink q i k).qbp p.2 = some p.1 := by
  have hsub : ∀ r, ((v.unlink q i k).items r).Sublist (v.items r) := by
    intro r
    by_cases hr : r = q
    · subst hr; simpa [View.unlink] using List.eraseIdx_sublist _ i
    · simp [View.unlink, hr]
  have hk : ∀ r, k ∉ (v.unlink q i k).data r := by
    -- one copy was removed, and there was only one
    intro r hr
    have hmem : (n, k) ∈ v.items q := List.mem_of_getElem? hi
    have h1 : k ∈ v.ledger.held (.queue q) := List.mem_map_of_mem (f := Prod.snd) hmem
    have h2 : k ∈ v.ledger.held (.queue r) := by
      obtain ⟨p, hp, rfl⟩ := List.mem_map.mp hr
      exact List.mem_map_of_mem ((hsub r).subset hp)
    obtain rfl : q = r := by simpa using hv.balanced.place_unique h1 h2
    have h3 := hv.balanced.count_le_one (.queue q) k
    have h4 : v.ledger.held (.queue q) = k ::ₘ (v.unlink q i k).held (.queue q) :=
      (held_unlink v q k hi _).trans (if_pos rfl)
    rw [h4, Multiset.count_cons_self] at h3
    have h5 : 1 ≤ ((v.unlink q i k).held (.queue q)).count k := Multiset.one_le_count_iff_mem.mpr hr
    omega
  refine ⟨fun r => (hv.nodes r).sublist ((hsub r).map _), fun r p hp => ?_, fun r p hp => ?_⟩
  · exact hv.old r p ((hsub r).subset hp)
  · have hne : p.2 ≠ k := by
      rintro rfl
      exact hk r (List.mem_map_of_mem hp)
    simpa [View.unlink, hne] using hv.qbp r p ((hsub r).subset hp)

end View

/-- **Shifts keep a view sound.** -/
theorem Shift.sound {P : KioId → Prop} {v v' : View} (h : Shift P v v') (hv : v.Sound) :
    v'.Sound := by
  have hb : Balanced v'.ledger := h.move.balanced hv.balanced
  cases h with
  | enter h k hk =>
    have hq : ∀ q, ∀ p ∈ v.items q, p.2 ≠ k := by
      rintro q p hp rfl
      exact hk (by simpa using
        hv.balanced.entered_of_held (p := .queue q) (List.mem_map_of_mem hp))
    refine ⟨hb, hv.nodes, hv.old, fun q p hp => ?_, fun j hj => ?_⟩
    · have := hv.qbp q p hp
      simpa [View.give, View.issue, hq q p hp] using this
    · obtain ⟨h1, h2⟩ := hv.accepted j hj
      have hjk : j ≠ k := by rintro rfl; exact hk h1
      refine ⟨List.mem_cons_of_mem _ h1, ?_⟩
      by_cases hh : Hand.caller = h
      · subst hh; simpa [View.give, View.issue, hjk] using h2
      · simpa [View.give, View.issue, hh] using h2
  | @link w h hh q k =>
    obtain ⟨h1, h2, h3⟩ := hv.link q
    refine ⟨hb, h1, h2, h3, fun j hj => ?_⟩
    simpa [View.give, View.link, hh.symm] using hv.accepted j hj
  | @accept w q k =>
    obtain ⟨h1, h2, h3⟩ := hv.link q
    refine ⟨hb, h1, h2, h3, fun j hj => ?_⟩
    rcases List.mem_cons.mp hj with rfl | hj
    · have hc : j ∈ (w.give .caller j).ledger.held (.hand .caller) := by
        simp [View.ledger, View.held, View.give]
      refine ⟨by simpa using hv.balanced.entered_of_held hc, fun h4 => ?_⟩
      have h5 : j ∈ ((w.link q j).accept j).ledger.held (.hand .caller) := h4
      have h6 : j ∈ ((w.link q j).accept j).ledger.held (.queue q) := by
        have := (held_link w q j (.queue q)).trans (if_pos rfl)
        show j ∈ (w.link q j).held (.queue q)
        rw [this]
        exact Multiset.mem_cons_self _ _
      exact absurd (hb.place_unique h5 h6) (by simp)
    · obtain ⟨h4, h5⟩ := hv.accepted j hj
      refine ⟨h4, fun h6 => h5 ?_⟩
      simp only [View.give, Function.update_self]
      exact Multiset.mem_cons_of_mem h6
  | unlink h hh q i n k hk hi =>
    obtain ⟨h1, h2, h3⟩ := hv.unlink hi
    refine ⟨hb, h1, h2, h3, fun j hj => ?_⟩
    simpa [View.give, View.unlink, hh.symm] using hv.accepted j hj
  | @drop w h k =>
    refine ⟨hb, hv.nodes, hv.old, hv.qbp, fun j hj => ?_⟩
    obtain ⟨h4, h5⟩ := hv.accepted j hj
    refine ⟨h4, fun h6 => h5 ?_⟩
    by_cases hh : Hand.caller = h
    · subst hh
      simp only [View.give, Function.update_self]
      exact Multiset.mem_cons_of_mem h6
    · simpa [View.give, hh] using h6

theorem Shifts.sound {P : KioId → Prop} {v v' : View} (h : Shifts P v v') (hv : v.Sound) :
    v'.Sound := by
  induction h with
  | refl => exact hv
  | tail _ hs ih => exact hs.sound ih

theorem Shifts.issued_subset {P : KioId → Prop} {v v' : View} (h : Shifts P v v') :
    v.issued ⊆ v'.issued := by
  induction h with
  | refl => exact List.Subset.refl _
  | tail _ hs ih =>
    refine List.Subset.trans ih ?_
    cases hs with
    | enter => exact List.subset_cons_self _ _
    | link | accept | unlink | drop => exact List.Subset.refl _

/-- **A kio that shifts remove from a queue** is one they act for. -/
theorem Shift.removed {P : KioId → Prop} {v v' : View} (h : Shift P v v') {q : QId}
    {k : KioId} (hk : k ∈ v.data q) : k ∈ v'.data q ∨ P k := by
  cases h with
  | enter | drop => exact Or.inl hk
  | @link w h hh r j | @accept w r j =>
    left
    have h1 : k ∈ w.held (.queue q) := hk
    have h2 : k ∈ (w.link r j).held (.queue q) := by
      rw [held_link]
      split_ifs
      · exact Multiset.mem_cons_of_mem h1
      · exact h1
    exact h2
  | unlink h hh r i n j hj hi =>
    by_cases hjk : k = j
    · exact Or.inr (hjk ▸ hj)
    · left
      have h1 : k ∈ v.held (.queue q) := hk
      have h2 : k ∈ (v.unlink r i j).held (.queue q) := by
        rw [held_unlink v r j hi] at h1
        split_ifs at h1
        · exact (Multiset.mem_cons.mp h1).resolve_left hjk
        · exact h1
      exact h2

theorem Shifts.removed {P : KioId → Prop} {v v' : View} (h : Shifts P v v') {q : QId}
    {k : KioId} (hk : k ∈ v.data q) : k ∈ v'.data q ∨ P k := by
  induction h with
  | refl => exact Or.inl hk
  | tail _ hs ih =>
    rcases ih with h1 | h1
    · exact hs.removed h1
    · exact Or.inr h1

end Libkinetic.Ktli
