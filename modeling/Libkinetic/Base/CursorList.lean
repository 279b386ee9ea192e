import Mathlib.Tactic

/-! # Doubly linked lists with a cursor

What a correct linked-list library does to the content of a list: a list is its nodes from front to
rear, each with its datum, and the position of the current node. Nodes are numbers (addresses); a
client may keep a node's number as a back pointer and later ask for that node to be made current.

`ListLib` collects what the code using such a library must not rely on: the values of the return
codes of a traversal (only that the code of a hit is none of the others), and where the cursor is
left by a removal or by a traversal that finds nothing. -/

namespace Libkinetic.Base.CursorList

variable {α : Type*}

/-- A list with a cursor. -/
structure CList (α : Type*) where
  items : List (ℕ × α) := []
  curr : Option ℕ := none
deriving DecidableEq

/-- What the library leaves open. -/
structure ListLib (α : Type*) where
  listOk : ℤ
  listExtent : ℤ
  listEmpty : ℤ
  ok_ne_extent : listOk ≠ listExtent
  ok_ne_empty : listOk ≠ listEmpty
  /-- The cursor after the node at a position is gone, from the nodes that remain. -/
  afterRemove : List (ℕ × α) → ℕ → Option ℕ
  /-- The cursor after the front node is gone, from the nodes that remain and the old cursor. -/
  afterFront : List (ℕ × α) → Option ℕ → Option ℕ
  /-- The cursor after a traversal without a hit. -/
  afterMiss : List (ℕ × α) → Option ℕ

/-- A library that leaves the cursor on the next node, or on the new rear. -/
def ListLib.next (α : Type*) : ListLib α where
  listOk := 0
  listExtent := 1
  listEmpty := 2
  ok_ne_extent := by decide
  ok_ne_empty := by decide
  afterRemove l i :=
    if i < l.length then some i else if l.isEmpty then none else some (l.length - 1)
  afterFront l _ := if l.isEmpty then none else some 0
  afterMiss l := if l.isEmpty then none else some (l.length - 1)

namespace CList

/-- The data from front to rear. -/
def data (l : CList α) : List α := l.items.map Prod.snd

/-- `list_size` -/
def size (l : CList α) : ℕ := l.items.length

/-- `list_mvrear`: the cursor goes to the rear node. -/
def mvrear (l : CList α) : CList α :=
  { l with curr := match l.items.length with | 0 => none | n + 1 => some n }

/-- The current node. -/
def currNode (l : CList α) : Option (ℕ × α) := l.curr.bind fun i => l.items[i]?

/-- `list_element_curr` -/
def elementCurr (l : CList α) : Option ℕ := l.currNode.map Prod.fst

/-- `list_insert_after`: the new node follows the current one and becomes current. -/
def insertAfter (l : CList α) (n : ℕ) (a : α) : CList α :=
  let i := match l.curr with | none => 0 | some i => i + 1
  ⟨l.items.take i ++ (n, a) :: l.items.drop i, some i⟩

/-- `list_remove_front` -/
def removeFront (lib : ListLib α) (l : CList α) : Option α × CList α :=
  match l.items with
  | [] => (none, l)
  | (_, a) :: t => (some a, ⟨t, lib.afterFront t l.curr⟩)

/-- `list_remove_curr` -/
def removeCurr (lib : ListLib α) (l : CList α) : Option α × CList α :=
  match l.curr with
  | none => (none, l)
  | some i =>
    match l.items[i]? with
    | none => (none, l)
    | some p => (some p.2, ⟨l.items.eraseIdx i, lib.afterRemove (l.items.eraseIdx i) i⟩)

/-- `list_setcurr`: fails, and does nothing, if the node is not on the list. -/
def setcurr (l : CList α) (e : Option ℕ) : Bool × CList α :=
  match e with
  | none => (false, l)
  | some n =>
    match l.items.findIdx? fun p => p.1 == n with
    | none => (false, l)
    | some i => (true, { l with curr := some i })

/-- `list_traverse` with `LIST_ALTR` from a position: the cursor goes to the first hit. -/
def traverse (lib : ListLib α) (l : CList α) (start : ℕ) (hit : α → Bool) : ℤ × CList α :=
  if l.items = [] then (lib.listEmpty, l)
  else
    match (l.items.drop start).findIdx? fun p => hit p.2 with
    | none => (lib.listExtent, { l with curr := lib.afterMiss l.items })
    | some i => (lib.listOk, { l with curr := some (start + i) })

/-- The position `LIST_CURR` starts from. -/
def currPos (l : CList α) : ℕ := l.curr.getD l.items.length

/-! ### What the operations do to the nodes -/

@[simp] theorem items_mvrear (l : CList α) : l.mvrear.items = l.items := rfl

theorem mem_data_insertAfter (l : CList α) (n : ℕ) (a j : α) :
    j ∈ (l.insertAfter n a).data ↔ j = a ∨ j ∈ l.data := by
  obtain ⟨i, hi⟩ : ∃ i, (l.insertAfter n a).items = l.items.take i ++ (n, a) :: l.items.drop i :=
    ⟨_, rfl⟩
  have hdata : l.data = (l.items.take i ++ l.items.drop i).map Prod.snd := by
    rw [List.take_append_drop]
    rfl
  rw [hdata, data, hi]
  simp only [List.map_append, List.map_cons, List.mem_append, List.mem_cons]
  exact or_left_comm

theorem insertAfter_mvrear_eq (l : CList α) (n : ℕ) (a : α) :
    l.mvrear.insertAfter n a = ⟨l.items ++ [(n, a)], some l.items.length⟩ := by
  obtain ⟨items, curr⟩ := l
  cases items <;> simp [mvrear, insertAfter]

@[simp] theorem elementCurr_insertAfter_mvrear (l : CList α) (n : ℕ) (a : α) :
    (l.mvrear.insertAfter n a).elementCurr = some n := by
  rw [insertAfter_mvrear_eq]; simp [elementCurr, currNode]

theorem removeFront_some {lib : ListLib α} {l l' : CList α} {a : α}
    (h : l.removeFront lib = (some a, l')) : ∃ n, l.items = (n, a) :: l'.items := by
  unfold removeFront at h
  split at h
  · simp at h
  · next n b t hl =>
    simp only [Prod.mk.injEq, Option.some.injEq] at h
    obtain ⟨rfl, rfl⟩ := h
    exact ⟨n, hl⟩

/-- **Removing the current node.** -/
theorem removeCurr_some {lib : ListLib α} {l l' : CList α} {a : α}
    (h : l.removeCurr lib = (some a, l')) :
    ∃ i n, l.curr = some i ∧ l.items[i]? = some (n, a) ∧ l'.items = l.items.eraseIdx i := by
  unfold removeCurr at h
  split at h
  · simp at h
  · next i hi =>
    split at h
    · simp at h
    · next p hp =>
      simp only [Prod.mk.injEq, Option.some.injEq] at h
      obtain ⟨rfl, rfl⟩ := h
      exact ⟨i, p.1, hi, hp, rfl⟩

theorem removeCurr_of_getElem {lib : ListLib α} {l : CList α} {i n : ℕ} {a : α}
    (hc : l.curr = some i) (hi : l.items[i]? = some (n, a)) :
    l.removeCurr lib = (some a, ⟨l.items.eraseIdx i, lib.afterRemove (l.items.eraseIdx i) i⟩) := by
  simp [removeCurr, hc, hi]

theorem removeCurr_none {lib : ListLib α} {l l' : CList α}
    (h : l.removeCurr lib = (none, l')) : l.currNode = none ∧ l' = l := by
  unfold removeCurr at h
  split at h
  · next hi => exact ⟨by simp [currNode, hi], by simpa using h.symm⟩
  · next i hi =>
    split at h
    · next hp => exact ⟨by simp [currNode, hi, hp], by simpa using h.symm⟩
    · simp at h

theorem removeCurr_sublist (lib : ListLib α) (l : CList α) :
    (l.removeCurr lib).2.items.Sublist l.items := by
  rcases h : l.removeCurr lib with ⟨_ | a, l'⟩
  · rw [(removeCurr_none h).2]
  · obtain ⟨i, n, -, -, hl⟩ := removeCurr_some h
    simpa only [hl] using List.eraseIdx_sublist _ i

theorem currNode_of_removeCurr {lib : ListLib α} {l l' : CList α} {a : α}
    (h : l.removeCurr lib = (some a, l')) : ∃ n, l.currNode = some (n, a) := by
  obtain ⟨i, n, hc, hi, -⟩ := removeCurr_some h
  exact ⟨n, by simp [currNode, hc, hi]⟩

theorem setcurr_snd_items (l : CList α) (e : Option ℕ) : (l.setcurr e).2.items = l.items := by
  unfold setcurr
  split
  · rfl
  · split <;> rfl

/-- In a list whose nodes are distinct, a node's back pointer finds the node. -/
theorem setcurr_of_mem {l : CList α} (hn : (l.items.map Prod.fst).Nodup) {n : ℕ} {a : α}
    (h : (n, a) ∈ l.items) :
    ∃ i, l.items[i]? = some (n, a) ∧ l.setcurr (some n) = (true, { l with curr := some i }) := by
  obtain ⟨j, hj, he⟩ := List.getElem_of_mem h
  cases hf : l.items.findIdx? fun p => p.1 == n with
  | none =>
    have := List.findIdx?_eq_none_iff.mp hf _ h
    simp at this
  | some i =>
    obtain ⟨hlt, hp, -⟩ := List.findIdx?_eq_some_iff_getElem.mp hf
    have hij : i = j := by
      have h1 : (l.items.map Prod.fst)[i]? = (l.items.map Prod.fst)[j]? := by
        simpa [List.getElem?_eq_getElem hlt, List.getElem?_eq_getElem hj, he] using hp
      exact (List.getElem?_inj (by simpa using hlt) hn).mp h1
    subst hij
    exact ⟨i, by rw [List.getElem?_eq_getElem hlt, he], by simp [setcurr, hf]⟩

theorem traverse_items (lib : ListLib α) (l : CList α) (start : ℕ) (hit : α → Bool) :
    (l.traverse lib start hit).2.items = l.items := by
  unfold traverse
  split_ifs
  · rfl
  · split <;> rfl

/-- **A hit** puts the cursor on a node that is one. -/
theorem traverse_ok {lib : ListLib α} {l l' : CList α} {start : ℕ} {hit : α → Bool}
    (h : l.traverse lib start hit = (lib.listOk, l')) :
    ∃ i n a, l'.curr = some i ∧ l.items[i]? = some (n, a) ∧ hit a = true ∧ l'.items = l.items := by
  unfold traverse at h
  split_ifs at h with he
  · exact absurd (Prod.mk.inj h).1.symm lib.ok_ne_empty
  · split at h
    · exact absurd (Prod.mk.inj h).1.symm lib.ok_ne_extent
    · next i hi =>
      obtain ⟨hlt, hp, -⟩ := List.findIdx?_eq_some_iff_getElem.mp hi
      simp only [Prod.mk.injEq, true_and] at h
      subst h
      have hlt' : start + i < l.items.length := by
        rw [List.length_drop] at hlt; omega
      rw [List.getElem_drop] at hp
      exact ⟨start + i, l.items[start + i].1, _, rfl, List.getElem?_eq_getElem hlt', hp, rfl⟩

/-- The code of a traversal is one of the three. -/
theorem traverse_code (lib : ListLib α) (l : CList α) (start : ℕ) (hit : α → Bool) :
    (l.traverse lib start hit).1 = lib.listOk ∨ (l.traverse lib start hit).1 = lib.listExtent ∨
      (l.traverse lib start hit).1 = lib.listEmpty := by
  unfold traverse
  split_ifs
  · simp
  · split <;> simp

/-- Removing what a traversal has hit. -/
theorem removeCurr_of_traverse {lib : ListLib α} {l l1 l2 : CList α} {start : ℕ} {hit : α → Bool}
    {rc : ℤ} {o : Option α} (ht : l.traverse lib start hit = (rc, l1)) (hext : rc ≠ lib.listExtent)
    (hemp : rc ≠ lib.listEmpty) (hrem : l1.removeCurr lib = (o, l2)) :
    ∃ i n a, o = some a ∧ hit a = true ∧ l.items[i]? = some (n, a) ∧
      l2.items = l.items.eraseIdx i := by
  have hcode := traverse_code lib l start hit
  rw [ht] at hcode
  obtain rfl : rc = lib.listOk := hcode.resolve_right (not_or.mpr ⟨hext, hemp⟩)
  obtain ⟨i, n, a, hcur, hi, hhit, hl1⟩ := traverse_ok ht
  rw [removeCurr_of_getElem hcur (hl1 ▸ hi)] at hrem
  obtain ⟨rfl, rfl⟩ := Prod.mk.inj hrem
  exact ⟨i, n, a, rfl, hhit, hi, by rw [hl1]⟩

/-- The code of a traversal without a hit. -/
def missCode (lib : ListLib α) (l : CList α) : ℤ :=
  if l.items = [] then lib.listEmpty else lib.listExtent

theorem missCode_ne_ok (lib : ListLib α) (l : CList α) : l.missCode lib ≠ lib.listOk := by
  unfold missCode
  split_ifs
  · exact lib.ok_ne_empty.symm
  · exact lib.ok_ne_extent.symm

/-- **A traversal** finds nothing from its start on, or stops at the first hit. -/
theorem traverse_cases (lib : ListLib α) (l : CList α) (start : ℕ) (hit : α → Bool) :
    ((l.traverse lib start hit).1 = l.missCode lib ∧
        ∀ p ∈ l.items.drop start, hit p.2 = false) ∨
      ∃ pre n a post, l.items = pre ++ (n, a) :: post ∧ start ≤ pre.length ∧ hit a = true ∧
        (∀ p ∈ pre.drop start, hit p.2 = false) ∧
        l.traverse lib start hit = (lib.listOk, { l with curr := some pre.length }) := by
  unfold traverse missCode
  by_cases hnil : l.items = []
  · exact .inl ⟨by rw [if_pos hnil, if_pos hnil], by simp [hnil]⟩
  rw [if_neg hnil, if_neg hnil]
  rcases hf : (l.items.drop start).findIdx? fun p => hit p.2 with _ | i
  · exact .inl ⟨by rw [hf], fun p hp => List.findIdx?_eq_none_iff.mp hf p hp⟩
  · obtain ⟨hlt, hhit, hfirst⟩ := List.findIdx?_eq_some_iff_getElem.mp hf
    rw [List.length_drop] at hlt
    rw [List.getElem_drop] at hhit
    have hlen : start + i < l.items.length := by omega
    have htake : (l.items.take (start + i)).length = start + i := by
      rw [List.length_take]
      omega
    refine .inr ⟨l.items.take (start + i), l.items[start + i].1, l.items[start + i].2,
      l.items.drop (start + i + 1), ?_, by omega, hhit, fun p hp => ?_, by rw [hf, htake]⟩
    · rw [Prod.mk.eta, ← List.drop_eq_getElem_cons hlen, List.take_append_drop]
    · rw [List.drop_take, Nat.add_sub_cancel_left] at hp
      obtain ⟨j, hj, rfl⟩ := List.mem_take_iff_getElem.mp hp
      have hji : j < i := by omega
      simpa using hfirst j hji

/-- Removing the current node from a list that is split at it. -/
theorem removeCurr_of_split {lib : ListLib α} {l : CList α} {pre post : List (ℕ × α)} {n : ℕ}
    {a : α} (hl : l.items = pre ++ (n, a) :: post) (hc : l.curr = some pre.length) :
    l.removeCurr lib = (some a, ⟨pre ++ post, lib.afterRemove (pre ++ post) pre.length⟩) := by
  have herase : l.items.eraseIdx pre.length = pre ++ post := by
    rw [hl, List.eraseIdx_append_of_length_le (Nat.le_refl _), Nat.sub_self]
    rfl
  have hget : l.items[pre.length]? = some (n, a) := by
    rw [hl, List.getElem?_append_right (Nat.le_refl _), Nat.sub_self]
    rfl
  rw [removeCurr_of_getElem hc hget, herase]

theorem items_of_traverse {lib : ListLib α} {l l1 : CList α} {start : ℕ} {hit : α → Bool} {rc : ℤ}
    (ht : l.traverse lib start hit = (rc, l1)) : l1.items = l.items := by
  rw [← traverse_items lib l start hit, ht]

end CList

/-! ### Removing a position -/

theorem perm_eraseIdx {l : List α} {i : ℕ} {a : α} (h : l[i]? = some a) :
    l.Perm (a :: l.eraseIdx i) := by
  obtain ⟨hi, rfl⟩ := List.getElem?_eq_some_iff.mp h
  exact (List.getElem_cons_eraseIdx_perm hi).symm

end Libkinetic.Base.CursorList
