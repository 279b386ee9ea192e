import Libkinetic.Base.Runs

/-! # The session table

`kts_alloc_slot` and `kts_free_slot`, called by any number of threads; every compare and swap and
every read of `kts_table` is one step. `kts_free_slot` reads the table again after its compare and
swap has released the slot. As long as nobody is given the slot in between, no slot has two owners
and no record is freed wrongly (`sound_of_careful`); otherwise the record of the new owner is freed
(`freed_in_use`). -/

namespace Libkinetic.Ktli.Slots

open Libkinetic.Base.Runs

/-! ### The model -/

/-- `KTS_MAX_SESSIONS` -/
def ktsTableSize : ℕ := 1024

/-- A call under way, by an allocation and the step that comes next. Records are named by their
addresses. -/
inductive SlotCall
  /-- `kts_alloc_slot`, before the compare and swap of slot `i`. -/
  | scanning (a ks i : ℕ)
  /-- `kts_alloc_slot` has found no slot; before it frees the record. -/
  | failing (a ks : ℕ)
  /-- `kts_free_slot`, before it reads the slot. -/
  | reading (a kts : ℕ)
  /-- Before the compare and swap. -/
  | swapping (a kts : ℕ) (ks : Option ℕ)
  /-- Before it reads the slot again, to see if there is anything to free. -/
  | testing (a kts : ℕ)
  /-- Before it reads the slot for `free`. -/
  | rereading (a kts : ℕ)
  | freeing (a kts : ℕ) (ks : Option ℕ)
deriving DecidableEq

/-- A call of `free`. -/
structure Freed where
  /-- The allocation that created the record; none if the record was free already. -/
  creator : Option ℕ
  /-- The allocation that the caller is about. -/
  caller : ℕ
  /-- The creator had its slot still. -/
  allocated : Bool
deriving DecidableEq

/-- The table, the heap and the calls under way. What follows is history. -/
structure Table where
  table : ℕ → Option ℕ := fun _ => none
  /-- Who created the record at an address, if there is one. -/
  heap : ℕ → Option ℕ := fun _ => none
  running : List SlotCall := []
  /-- The next allocation. -/
  next : ℕ := 0
  /-- The allocations with the slots they were given. -/
  given : List (ℕ × ℕ) := []
  frees : List Freed := []

/-- `free` -/
def Table.free (s : Table) (caller ks : ℕ) : Table :=
  { s with
    heap := Function.update s.heap ks none
    frees := ⟨s.heap ks, caller, s.given.any fun g => s.heap ks = some g.1⟩ :: s.frees }

/-- The next step of a call. -/
def slotStep (s : Table) : SlotCall → Table × Option SlotCall
  | .scanning a ks i =>
    if i < ktsTableSize then
      match s.table i with
      | none =>
        ({ s with table := Function.update s.table i (some ks), given := (a, i) :: s.given }, none)
      | some _ => (s, some (.scanning a ks (i + 1)))
    else (s, some (.failing a ks))
  | .failing a ks => (s.free a ks, none)
  | .reading a kts => (s, some (.swapping a kts (s.table kts)))
  | .swapping a kts ks =>
    if s.table kts = ks then
      ({ s with table := Function.update s.table kts none, given := s.given.erase (a, kts) },
        some (.testing a kts))
    else (s, none)
  | .testing a kts => (s, if s.table kts = none then none else some (.rereading a kts))
  | .rereading a kts => (s, some (.freeing a kts (s.table kts)))
  | .freeing a _ ks => (ks.elim s (s.free a), none)

inductive SlotAct
  /-- `kts_alloc_slot` begins; `ks` is what `malloc` returns. -/
  | alloc (ks : Option ℕ)
  /-- `kts_free_slot` begins, called for this allocation. -/
  | free (a kts : ℕ)
  | run (c : SlotCall)

/-- **One step** of some thread. -/
def step (s : Table) : SlotAct → Option Table
  | .alloc none => some s
  | .alloc (some ks) =>
    if s.heap ks = none then
      some { s with
        heap := Function.update s.heap ks (some s.next)
        running := .scanning s.next ks 0 :: s.running
        next := s.next + 1 }
    else none
  | .free a kts => some { s with running := .reading a kts :: s.running }
  | .run c =>
    if c ∈ s.running then
      let r := slotStep s c
      some { r.1 with running := r.2.toList ++ s.running.erase c }
    else none

/-- `kts_init` -/
def Init (s : Table) : Prop := s = {}

/-! ### The property and the condition -/

structure Sound (s : Table) : Prop where
  one_owner : (s.given.map Prod.snd).Nodup
  /-- Records are freed by the calls about the allocations that created them, -/
  own : ∀ f ∈ s.frees, f.creator = some f.caller
  /-- not while these have their slots, -/
  after : ∀ f ∈ s.frees, f.allocated = false
  /-- and once. -/
  once : (s.frees.map Freed.creator).Nodup

/-- The allocation that a call is about. -/
def SlotCall.about : SlotCall → ℕ
  | .scanning a _ _ | .failing a _ | .reading a _ | .swapping a _ _ | .testing a _
  | .rereading a _ | .freeing a _ _ => a

/-- The slot that a call has released and will read again. -/
def SlotCall.rereads : SlotCall → Option ℕ
  | .testing _ kts | .rereading _ kts => some kts
  | _ => none

/-- **The condition**: `kts_free_slot` is called once for an allocation, with the slot it was given,
and no allocation is given a slot that a call of `kts_free_slot` will read again. -/
def Careful (s : Table) : SlotAct → Prop
  | .free a kts => (a, kts) ∈ s.given ∧ ∀ c ∈ s.running, c.about ≠ a
  | .run (.scanning _ _ i) => s.table i = none → ∀ c ∈ s.running, c.rereads ≠ some i
  | _ => True

instance (s : Table) : ∀ a, Decidable (Careful s a)
  | .free a kts => inferInstanceAs (Decidable ((a, kts) ∈ s.given ∧ ∀ c ∈ s.running, c.about ≠ a))
  | .run (.scanning _ _ i) =>
    inferInstanceAs (Decidable (s.table i = none → ∀ c ∈ s.running, c.rereads ≠ some i))
  | .run (.failing _ _) | .run (.reading _ _) | .run (.swapping _ _ _) | .run (.testing _ _)
  | .run (.rereading _ _) | .run (.freeing _ _ _) | .alloc _ => isTrue trivial

/-! ### The invariant -/

/-- What is true of a call under way. -/
def CallOk (s : Table) : SlotCall → Prop
  | .scanning a ks _ | .failing a ks =>
    s.heap ks = some a ∧ (∀ i, (a, i) ∉ s.given) ∧ some a ∉ s.frees.map Freed.creator
  | .reading a kts => (a, kts) ∈ s.given
  | .swapping a kts ks => (a, kts) ∈ s.given ∧ s.table kts = ks
  | .testing _ kts => s.table kts = none
  | .rereading _ _ | .freeing _ _ _ => False

/-- **The invariant**: the table holds the live records of the allocations that were given slots. -/
structure Inv (s : Table) : Prop where
  sound : Sound s
  distinct : (s.running.map SlotCall.about).Nodup
  entry : ∀ a i, (a, i) ∈ s.given → ∃ ks, s.table i = some ks ∧ s.heap ks = some a
  full : ∀ i ks, s.table i = some ks → ∃ a, (a, i) ∈ s.given
  calls : ∀ c ∈ s.running, CallOk s c
  below : ∀ a, ((∃ i, (a, i) ∈ s.given) ∨ a ∈ s.running.map SlotCall.about ∨
    some a ∈ s.frees.map Freed.creator) → a < s.next

section Step
variable {s s' : Table} {a ks i kts : ℕ} {c : SlotCall}

theorem inv_init (h : Init s) : Inv s := by
  subst h
  refine ⟨⟨List.nodup_nil, ?_, ?_, List.nodup_nil⟩, List.nodup_nil, ?_, ?_, ?_, ?_⟩
  · intro f hf
    cases hf
  · intro f hf
    cases hf
  · intro a i h
    cases h
  · intro i ks h
    cases h
  · intro c hc
    cases hc
  · rintro a (⟨i, h⟩ | h | h) <;> cases h

/-- An empty slot was given to nobody. -/
theorem Inv.not_given (hs : Inv s) (hi : s.table i = none) : (a, i) ∉ s.given := by
  intro h
  obtain ⟨ks, hks, -⟩ := hs.entry a i h
  rw [hi] at hks
  cases hks

/-- A call goes on about the same allocation, and the others are about other ones. -/
theorem distinct_run {l : List SlotCall} (next : Option SlotCall)
    (hd : (l.map SlotCall.about).Nodup) (hc : c ∈ l) (hn : ∀ c' ∈ next, c'.about = c.about) :
    ((next.toList ++ l.erase c).map SlotCall.about).Nodup ∧
      ∀ c' ∈ l.erase c, c'.about ≠ c.about := by
  have hperm := ((List.perm_cons_erase hc).map SlotCall.about).nodup_iff.mp hd
  rw [List.map_cons, List.nodup_cons] at hperm
  have hne : ∀ c' ∈ l.erase c, c'.about ≠ c.about := by
    intro c' hc' he
    exact hperm.1 (he ▸ List.mem_map_of_mem hc')
  refine ⟨?_, hne⟩
  cases next with
  | none => exact hperm.2
  | some c1 =>
    show (c1.about :: (l.erase c).map SlotCall.about).Nodup
    rw [hn c1 rfl]
    exact List.nodup_cons.mpr hperm

/-- **A call that only goes on.** -/
theorem Inv.go_on (hs : Inv s) (next : Option SlotCall) (hc : c ∈ s.running)
    (hn : ∀ c' ∈ next, c'.about = c.about ∧ CallOk s c') :
    Inv { s with running := next.toList ++ s.running.erase c } := by
  obtain ⟨hd, -⟩ := distinct_run next hs.distinct hc fun c' h' => (hn c' h').1
  have hcalls : ∀ c' ∈ next.toList ++ s.running.erase c, CallOk s c' := by
    intro c' h'
    rcases List.mem_append.mp h' with h' | h'
    · exact (hn c' (Option.mem_toList.mp h')).2
    · exact hs.calls c' (List.mem_of_mem_erase h')
  refine ⟨⟨hs.sound.one_owner, hs.sound.own, hs.sound.after, hs.sound.once⟩, hd, hs.entry, hs.full,
    ?_, ?_⟩
  · intro c' h'
    have h1 := hcalls c' h'
    cases c' <;> exact h1
  · rintro a (h | h | h)
    · exact hs.below a (Or.inl h)
    · refine hs.below a (Or.inr (Or.inl ?_))
      obtain ⟨c', h', rfl⟩ := List.mem_map.mp h
      rcases List.mem_append.mp h' with h' | h'
      · rw [(hn c' (Option.mem_toList.mp h')).1]
        exact List.mem_map_of_mem hc
      · exact List.mem_map_of_mem (List.mem_of_mem_erase h')
    · exact hs.below a (Or.inr (Or.inr h))

/-- **The slot is given.** -/
theorem Inv.give (hs : Inv s) (hc : .scanning a ks i ∈ s.running) (hi : s.table i = none)
    (hcare : ∀ c ∈ s.running, c.rereads ≠ some i) :
    Inv { s with
      table := Function.update s.table i (some ks)
      given := (a, i) :: s.given
      running := s.running.erase (.scanning a ks i) } := by
  obtain ⟨hks, hnew, hfreed⟩ := hs.calls _ hc
  obtain ⟨hd, hne⟩ := distinct_run none hs.distinct hc fun c' h' => by cases h'
  have ha : a < s.next := hs.below a (Or.inr (Or.inl (List.mem_map_of_mem hc)))
  have hother : ∀ {a' j}, (a', j) ∈ s.given → j ≠ i := by
    rintro a' j h rfl
    exact hs.not_given hi h
  refine ⟨⟨?_, hs.sound.own, hs.sound.after, hs.sound.once⟩, hd, ?_, ?_, ?_, ?_⟩
  · refine List.nodup_cons.mpr ⟨fun h => ?_, hs.sound.one_owner⟩
    obtain ⟨⟨a', j⟩, h1, h2⟩ := List.mem_map.mp h
    exact hother h1 h2
  · intro a' j h
    rcases List.mem_cons.mp h with h | h
    · obtain ⟨rfl, rfl⟩ := Prod.mk.inj h
      exact ⟨ks, Function.update_self _ _ _, hks⟩
    · obtain ⟨ks', h1, h2⟩ := hs.entry a' j h
      exact ⟨ks', (Function.update_of_ne (hother h) _ _).trans h1, h2⟩
  · intro j ks' h
    dsimp only at h
    rw [Function.update_apply] at h
    split_ifs at h with hj
    · exact ⟨a, by rw [hj]; exact List.mem_cons_self⟩
    · obtain ⟨a', h1⟩ := hs.full j ks' h
      exact ⟨a', List.mem_cons_of_mem _ h1⟩
  · intro c' h'
    have h1 := hs.calls c' (List.mem_of_mem_erase h')
    have h2 := hne c' h'
    cases c' with
    | scanning a' ks' j | failing a' ks' =>
      refine ⟨h1.1, fun j h => ?_, h1.2.2⟩
      rcases List.mem_cons.mp h with h | h
      · exact h2 (Prod.mk.inj h).1
      · exact h1.2.1 j h
    | reading a' kts => exact List.mem_cons_of_mem _ h1
    | swapping a' kts ks' =>
      exact ⟨List.mem_cons_of_mem _ h1.1, (Function.update_of_ne (hother h1.1) _ _).trans h1.2⟩
    | testing a' kts =>
      have hkts : kts ≠ i := by
        rintro rfl
        exact hcare _ (List.mem_of_mem_erase h') rfl
      exact (Function.update_of_ne hkts _ _).trans h1
    | rereading | freeing => exact h1
  · rintro a' (⟨j, h⟩ | h | h)
    · rcases List.mem_cons.mp h with h | h
      · obtain ⟨rfl, rfl⟩ := Prod.mk.inj h
        exact ha
      · exact hs.below a' (Or.inl ⟨j, h⟩)
    · obtain ⟨c', h', rfl⟩ := List.mem_map.mp h
      exact hs.below _ (Or.inr (Or.inl (List.mem_map_of_mem (List.mem_of_mem_erase h'))))
    · exact hs.below a' (Or.inr (Or.inr h))

/-- **No slot is left**, and the record is freed. -/
theorem Inv.fail (hs : Inv s) (hc : .failing a ks ∈ s.running) :
    Inv { s.free a ks with running := s.running.erase (.failing a ks) } := by
  obtain ⟨hks, hnew, hfreed⟩ := hs.calls _ hc
  obtain ⟨hd, hne⟩ := distinct_run none hs.distinct hc fun c' h' => by cases h'
  have ha : a < s.next := hs.below a (Or.inr (Or.inl (List.mem_map_of_mem hc)))
  have hheap : ∀ {ks' a'}, s.heap ks' = some a' → a' ≠ a →
      Function.update s.heap ks none ks' = some a' := by
    intro ks' a' h hne'
    rw [Function.update_of_ne, h]
    rintro rfl
    rw [hks] at h
    exact hne' (Option.some.inj h).symm
  have hgiven : ∀ {a' j}, (a', j) ∈ s.given → a' ≠ a := by
    rintro a' j h rfl
    exact hnew j h
  refine ⟨⟨hs.sound.one_owner, ?_, ?_, ?_⟩, hd, ?_, hs.full, ?_, ?_⟩
  · intro f hf
    rcases List.mem_cons.mp hf with rfl | hf
    · exact hks
    · exact hs.sound.own f hf
  · intro f hf
    rcases List.mem_cons.mp hf with rfl | hf
    · show (s.given.any fun g => s.heap ks = some g.1) = false
      rw [List.any_eq_false, hks]
      intro g hg
      have hne' : g.1 ≠ a := hgiven (show (g.1, g.2) ∈ s.given from hg)
      simpa using hne'.symm
    · exact hs.sound.after f hf
  · show (s.heap ks :: s.frees.map Freed.creator).Nodup
    rw [hks]
    exact List.nodup_cons.mpr ⟨hfreed, hs.sound.once⟩
  · intro a' j h
    obtain ⟨ks', h1, h2⟩ := hs.entry a' j h
    exact ⟨ks', h1, hheap h2 (hgiven h)⟩
  · intro c' h'
    have h1 := hs.calls c' (List.mem_of_mem_erase h')
    have h2 := hne c' h'
    cases c' with
    | scanning a' ks' j | failing a' ks' =>
      refine ⟨hheap h1.1 h2, h1.2.1, fun h => ?_⟩
      rcases List.mem_cons.mp h with h | h
      · rw [hks] at h
        exact h2 (Option.some.inj h)
      · exact h1.2.2 h
    | _ => exact h1
  · rintro a' (h | h | h)
    · exact hs.below a' (Or.inl h)
    · obtain ⟨c', h', rfl⟩ := List.mem_map.mp h
      exact hs.below _ (Or.inr (Or.inl (List.mem_map_of_mem (List.mem_of_mem_erase h'))))
    · rcases List.mem_cons.mp h with h | h
      · rw [hks] at h
        obtain rfl := Option.some.inj h
        exact ha
      · exact hs.below a' (Or.inr (Or.inr h))

/-- **The slot is released.** -/
theorem Inv.release (hs : Inv s) {ks : Option ℕ} (hc : .swapping a kts ks ∈ s.running) :
    Inv { s with
      table := Function.update s.table kts none
      given := s.given.erase (a, kts)
      running := .testing a kts :: s.running.erase (.swapping a kts ks) } := by
  obtain ⟨hgiven, -⟩ := hs.calls _ hc
  obtain ⟨hd, hne⟩ := distinct_run (some (.testing a kts)) hs.distinct hc
    fun c' h' => by obtain rfl := Option.some.inj h'; rfl
  -- nobody else has the slot
  have hslot : ∀ {a' j}, (a', j) ∈ s.given → a' ≠ a → j ≠ kts := by
    rintro a' j h hne' rfl
    exact hne' (Prod.mk.inj (List.inj_on_of_nodup_map hs.sound.one_owner h hgiven rfl)).1
  have herase : ∀ {a' j}, (a', j) ∈ s.given → j ≠ kts → (a', j) ∈ s.given.erase (a, kts) :=
    fun h hj => (List.mem_erase_of_ne fun he => hj (Prod.mk.inj he).2).mpr h
  have hkept : ∀ {a' j}, (a', j) ∈ s.given.erase (a, kts) → (a', j) ∈ s.given ∧ j ≠ kts := by
    intro a' j h
    have h1 := List.mem_of_mem_erase h
    refine ⟨h1, ?_⟩
    rintro rfl
    have h2 := List.inj_on_of_nodup_map hs.sound.one_owner h1 hgiven rfl
    rw [h2] at h
    exact (List.Nodup.of_map _ hs.sound.one_owner).not_mem_erase h
  refine ⟨⟨?_, hs.sound.own, hs.sound.after, hs.sound.once⟩, hd, ?_, ?_, ?_, ?_⟩
  · exact hs.sound.one_owner.sublist (List.erase_sublist.map Prod.snd)
  · intro a' j h
    obtain ⟨h1, hj⟩ := hkept h
    obtain ⟨ks', h2, h3⟩ := hs.entry a' j h1
    exact ⟨ks', (Function.update_of_ne hj _ _).trans h2, h3⟩
  · intro j ks' h
    dsimp only at h
    rw [Function.update_apply] at h
    split_ifs at h with hj
    obtain ⟨a', h1⟩ := hs.full j ks' h
    exact ⟨a', herase h1 hj⟩
  · intro c' h'
    rcases List.mem_cons.mp h' with rfl | h'
    · exact Function.update_self _ _ _
    · have h1 := hs.calls c' (List.mem_of_mem_erase h')
      have h2 := hne c' h'
      cases c' with
      | scanning a' ks' j | failing a' ks' =>
        exact ⟨h1.1, fun j h => h1.2.1 j (hkept h).1, h1.2.2⟩
      | reading a' j => exact herase h1 (hslot h1 h2)
      | swapping a' j ks' =>
        have hj := hslot h1.1 h2
        exact ⟨herase h1.1 hj, (Function.update_of_ne hj _ _).trans h1.2⟩
      | testing a' j =>
        show Function.update s.table kts none j = none
        rw [Function.update_apply]
        split_ifs
        · rfl
        · exact h1
      | rereading | freeing => exact h1
  · rintro a' (⟨j, h⟩ | h | h)
    · exact hs.below a' (Or.inl ⟨j, (hkept h).1⟩)
    · refine hs.below a' (Or.inr (Or.inl ?_))
      rcases List.mem_cons.mp h with rfl | h
      · exact List.mem_map_of_mem (f := SlotCall.about) hc
      · obtain ⟨c', h', rfl⟩ := List.mem_map.mp h
        exact List.mem_map_of_mem (List.mem_of_mem_erase h')
    · exact hs.below a' (Or.inr (Or.inr h))

/-- **A record is made** for a new allocation. -/
theorem Inv.alloc (hs : Inv s) (hfree : s.heap ks = none) :
    Inv { s with
      heap := Function.update s.heap ks (some s.next)
      running := .scanning s.next ks 0 :: s.running
      next := s.next + 1 } := by
  have hheap : ∀ {ks' a'}, s.heap ks' = some a' →
      Function.update s.heap ks (some s.next) ks' = some a' := by
    intro ks' a' h
    rw [Function.update_of_ne, h]
    rintro rfl
    rw [hfree] at h
    cases h
  refine ⟨⟨hs.sound.one_owner, hs.sound.own, hs.sound.after, hs.sound.once⟩, ?_, ?_, hs.full, ?_, ?_⟩
  · refine List.nodup_cons.mpr ⟨fun h => ?_, hs.distinct⟩
    exact absurd (hs.below _ (Or.inr (Or.inl h))) (lt_irrefl _)
  · intro a' j h
    obtain ⟨ks', h1, h2⟩ := hs.entry a' j h
    exact ⟨ks', h1, hheap h2⟩
  · intro c' h'
    rcases List.mem_cons.mp h' with rfl | h'
    · refine ⟨Function.update_self _ _ _, fun j h => ?_, fun h => ?_⟩
      · exact absurd (hs.below _ (Or.inl ⟨j, h⟩)) (lt_irrefl _)
      · exact absurd (hs.below _ (Or.inr (Or.inr h))) (lt_irrefl _)
    · have h1 := hs.calls c' h'
      cases c' with
      | scanning a' ks' j | failing a' ks' => exact ⟨hheap h1.1, h1.2⟩
      | _ => exact h1
  · rintro a' (h | h | h)
    · exact Nat.lt_succ_of_lt (hs.below a' (Or.inl h))
    · rcases List.mem_cons.mp h with rfl | h
      · exact Nat.lt_succ_self _
      · exact Nat.lt_succ_of_lt (hs.below a' (Or.inr (Or.inl h)))
    · exact Nat.lt_succ_of_lt (hs.below a' (Or.inr (Or.inr h)))

/-- `kts_free_slot` begins. -/
theorem Inv.begin_free (hs : Inv s) (hgiven : (a, kts) ∈ s.given)
    (hone : ∀ c ∈ s.running, c.about ≠ a) :
    Inv { s with running := .reading a kts :: s.running } := by
  refine ⟨⟨hs.sound.one_owner, hs.sound.own, hs.sound.after, hs.sound.once⟩, ?_, hs.entry, hs.full,
    ?_, ?_⟩
  · refine List.nodup_cons.mpr ⟨fun h => ?_, hs.distinct⟩
    obtain ⟨c, hc, ha⟩ := List.mem_map.mp h
    exact hone c hc ha
  · intro c' h'
    rcases List.mem_cons.mp h' with rfl | h'
    · exact hgiven
    · have h1 := hs.calls c' h'
      cases c' <;> exact h1
  · rintro a' (h | h | h)
    · exact hs.below a' (Or.inl h)
    · rcases List.mem_cons.mp h with rfl | h
      · exact hs.below _ (Or.inl ⟨kts, hgiven⟩)
      · exact hs.below a' (Or.inr (Or.inl h))
    · exact hs.below a' (Or.inr (Or.inr h))

/-- **Every step of a call** that meets the condition keeps the invariant. -/
theorem Inv.run (hs : Inv s) (hc : c ∈ s.running) (hok : Careful s (.run c)) :
    Inv { (slotStep s c).1 with
      running := (slotStep s c).2.toList ++ s.running.erase c } := by
  have hcall := hs.calls c hc
  have hnone : ∀ c' ∈ (none : Option SlotCall), c'.about = c.about ∧ CallOk s c' := by
    intro c' h'
    cases h'
  cases c with
  | scanning a ks i =>
    by_cases hlt : i < ktsTableSize
    · cases hi : s.table i with
      | none =>
        have hr : slotStep s (.scanning a ks i) = ({ s with
            table := Function.update s.table i (some ks), given := (a, i) :: s.given }, none) := by
          simp only [slotStep, if_pos hlt, hi]
        rw [hr]
        exact hs.give hc hi (hok hi)
      | some ks' =>
        have hr : slotStep s (.scanning a ks i) = (s, some (.scanning a ks (i + 1))) := by
          simp only [slotStep, if_pos hlt, hi]
        rw [hr]
        refine hs.go_on (some (.scanning a ks (i + 1))) hc fun c' h' => ?_
        obtain rfl := Option.some.inj h'
        exact ⟨rfl, hcall⟩
    · have hr : slotStep s (.scanning a ks i) = (s, some (.failing a ks)) := if_neg hlt
      rw [hr]
      refine hs.go_on (some (.failing a ks)) hc fun c' h' => ?_
      obtain rfl := Option.some.inj h'
      exact ⟨rfl, hcall⟩
  | failing a ks => exact hs.fail hc
  | reading a kts =>
    refine hs.go_on (some (.swapping a kts (s.table kts))) hc fun c' h' => ?_
    obtain rfl := Option.some.inj h'
    exact ⟨rfl, hcall, rfl⟩
  | swapping a kts ks =>
    have hr : slotStep s (.swapping a kts ks) = ({ s with
        table := Function.update s.table kts none, given := s.given.erase (a, kts) },
          some (.testing a kts)) := if_pos hcall.2
    rw [hr]
    exact hs.release hc
  | testing a kts =>
    have hr : slotStep s (.testing a kts) = (s, none) := by
      simp only [slotStep, if_pos (show s.table kts = none from hcall)]
    rw [hr]
    exact hs.go_on none hc hnone
  | rereading a kts => exact hcall.elim
  | freeing a kts ks => exact hcall.elim

theorem inv_step {act : SlotAct} (hs : Inv s) (hok : Careful s act) (h : step s act = some s') :
    Inv s' := by
  cases act with
  | alloc ks =>
    cases ks with
    | none =>
      obtain rfl := Option.some.inj h
      exact hs
    | some ks =>
      simp only [step] at h
      split_ifs at h with hfree
      obtain rfl := Option.some.inj h
      exact hs.alloc hfree
  | free a kts =>
    obtain rfl := Option.some.inj h
    exact hs.begin_free hok.1 hok.2
  | run c =>
    simp only [step] at h
    split_ifs at h with hc
    obtain rfl := Option.some.inj h
    exact hs.run hc hok

end Step

/-- **The table is sound** in every run whose steps meet the condition. -/
theorem sound_of_careful (s : Table) (h : Reach step Careful Init s) : Sound s :=
  (h.invariant (I := Inv) (fun _ => inv_init) fun _ _ _ hs hok hstep => inv_step hs hok hstep).sound

/-! ### A slot that is used again, and one that is used again too early -/

/-- A slot is given and freed. -/
def freeFirst : List SlotAct :=
  [.alloc (some 7), .run (.scanning 0 7 0), .free 0 0, .run (.reading 0 0),
    .run (.swapping 0 0 (some 7))]

/-- The slot is given again once it is freed, and another one at the same time. -/
theorem reused_sound : ∃ s : Table,
    run step {} (freeFirst ++ [.alloc (some 8), .alloc (some 9), .run (.testing 0 0),
      .run (.scanning 2 9 0), .run (.scanning 1 8 0), .run (.scanning 1 8 1)]) = some s ∧
    s.given = [(1, 1), (2, 0)] ∧ Sound s := by
  obtain ⟨s, hs, hq⟩ := Option.map_eq_some_iff.mp
    (show (run step {} (freeFirst ++ [.alloc (some 8), .alloc (some 9), .run (.testing 0 0),
      .run (.scanning 2 9 0), .run (.scanning 1 8 0), .run (.scanning 1 8 1)])).map Table.given =
        some [(1, 1), (2, 0)] by decide)
  exact ⟨s, hs, hq, sound_of_careful s (reach_of_run rfl (by decide) hs)⟩

/-- **The record of another session is freed** while that has its slot. -/
theorem freed_in_use : ¬ ∀ s, Reach step always Init s → Sound s := by
  intro hall
  obtain ⟨s, hs, hq⟩ := Option.map_eq_some_iff.mp
    (show (run step {} (freeFirst ++ [.alloc (some 8), .run (.scanning 1 8 0), .run (.testing 0 0),
      .run (.rereading 0 0), .run (.freeing 0 0 (some 8))])).map Table.frees =
        some [⟨some 1, 0, true⟩] by decide)
  have hsound := hall s (reach_of_run rfl (runOk_always _ _) hs)
  have hafter := hsound.after ⟨some 1, 0, true⟩ (by rw [hq]; exact List.mem_singleton_self _)
  cases hafter

end Libkinetic.Ktli.Slots
