import Libkinetic.Ktli.Slots

/-! # Opening a session

`ktli_open` and `kts_isvalid` on the session table, with nobody else at work on it. An index outside
of the table has no slot, and a null pointer that is followed has no result. The exit of `ktli_open`
that follows a full table frees the slot -1. -/

namespace Libkinetic.Ktli.Table

open Libkinetic.Ktli.Slots (ktsTableSize)

/-! ### The table -/

/-- `kts_table`; a record is its address. -/
abbrev KtsTable := Fin ktsTableSize → Option ℕ

/-- The table, and whether `ktli_init` has run; until then it is as it was loaded. -/
structure KtsState where
  ktliUp : Bool
  table : KtsTable
  loaded : ktliUp = false → table = fun _ => none

/-- A read of the table. -/
def slotAt (t : KtsTable) (kts : ℤ) : Option (Option ℕ) :=
  if h : 0 ≤ kts ∧ kts < ktsTableSize then some (t ⟨kts.toNat, by omega⟩) else none

/-- The first slot that a compare and swap with null can take. -/
def firstFree {n : ℕ} (t : Fin n → Option ℕ) : Option (Fin n) :=
  (List.finRange n).find? fun i => t i = none

/-- `kts_alloc_slot`; `ks` is what `malloc` returns. -/
def ktsAllocSlot (ks : Option ℕ) (t : KtsTable) : ℤ × KtsTable :=
  match ks with
  | none => (-1, t)
  | some ks =>
    match firstFree t with
    | none => (-1, t)
    | some i => (i, Function.update t i (some ks))

/-- `kts_free_slot`; the second read finds the null that the compare and swap has left. -/
def ktsFreeSlot (kts : ℤ) (t : KtsTable) : Option KtsTable :=
  if h : 0 ≤ kts ∧ kts < ktsTableSize then some (Function.update t ⟨kts.toNat, by omega⟩ none)
  else none

/-- **`kts_isvalid`** -/
def ktsIsvalid (t : KtsTable) (kts : ℤ) : Option Bool :=
  if kts < 0 ∨ (ktsTableSize : ℤ) < kts then some false
  else (slotAt t kts).map Option.isSome

/-! ### Opening -/

/-- `ktli_helpers_t`: which of the functions are given, and the length. -/
structure KtliHelpers where
  khRecvhdrLen : ℤ
  khGetaseqFn : Bool := true
  khSetseqFn : Bool := true
  khMsglenFn : Bool := true

/-- `KTLI_DRIVER_NONE` -/
def ktliDriverNone : ℤ := 0

/-- `KTLI_DRIVER_SOCKET` -/
def ktliDriverSocket : ℤ := 1

/-- The ids in `ktlid_table`. -/
def ktlidTable : List ℤ := [ktliDriverSocket, ktliDriverNone]

/-- What the environment decides about an open. -/
structure OpenEnv where
  /-- The allocations of the index and of the queues. -/
  kts : Bool := true
  sq : Bool := true
  rq : Bool := true
  cq : Bool := true
  /-- `list_create`, for each of the queues. -/
  sqList : Bool := true
  rqList : Bool := true
  cqList : Bool := true
  /-- The record of the session. -/
  ks : Option ℕ
  /-- The open of the driver. -/
  dh : Bool := true
  /-- `pthread_create`, for the sender and the receiver. -/
  stid : Bool := true
  rtid : Bool := true

/-- What `ktli_open` returns, and the table. -/
structure OpenResult where
  rc : ℤ
  table : KtsTable

/-- The arguments are turned down. -/
def ArgsRefused (did : ℤ) (kh : Option KtliHelpers) : Prop :=
  did ∉ ktlidTable.takeWhile (· ≠ ktliDriverNone) ∨
    ∀ h ∈ kh, h.khGetaseqFn = false ∨ h.khSetseqFn = false ∨ h.khMsglenFn = false ∨
      h.khRecvhdrLen ≤ 0 ∨ 1024 < h.khRecvhdrLen

instance (did : ℤ) (kh : Option KtliHelpers) : Decidable (ArgsRefused did kh) := by
  unfold ArgsRefused; infer_instance

/-- The index, the queues and their lists are there. -/
def OpenEnv.queues (e : OpenEnv) : Bool :=
  e.kts && e.sq && e.rq && e.cq && e.sqList && e.rqList && e.cqList

/-- `open_err` -/
def openErr (kts : ℤ) (t : KtsTable) : Option OpenResult :=
  (ktsFreeSlot kts t).map fun t => ⟨-1, t⟩

/-- `ktli_init`, on the first open. -/
def ktliInit (s : KtsState) : KtsTable := if s.ktliUp then s.table else fun _ => none

/-- **`ktli_open`** -/
def ktliOpen (e : OpenEnv) (did : ℤ) (kh : Option KtliHelpers) (s : KtsState) :
    Option OpenResult :=
  let t := ktliInit s
  if ArgsRefused did kh then some ⟨-1, t⟩
  else if ¬ e.queues then
    -- what was allocated is undone, by way of the lists of all three queues
    if e.sq && e.rq && e.cq then some ⟨-1, t⟩ else none
  else
    let (kts, t) := ktsAllocSlot e.ks t
    if kts < 0 then openErr kts t
    else if ¬ e.dh then openErr kts t
    else if ¬ e.stid then openErr kts t
    else if ¬ e.rtid then openErr kts t
    else some ⟨kts, t⟩

/-! ### The properties -/

/-- The slots in use. -/
def occupied (t : KtsTable) : Set (Fin ktsTableSize) := {i | t i ≠ none}

/-- **An open takes a free slot, or fails and leaves the table as it was.** -/
def OpenSafe (e : OpenEnv) (did : ℤ) (kh : Option KtliHelpers) (s : KtsState) : Prop :=
  ∃ r, ktliOpen e did kh s = some r ∧
    ((∃ i : Fin ktsTableSize, r.rc = i ∧ i ∉ occupied s.table ∧
        occupied r.table = insert i (occupied s.table)) ∨
      r.rc = -1 ∧ occupied r.table = occupied s.table)

/-- **What is valid is the index of a slot in use.** -/
def IsvalidSafe (t : KtsTable) (kts : ℤ) : Prop :=
  ∃ valid, ktsIsvalid t kts = some valid ∧
    (valid = true → ∃ i : Fin ktsTableSize, kts = i ∧ i ∈ occupied t)

/-- The arguments are turned down; or the queues are allocated, and if their lists and the index are
there as well, then a record and a free slot are, too. -/
def OpenMeets (e : OpenEnv) (did : ℤ) (kh : Option KtliHelpers) (s : KtsState) : Prop :=
  ArgsRefused did kh ∨
    (e.sq = true ∧ e.rq = true ∧ e.cq = true) ∧
      (e.queues = true → e.ks.isSome ∧ ∃ i, i ∉ occupied s.table)

section Table
variable {e : OpenEnv} {did : ℤ} {kh : Option KtliHelpers} {s : KtsState} {t : KtsTable} {kts : ℤ}

/-! ### The functions of the table -/

theorem slotAt_fin (t : KtsTable) (i : Fin ktsTableSize) : slotAt t i = some (t i) := by
  have hi : 0 ≤ (i : ℤ) ∧ (i : ℤ) < ktsTableSize := by omega
  rw [slotAt, dif_pos hi]
  congr

theorem slotAt_outside (h : kts < 0 ∨ (ktsTableSize : ℤ) ≤ kts) : slotAt t kts = none := by
  rw [slotAt, dif_neg]
  omega

theorem ktsFreeSlot_fin (t : KtsTable) (i : Fin ktsTableSize) :
    ktsFreeSlot i t = some (Function.update t i none) := by
  have hi : 0 ≤ (i : ℤ) ∧ (i : ℤ) < ktsTableSize := by omega
  rw [ktsFreeSlot, dif_pos hi]
  congr

theorem ktsFreeSlot_outside (h : kts < 0 ∨ (ktsTableSize : ℤ) ≤ kts) :
    ktsFreeSlot kts t = none := by
  rw [ktsFreeSlot, dif_neg]
  omega

theorem firstFree_some {n : ℕ} {t : Fin n → Option ℕ} (h : ∃ i, t i = none) :
    ∃ i, t i = none ∧ firstFree t = some i := by
  obtain ⟨j, hj⟩ := h
  have hfree : (firstFree t).isSome := by
    rw [firstFree, List.find?_isSome]
    exact ⟨j, List.mem_finRange j, decide_eq_true hj⟩
  obtain ⟨i, hi⟩ := Option.isSome_iff_exists.mp hfree
  have hnone : decide (t i = none) = true := List.find?_some (p := fun i => t i = none) hi
  exact ⟨i, of_decide_eq_true hnone, hi⟩

theorem firstFree_none {n : ℕ} {t : Fin n → Option ℕ} (h : ∀ i, t i ≠ none) :
    firstFree t = none := by
  rw [firstFree, List.find?_eq_none]
  intro i _
  simpa using h i

theorem notMem_occupied {i : Fin ktsTableSize} : i ∉ occupied t ↔ t i = none := not_not

/-- The first free slot is taken, if there is one and a record for it. -/
theorem ktsAllocSlot_some {ks : ℕ} (h : ∃ i, i ∉ occupied t) :
    ∃ i, i ∉ occupied t ∧ ktsAllocSlot (some ks) t = ((i : ℤ), Function.update t i (some ks)) := by
  obtain ⟨j, hj⟩ := h
  obtain ⟨i, hi, hfirst⟩ := firstFree_some ⟨j, notMem_occupied.mp hj⟩
  refine ⟨i, notMem_occupied.mpr hi, ?_⟩
  unfold ktsAllocSlot
  dsimp only
  rw [hfirst]

theorem ktsAllocSlot_fails {ks : Option ℕ} (h : ks = none ∨ ∀ i, i ∈ occupied t) :
    ktsAllocSlot ks t = (-1, t) := by
  rcases h with rfl | hfull
  · rfl
  rcases ks with _ | ks
  · rfl
  have hnone : firstFree t = none := firstFree_none hfull
  unfold ktsAllocSlot
  dsimp only
  rw [hnone]

theorem occupied_update_some (t : KtsTable) (i : Fin ktsTableSize) (ks : ℕ) :
    occupied (Function.update t i (some ks)) = insert i (occupied t) := by
  ext j
  by_cases hj : j = i
  · subst hj
    simp [occupied]
  · simp [occupied, hj]

/-- A slot that is taken and freed again leaves the table as it was. -/
theorem update_none_update {i : Fin ktsTableSize} (h : i ∉ occupied t) (ks : ℕ) :
    Function.update (Function.update t i (some ks)) i none = t := by
  have hi : t i = none := notMem_occupied.mp h
  rw [Function.update_idem, ← hi, Function.update_eq_self]

theorem ktliInit_eq (s : KtsState) : ktliInit s = s.table := by
  unfold ktliInit
  split_ifs with h
  · rfl
  · exact (s.loaded (Bool.eq_false_of_not_eq_true h)).symm

/-! ### An open -/

/-- With its queues an open goes on to the table. -/
theorem ktliOpen_queues (hargs : ¬ ArgsRefused did kh) (hq : e.queues = true) :
    ktliOpen e did kh s =
      let (kts, t) := ktsAllocSlot e.ks s.table
      if kts < 0 then openErr kts t
      else if e.dh && e.stid && e.rtid then some ⟨kts, t⟩ else openErr kts t := by
  unfold ktliOpen
  dsimp only
  rw [if_neg hargs, if_neg (not_not.mpr hq), ktliInit_eq]
  rcases ktsAllocSlot e.ks s.table with ⟨kts, t⟩
  dsimp only
  cases e.dh <;> cases e.stid <;> cases e.rtid <;> rfl

/-- **An open that finds a slot** returns it, or frees it and fails. -/
theorem openSafe_of_slot (hargs : ¬ ArgsRefused did kh) (hq : e.queues = true)
    (hks : e.ks.isSome) (hfree : ∃ i, i ∉ occupied s.table) : OpenSafe e did kh s := by
  obtain ⟨ks, hks⟩ := Option.isSome_iff_exists.mp hks
  have hslot : ∃ i, i ∉ occupied s.table ∧
      ktsAllocSlot (some ks) s.table = ((i : ℤ), Function.update s.table i (some ks)) :=
    ktsAllocSlot_some hfree
  obtain ⟨i, hi, halloc⟩ := hslot
  have hpos : ¬ ((i : ℕ) : ℤ) < 0 := by omega
  have hopen := ktliOpen_queues (s := s) hargs hq
  rw [hks, halloc] at hopen
  dsimp only at hopen
  rw [if_neg hpos] at hopen
  split_ifs at hopen
  · exact ⟨_, hopen, .inl ⟨i, rfl, hi, occupied_update_some s.table i ks⟩⟩
  · rw [openErr, ktsFreeSlot_fin, update_none_update hi] at hopen
    exact ⟨_, hopen, .inr ⟨rfl, rfl⟩⟩

/-- **An open that finds none** frees the slot -1. -/
theorem ktliOpen_noslot (hargs : ¬ ArgsRefused did kh) (hq : e.queues = true)
    (h : e.ks = none ∨ ∀ i, i ∈ occupied s.table) : ktliOpen e did kh s = none := by
  have hopen := ktliOpen_queues (s := s) hargs hq
  rw [ktsAllocSlot_fails h] at hopen
  dsimp only at hopen
  rw [hopen, if_pos (by decide), openErr, ktsFreeSlot_outside (.inl (by decide))]
  rfl

theorem ktliOpen_noqueues (hargs : ¬ ArgsRefused did kh) (hq : ¬ e.queues = true) :
    ktliOpen e did kh s = if e.sq && e.rq && e.cq then some ⟨-1, s.table⟩ else none := by
  unfold ktliOpen
  dsimp only
  rw [if_neg hargs, if_pos hq, ktliInit_eq]

theorem openSafe_iff : OpenSafe e did kh s ↔ OpenMeets e did kh s := by
  have hnone : ktliOpen e did kh s = none → ¬ OpenSafe e did kh s := by
    rintro hret ⟨r, hr, -⟩
    rw [hret] at hr
    cases hr
  unfold OpenMeets
  by_cases hargs : ArgsRefused did kh
  · refine iff_of_true ⟨⟨-1, s.table⟩, ?_, .inr ⟨rfl, rfl⟩⟩ (.inl hargs)
    unfold ktliOpen
    dsimp only
    rw [if_pos hargs, ktliInit_eq]
  rw [or_iff_right hargs]
  by_cases hq : e.queues = true
  · have hthree : e.sq = true ∧ e.rq = true ∧ e.cq = true := by
      simp only [OpenEnv.queues, Bool.and_eq_true] at hq
      tauto
    rw [and_iff_right hthree]
    constructor
    · intro hsafe _
      by_contra hno
      refine hnone (ktliOpen_noslot hargs hq ?_) hsafe
      rw [not_and_or, Option.not_isSome_iff_eq_none] at hno
      push Not at hno
      exact hno
    · exact fun hslot => openSafe_of_slot hargs hq (hslot hq).1 (hslot hq).2
  · have hopen := ktliOpen_noqueues (s := s) hargs hq
    rw [and_iff_left fun h => absurd h hq]
    constructor
    · intro hsafe
      by_contra hno
      refine hnone ?_ hsafe
      rw [hopen, if_neg]
      simpa [and_assoc] using hno
    · rintro ⟨hsq, hrq, hcq⟩
      rw [hsq, hrq, hcq] at hopen
      exact ⟨_, hopen, .inr ⟨rfl, rfl⟩⟩

/-! ### The check of an index -/

theorem ktsIsvalid_fin (t : KtsTable) (i : Fin ktsTableSize) :
    ktsIsvalid t i = some (t i).isSome := by
  rw [ktsIsvalid, if_neg (by omega), slotAt_fin]
  rfl

theorem isvalidSafe_iff : IsvalidSafe t kts ↔ kts ≠ ktsTableSize := by
  rcases lt_trichotomy kts ktsTableSize with hlt | heq | hgt
  · refine iff_of_true ?_ hlt.ne
    by_cases hneg : kts < 0
    · exact ⟨false, if_pos (.inl hneg), nofun⟩
    · obtain ⟨i, rfl⟩ : ∃ i : Fin ktsTableSize, kts = i := ⟨⟨kts.toNat, by omega⟩, by simp; omega⟩
      refine ⟨_, ktsIsvalid_fin t i, fun h => ⟨i, rfl, ?_⟩⟩
      exact Option.isSome_iff_ne_none.mp h
  · refine iff_of_false ?_ (not_not.mpr heq)
    rintro ⟨valid, hvalid, -⟩
    rw [ktsIsvalid, if_neg (by omega), slotAt_outside (.inr heq.ge)] at hvalid
    cases hvalid
  · exact iff_of_true ⟨false, if_pos (.inr hgt), nofun⟩ hgt.ne'

/-- **When the table is used as it should be**: an open that gets as far as the table finds a record
and a free slot, no queue is missing, and the index that is checked is not the one behind the last
slot. -/
theorem table_safe_iff (e : OpenEnv) (did : ℤ) (kh : Option KtliHelpers) (s : KtsState) (kts : ℤ) :
    OpenSafe e did kh s ∧ IsvalidSafe s.table kts ↔
      OpenMeets e did kh s ∧ kts ≠ ktsTableSize :=
  and_congr openSafe_iff isvalidSafe_iff

/-- A table in which every slot is in use. -/
def fullTable : KtsState := ⟨true, fun _ => some 4096, nofun⟩

/-- The helpers of the protocol. -/
def kineticHelpers : KtliHelpers := { khRecvhdrLen := 9 }

/-- **A full table**, a queue without memory, and the index 1024. -/
theorem table_not_safe :
    ¬ OpenSafe { ks := some 8192 } ktliDriverSocket (some kineticHelpers) fullTable ∧
      ¬ OpenSafe { sq := false, ks := some 8192 } ktliDriverSocket (some kineticHelpers)
          ⟨false, fun _ => none, fun _ => rfl⟩ ∧
        ¬ IsvalidSafe fullTable.table 1024 := by
  have hargs : ¬ ArgsRefused ktliDriverSocket (some kineticHelpers) := by decide
  refine ⟨fun h => ?_, fun h => ?_, fun h => isvalidSafe_iff.mp h rfl⟩
  · obtain ⟨-, hslot⟩ := (openSafe_iff.mp h).resolve_left hargs
    obtain ⟨-, i, hi⟩ := hslot rfl
    exact hi nofun
  · obtain ⟨hthree, -⟩ := (openSafe_iff.mp h).resolve_left hargs
    exact Bool.false_ne_true hthree.1

end Table

end Libkinetic.Ktli.Table
