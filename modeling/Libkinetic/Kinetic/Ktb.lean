import Libkinetic.Base.Memory
import Libkinetic.Base.Runs
import Libkinetic.Kinetic.Types

/-! # Typed buffers

`ki_create`, `ki_clean` and `ki_destroy`. The structures of the callers lie behind a header with a
magic number and their type, and a pointer is valid if such a header precedes it. The offsets are
those of a machine with pointers of eight bytes; a call that faults or runs out of stack has no
result. -/

namespace Libkinetic.Kinetic

open Libkinetic.Base.Memory Libkinetic.Base.Runs

/-- The number of a status. -/
def KStatus.code : KStatus → ℤ
  | .kInvalidSc => -1
  | .kErejected => 0
  | .kOk => 1
  | .kEhmac => 2
  | .kEaccess => 3
  | .kEversion => 4
  | .kEinternal => 5
  | .kEnoheader => 6
  | .kEnotfound => 7
  | .kEbadvers => 8
  | .kEbusy => 9
  | .kEtimedout => 10
  | .kEdata => 11
  | .kEpermdata => 12
  | .kEp2pconn => 13
  | .kEnospace => 14
  | .kEnohmac => 15
  | .kEinval => 16
  | .kEp2p => 17
  | .kElocked => 18
  | .kEnotlocked => 19
  | .kEconnaborted => 20
  | .kEinvalbat => 21
  | .kEhibernate => 22
  | .kEshutdown => 23
  | .kEagain => 0x8000
  | .kEnomsg => 0x8001
  | .kEnomem => 0x8002
  | .kEbadsess => 0x8003
  | .kEbatch => 0x8004

/-- `ktype_t` -/
inductive Ktype
  | ktNone | kvT | krangeT | kiterT | kbatchT | kgetlogT | kversionT | kstatsT | kappletT | ktLast
deriving DecidableEq

def Ktype.code : Ktype → ℕ
  | .ktNone => 0
  | .kvT => 1
  | .krangeT => 2
  | .kiterT => 3
  | .kbatchT => 4
  | .kgetlogT => 5
  | .kversionT => 6
  | .kstatsT => 7
  | .kappletT => 8
  | .ktLast => 9

/-- Between `KT_NONE` and `KT_LAST`. -/
def isKtype (t : ℕ) : Prop := Ktype.ktNone.code < t ∧ t < Ktype.ktLast.code

instance (t : ℕ) : Decidable (isKtype t) :=
  inferInstanceAs (Decidable (Ktype.ktNone.code < t ∧ t < Ktype.ktLast.code))

namespace Ktb

/-! ### The heap -/

/-- The memory of the program, and the blocks that `malloc` has given out, with their sizes. -/
structure Heap where
  mem : Mem
  blocks : ℕ → Option ℕ

/-- What is below the library. -/
structure Platform where
  /-- `ktb_buf_len`: the size of the structure of a type. -/
  sizeof : ℕ → ℕ
  /-- `malloc`: an address and what the bytes there read as, if there is memory. -/
  malloc : Heap → ℕ → Option (ℕ × (ℕ → Fin 256))
  /-- What the bytes of a block read as when it is freed. -/
  freed : Heap → Mem
  /-- What `b_startbatch` makes of the heap, for a session and a batch. -/
  startbatch : ℕ → ℕ → Heap → Option Heap

namespace Heap
variable (h : Heap)

/-- A new block. -/
def alloc (a n : ℕ) (f : ℕ → Fin 256) : Heap where
  mem := put h.mem a n f
  blocks := Function.update h.blocks a (some n)

def store (a n v : ℕ) : Option Heap :=
  (Base.Memory.store h.mem a n v).map fun mem => { h with mem }

def memset (a n : ℕ) (b : Fin 256) : Option Heap :=
  (fill h.mem a n b).map fun mem => { h with mem }

/-- `free`, which aborts if it is not given the start of a block. -/
def free (P : Platform) (a : ℕ) : Option Heap :=
  if a = 0 then some h
  else
    (h.blocks a).map fun n =>
      { mem := fun x => if a ≤ x ∧ x < a + n then P.freed h x else h.mem x
        blocks := Function.update h.blocks a none }

end Heap

/-! ### Headers -/

/-- `KTB_MAGIC` -/
def ktbMagic : ℕ := 0x000000465542544b

/-- `sizeof(ktb_t)`: the magic number in 8 bytes, then type, length and session in 4 each, 4 that are
not used, and the context and the function for the destruction. -/
def ktbSize : ℕ := 40

/-- `ktb_base`; addresses wrap around. -/
def ktbBase (p : ℕ) : ℕ := (p + (2 ^ 64 - ktbSize)) % 2 ^ 64

/-- `ktb_isvalid` -/
def ktbIsvalid (m : Mem) (p : ℕ) : Option Bool :=
  if p = 0 then some false
  else do
    let magic ← load m (ktbBase p) 8
    if magic ≠ ktbMagic then some false
    else
      let t ← load m (ktbBase p + 8) 4
      some (decide (isKtype t))

variable (P : Platform)

/-! ### Cleaning -/

/-- The message and the output of an applet are freed. -/
def kappletClean (h : Heap) (p : ℕ) : Option Heap := do
  let msg ← load h.mem (p + 56) 8
  let h ← h.free P msg
  let h ← h.store (p + 56) 8 0
  let out ← load h.mem (p + 64) 8
  let h ← h.free P out
  let h ← h.store (p + 64) 8 0
  h.store (p + 72) 8 0

/-- The cleaning that a type needs besides. -/
def typeClean (h : Heap) (p t : ℕ) : Option Heap :=
  if t = Ktype.kappletT.code then kappletClean P h p else some h

/-- **`ki_clean`** -/
def kiClean (h : Heap) (p : ℕ) : Option (KStatus × Heap) := do
  let valid ← ktbIsvalid h.mem p
  if ¬ valid then some (.kEinval, h)
  else
    let t ← load h.mem (ktbBase p + 8) 4
    let h ← typeClean P h p t
    let destroy ← load h.mem (ktbBase p + 32) 8
    -- no function of the library sets it
    if destroy ≠ 0 then none else some (.kOk, h)

/-! ### Destroying -/

/-- The elements of a key vector are freed, from `i` on. -/
def keyfree (h : Heap) (key : ℕ) : ℕ → ℕ → Option Heap
  | _, 0 => some h
  | i, n + 1 => do
    let base ← load h.mem (key + 16 * i) 8
    if base = 0 then keyfree h key (i + 1) n
    else
      let h ← h.free P base
      let h ← h.store (key + 16 * i) 8 0
      let h ← h.store (key + 16 * i + 8) 8 0
      keyfree h key (i + 1) n

/-- `ki_keydestroy` -/
def kiKeydestroy (h : Heap) (key keycnt : ℕ) : Option Heap := do
  if key = 0 then some h
  else
    let h ← keyfree P h key 0 keycnt
    h.free P key

/-- A key vector of a range, with its count. -/
def rangeKeyfree (h : Heap) (kr off : ℕ) : Option Heap := do
  let key ← load h.mem (kr + off) 8
  let keycnt ← load h.mem (kr + off + 8) 8
  kiKeydestroy P h key keycnt

/-- `i_rangeclean`: the keys, the start and the end of a range. -/
def iRangeclean (h : Heap) (kr : ℕ) : Option Heap := do
  if kr = 0 then some h
  else
    let h ← rangeKeyfree P h kr 48
    let h ← rangeKeyfree P h kr 8
    let h ← rangeKeyfree P h kr 24
    h.memset kr 80 0

/-- The ranges of an iterator are cleaned. -/
def rangesClean (p : ℕ) : List ℕ → Heap → Option Heap
  | [], h => some h
  | off :: offs, h => do
    let kr ← load h.mem (p + off) 8
    let h ← iRangeclean P h kr
    rangesClean p offs h

/-- The ranges of an iterator are destroyed with `destroy`, and their addresses cleared. -/
def rangesDestroy (destroy : Heap → ℕ → Option (KStatus × Heap)) (p : ℕ) :
    List ℕ → Heap → Option Heap
  | [], h => some h
  | off :: offs, h => do
    let kr ← load h.mem (p + off) 8
    let (_, h) ← destroy h kr
    let h ← h.store (p + off) 8 0
    rangesDestroy destroy p offs h

/-- `ki_rreq`, `ki_rwin1` and `ki_rwin2`. -/
def kiRanges : List ℕ := [8, 16, 24]

/-- `i_iterdestroy` -/
def iIterdestroy (destroy : Heap → ℕ → Option (KStatus × Heap)) (h : Heap) (p : ℕ) :
    Option Heap := do
  let h ← rangesClean P p kiRanges h
  rangesDestroy destroy p kiRanges h

/-- The destruction that a type needs besides. -/
def typeDestroy (destroy : Heap → ℕ → Option (KStatus × Heap)) (h : Heap) (p t : ℕ) :
    Option Heap :=
  if t = Ktype.kiterT.code then iIterdestroy P destroy h p else some h

/-- **`ki_destroy`**; `fuel` bounds the depth of the calls. -/
def kiDestroy : ℕ → Heap → ℕ → Option (KStatus × Heap)
  | 0, _, _ => none
  | fuel + 1, h, p => do
    let (krc, h) ← kiClean P h p
    if krc.code < 0 then some (.kEinval, h)
    else
      let k := ktbBase p
      let t ← load h.mem (k + 8) 4
      let h ← typeDestroy P (kiDestroy fuel) h p t
      let len ← load h.mem (k + 12) 4
      let h ← h.memset k len 0xEF
      let h ← h.free P k
      some (.kOk, h)

/-! ### Creating -/

/-- The buffer with its header, for a type that is one; the result is 0 without memory. -/
def ktbCreate (h : Heap) (ktd t : ℕ) : Option (ℕ × Heap) :=
  let l := uint32 (ktbSize + P.sizeof t)
  match P.malloc h l with
  | none => some (0, h)
  | some (a, f) => do
    let h ← (h.alloc a l f).memset a l 0
    let h ← h.store a 8 ktbMagic
    let h ← h.store (a + 8) 4 t
    let h ← h.store (a + 12) 4 l
    let h ← h.store (a + 16) 4 ktd
    some (a + ktbSize, h)

/-- A range is created for each of the offsets. -/
def rangesCreate (ktd p : ℕ) : List ℕ → Heap → Option (List ℕ × Heap)
  | [], h => some ([], h)
  | off :: offs, h => do
    let (kr, h) ← ktbCreate P h ktd Ktype.krangeT.code
    let h ← h.store (p + off) 8 kr
    let (krs, h) ← rangesCreate ktd p offs h
    some (kr :: krs, h)

/-- `i_iterinit`: `maxkeyreq` is the limit of the session, if `ktli_config` finds it. -/
def iIterinit (fuel : ℕ) (maxkeyreq : Option ℕ) (ktd : ℕ) (h : Heap) (p : ℕ) : Option Heap :=
  match maxkeyreq with
  | none => some h
  | some maxkeyreq => do
    let (krs, h) ← rangesCreate P 0 p kiRanges h
    if 0 ∈ krs then rangesDestroy (kiDestroy P fuel) p kiRanges h
    else
      let h ← h.store p 4 ktd
      let h ← h.store (p + 32) 8 0
      let h ← h.store (p + 40) 4 0
      let h ← h.store (p + 44) 4 0
      let h ← h.store (p + 48) 4 maxkeyreq
      h.store (p + 56) 8 0

/-- **`ki_create`**; the results of the type's own setup are not looked at. -/
def kiCreate (fuel : ℕ) (maxkeyreq : Option ℕ) (h : Heap) (ktd t : ℕ) : Option (ℕ × Heap) :=
  if ¬ isKtype t then some (0, h)
  else do
    let (p, h) ← ktbCreate P h ktd t
    if p = 0 then some (0, h)
    else if t = Ktype.kiterT.code then
      let h ← iIterinit P fuel maxkeyreq ktd h p
      some (p, h)
    else if t = Ktype.kbatchT.code then
      let h ← P.startbatch ktd p h
      some (p, h)
    else some (p, h)

/-! ### Calls -/

inductive KtbCall
  | create (maxkeyreq : Option ℕ) (ktd t : ℕ)
  | clean (p : ℕ)
  | destroy (p : ℕ)
deriving DecidableEq

/-- The heap after a call. -/
def ktbStep (fuel : ℕ) (h : Heap) : KtbCall → Option Heap
  | .create maxkeyreq ktd t => (kiCreate P fuel maxkeyreq h ktd t).map Prod.snd
  | .clean p => (kiClean P h p).map Prod.snd
  | .destroy p => (kiDestroy P fuel h p).map Prod.snd

/-- The pointer is refused, and nothing changes. -/
def Refuses (h : Heap) (p : ℕ) : Prop := ∃ fuel, kiDestroy P fuel h p = some (.kEinval, h)

section Guard
variable {P : Platform} {h h' : Heap} {p fuel : ℕ} {krc : KStatus}

/-- The only status with a negative number. -/
theorem code_neg_iff (krc : KStatus) : krc.code < 0 ↔ krc = .kInvalidSc := by
  cases krc <;> simp [KStatus.code]

theorem kiClean_krc (hc : kiClean P h p = some (krc, h')) : krc = .kOk ∨ krc = .kEinval := by
  obtain ⟨valid, -, hc⟩ := Option.bind_eq_some_iff.mp hc
  split_ifs at hc
  · obtain ⟨t, -, hc⟩ := Option.bind_eq_some_iff.mp hc
    obtain ⟨h1, -, hc⟩ := Option.bind_eq_some_iff.mp hc
    obtain ⟨destroy, -, hc⟩ := Option.bind_eq_some_iff.mp hc
    split_ifs at hc
    cases hc
    exact .inl rfl
  · cases hc
    exact .inr rfl

/-- Cleaning refuses a pointer without a valid header, and changes nothing. -/
theorem kiClean_invalid (hp : ktbIsvalid h.mem p = some false) :
    kiClean P h p = some (.kEinval, h) := by
  simp [kiClean, hp]

/-- What `ki_destroy` does when it returns: the test after the cleaning never fails. -/
theorem kiDestroy_some (hd : kiDestroy P fuel h p = some (krc, h')) :
    krc = .kOk ∧ ∃ (h1 h2 : Heap) (len : ℕ), h1.memset (ktbBase p) len 0xEF = some h2 ∧
      h2.free P (ktbBase p) = some h' := by
  cases fuel with
  | zero => cases hd
  | succ fuel =>
    obtain ⟨⟨krc1, h1⟩, hc, hd⟩ := Option.bind_eq_some_iff.mp hd
    have hguard : ¬ krc1.code < 0 := by
      rw [code_neg_iff]
      rcases kiClean_krc hc with rfl | rfl <;> decide
    simp only [if_neg hguard] at hd
    obtain ⟨t, -, hd⟩ := Option.bind_eq_some_iff.mp hd
    obtain ⟨h2, -, hd⟩ := Option.bind_eq_some_iff.mp hd
    obtain ⟨len, -, hd⟩ := Option.bind_eq_some_iff.mp hd
    obtain ⟨h3, hset, hd⟩ := Option.bind_eq_some_iff.mp hd
    obtain ⟨h4, hfree, hd⟩ := Option.bind_eq_some_iff.mp hd
    cases hd
    exact ⟨rfl, h2, h3, len, hset, hfree⟩

/-- If `ki_destroy` returns, then it has freed what lies before the pointer. -/
theorem kiDestroy_frees (hd : kiDestroy P fuel h p = some (krc, h')) (hp : ktbBase p ≠ 0) :
    h'.blocks (ktbBase p) = none := by
  obtain ⟨-, h1, h2, len, -, hfree⟩ := kiDestroy_some hd
  unfold Heap.free at hfree
  rw [if_neg hp] at hfree
  obtain ⟨n, -, rfl⟩ := Option.map_eq_some_iff.mp hfree
  simp

theorem not_refuses (P : Platform) (h : Heap) (p : ℕ) : ¬ Refuses P h p := by
  rintro ⟨fuel, hd⟩
  obtain ⟨hk, -⟩ := kiDestroy_some hd
  cases hk

/-- Null is not refused: its header would be at the end of the address space. -/
theorem kiDestroy_null (hnull : h.mem (2 ^ 64 - 32) = none) (fuel : ℕ) :
    kiDestroy P fuel h 0 = none := by
  cases fuel with
  | zero => rfl
  | succ fuel =>
    have hc : kiClean P h 0 = some (.kEinval, h) := kiClean_invalid (by simp [ktbIsvalid])
    have htype : load h.mem (ktbBase 0 + 8) 4 = none := by
      have hbase : ktbBase 0 + 8 = 2 ^ 64 - 32 := by norm_num [ktbBase, ktbSize]
      rw [hbase, load, hnull]
      rfl
    simp [kiDestroy, hc, KStatus.code, htype]

theorem Heap.store_some {a n v : ℕ} (hs : h.store a n v = some h') :
    h'.mem = put h.mem a n (digit v) := by
  obtain ⟨mem, hmem, rfl⟩ := Option.map_eq_some_iff.mp hs
  exact Base.Memory.store_some hmem

theorem Heap.store_unmapped {a n v x : ℕ} (hs : h.store a n v = some h') (hx : h.mem x = none) :
    h'.mem x = none := by
  obtain ⟨mem, hmem, rfl⟩ := Option.map_eq_some_iff.mp hs
  exact Base.Memory.store_unmapped hmem hx

/-- A pointer to a created buffer is valid. -/
theorem ktbCreate_valid {ktd t : ℕ} (hc : ktbCreate P h ktd t = some (p, h')) (hp : p ≠ 0)
    (hlt : p < 2 ^ 64) (ht : isKtype t) : ktbIsvalid h'.mem p = some true := by
  simp only [ktbCreate] at hc
  split at hc
  · cases hc
    exact absurd rfl hp
  · case _ a f hmalloc =>
    obtain ⟨h1, -, hc⟩ := Option.bind_eq_some_iff.mp hc
    obtain ⟨h2, hmagic, hc⟩ := Option.bind_eq_some_iff.mp hc
    obtain ⟨h3, htype, hc⟩ := Option.bind_eq_some_iff.mp hc
    obtain ⟨h4, hlen, hc⟩ := Option.bind_eq_some_iff.mp hc
    obtain ⟨h5, hktd, hc⟩ := Option.bind_eq_some_iff.mp hc
    cases hc
    have hbase : ktbBase (a + ktbSize) = a := by
      unfold ktbBase ktbSize at *
      omega
    have hload : load h'.mem a 8 = some ktbMagic := by
      rw [Heap.store_some hktd, load_put_of_disjoint (by omega), Heap.store_some hlen,
        load_put_of_disjoint (by omega), Heap.store_some htype, load_put_of_disjoint (by omega),
        Heap.store_some hmagic, load_put_digit]
      rfl
    have hload' : load h'.mem (a + 8) 4 = some t := by
      have hsmall : t % 256 ^ 4 = t := Nat.mod_eq_of_lt (by
        have := ht.2
        simp only [Ktype.code] at this
        omega)
      rw [Heap.store_some hktd, load_put_of_disjoint (by omega), Heap.store_some hlen,
        load_put_of_disjoint (by omega), Heap.store_some htype, load_put_digit, hsmall]
    unfold ktbIsvalid
    rw [if_neg hp, hbase]
    simp [hload, hload', ht]

/-- **An iterator whose ranges cannot be created** brings the program down: `i_iterinit` destroys
the null pointers. -/
theorem iIterinit_dies (hmem : ∀ h n, P.malloc h n = none) (hnull : h.mem (2 ^ 64 - 32) = none)
    (maxkeyreq ktd : ℕ) : iIterinit P fuel (some maxkeyreq) ktd h p = none := by
  have hcreate : ∀ h, ktbCreate P h 0 Ktype.krangeT.code = some (0, h) := by
    intro h
    simp [ktbCreate, hmem]
  simp only [iIterinit, kiRanges, rangesCreate, rangesDestroy, hcreate, Option.bind_eq_bind,
    Option.bind_some]
  rcases h1s : h.store (p + 8) 8 0 with _ | h1
  · rfl
  rcases h2s : h1.store (p + 16) 8 0 with _ | h2
  · simp [h2s]
  rcases h3s : h2.store (p + 24) 8 0 with _ | h3
  · simp [h2s, h3s]
  have hrange : load h3.mem (p + 8) 8 = some 0 := by
    rw [Heap.store_some h3s, load_put_of_disjoint (by omega), Heap.store_some h2s,
      load_put_of_disjoint (by omega), Heap.store_some h1s, load_put_digit, Nat.zero_mod]
  have hnull3 : h3.mem (2 ^ 64 - 32) = none :=
    Heap.store_unmapped h3s (Heap.store_unmapped h2s (Heap.store_unmapped h1s hnull))
  simp [h2s, h3s, hrange, kiDestroy_null hnull3]

/-- **After any calls** no pointer without a valid header is refused. -/
theorem never_refuses (P : Platform) (fuel : ℕ) (h0 : Heap) (calls : List KtbCall) :
    ∀ h ∈ run (ktbStep P fuel) h0 calls, ∀ p, ktbIsvalid h.mem p ≠ some true →
      ¬ Refuses P h p := by
  intro h _ p _
  exact not_refuses P h p

end Guard

/-! ### A structure of the caller -/

/-- An allocator that gives out one block, and a memory in which freed bytes keep their values. -/
def onePlatform : Platform where
  sizeof _ := 112
  malloc h _ := if h.blocks 4096 = none then some (4096, fun _ => 0) else none
  freed h := h.mem
  startbatch _ _ h := some h

/-- Nothing is mapped. -/
def emptyHeap : Heap := { mem := fun _ => none, blocks := fun _ => none }

/-- A block of 80 zero bytes that the caller has allocated. -/
def callerHeap : Heap := emptyHeap.alloc 1000 80 fun _ => 0

/-- After a buffer was created in the caller's heap. -/
theorem never_refuses_caller :
    ∃ h ∈ run (ktbStep onePlatform 2) callerHeap [.create none 0 Ktype.kvT.code],
      ¬ Refuses onePlatform h 1040 := by
  have hrun : (run (ktbStep onePlatform 2) callerHeap
      [.create none 0 Ktype.kvT.code]).isSome = true := by decide +kernel
  have hinvalid : (run (ktbStep onePlatform 2) callerHeap
      [.create none 0 Ktype.kvT.code]).all
        (fun h => decide (ktbIsvalid h.mem 1040 ≠ some true)) = true := by decide +kernel
  obtain ⟨h, hh⟩ := Option.isSome_iff_exists.mp hrun
  rw [hh] at hinvalid
  exact ⟨h, hh, never_refuses onePlatform 2 callerHeap _ h hh 1040 (by simpa using hinvalid)⟩

/-- **A pointer into a structure that was not created here** is not refused: the block of the caller
is freed, and the status is `K_OK`. -/
theorem caller_block_freed :
    ktbIsvalid callerHeap.mem 1040 = some false ∧
      (kiDestroy onePlatform 1 callerHeap 1040).map (fun r => (r.1, r.2.blocks 1000)) =
        some (.kOk, none) ∧
      ¬ (∀ p, ktbIsvalid callerHeap.mem p ≠ some true → Refuses onePlatform callerHeap p) := by
  refine ⟨by decide, by decide, fun h => ?_⟩
  exact not_refuses onePlatform callerHeap 1040 (h 1040 (by decide))

end Ktb

end Libkinetic.Kinetic
