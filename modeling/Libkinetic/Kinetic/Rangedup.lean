import Libkinetic.Base.Blocks
import Libkinetic.Kinetic.Range

/-! # Copies of ranges

`ki_keydup` and `ki_rangecpy` with an allocator that may fail at any call. The vectors of a range
keep the counts they are stored with, and a vector that was freed stays where it is stored. Nothing
comes of an array that is read past its end, of a block that is freed twice, and of an index that
would have to pass the largest `int`. -/

namespace Libkinetic.Kinetic.Rangedup

open Libkinetic.Base.Blocks

/-! ### Vectors in memory -/

/-- `struct kiovec`: the block with the bytes, unless it is null. -/
structure Iov where
  kiovBase : Option ℕ := none
  bytes : List Byte := []

/-- An array of them. -/
structure Vec where
  block : ℕ
  iov : List Iov

/-- The bases of the first elements are freed; what is left is the number of the elements. -/
def freeBases : ℕ → List Iov → ℕ → Heap → Option Heap
  | _, _, 0, h => some h
  | _, [], _ + 1, _ => none
  | i, e :: iov, n + 1, h =>
    match e.kiovBase with
    | none => if i + 1 < 2 ^ 31 then freeBases (i + 1) iov n h else none
    | some p =>
      match h.free p with
      | none => none
      | some h => if i + 1 < 2 ^ 31 then freeBases (i + 1) iov n h else none

/-- `ki_keydestroy` -/
def kiKeydestroy (key : Option Vec) (keycnt : ℕ) (h : Heap) : Option Heap :=
  match key with
  | none => some h
  | some v => (freeBases 0 v.iov keycnt h).bind fun h => h.free v.block

/-- The loop of `ki_keydup`, with its index and the elements that it has copied. The count for
`ki_keydestroy` is an `int` that becomes a `size_t`. -/
def dupLoop (ok : ℕ → Bool) (new : ℕ) : ℕ → List Iov → Keyvec → Heap → Option (Option Vec × Heap)
  | _, iov, [], h => some (some ⟨new, iov⟩, h)
  | i, iov, b :: key, h =>
    match h.malloc ok with
    | (none, h) =>
      let v : Vec := ⟨new, iov ++ List.replicate (key.length + 1) {}⟩
      (kiKeydestroy (some v) (((i : ℤ) - 1) % 2 ^ 64).toNat h).bind fun h =>
        (h.free new).map fun h => (none, h)
    | (some p, h) =>
      if i + 1 < 2 ^ 31 then dupLoop ok new (i + 1) (iov ++ [⟨some p, b⟩]) key h else none

/-- The elements behind a pointer to a vector. -/
def frags (key : Option Keyvec) : Keyvec := key.getD []

/-- **`ki_keydup`** -/
def kiKeydup (ok : ℕ → Bool) (key : Option Keyvec) (h : Heap) : Option (Option Vec × Heap) :=
  if frags key = [] then some (none, h)
  else
    match h.malloc ok with
    | (none, h) => some (none, h)
    | (some new, h) => dupLoop ok new 0 [] (frags key) h

/-! ### Ranges in memory -/

/-- `krange_t` as `ki_create` leaves it, and as it is filled. -/
structure RangeObj where
  krFlags : BitVec 32 := 0
  krStart : Option Vec := none
  krStartcnt : ℕ := 0
  krEnd : Option Vec := none
  krEndcnt : ℕ := 0
  krCount : ℤ := 0
  krKeys : Option Vec := none
  krKeyscnt : ℕ := 0

/-- **`ki_rangecpy`**: whether it does not return null, what is in the structure, and the heap. -/
def kiRangecpy (ok : ℕ → Bool) (dst : RangeObj) (src : Krange) (h : Heap) :
    Option (Bool × RangeObj × Heap) := do
  let (krStart, h) ← kiKeydup ok src.krStart h
  let dst := { dst with krStartcnt := (frags src.krStart).length, krStart }
  if src.krStart.isSome ∧ dst.krStart.isNone then some (false, dst, h)
  else do
    let (krEnd, h) ← kiKeydup ok src.krEnd h
    let dst := { dst with krEndcnt := (frags src.krEnd).length, krEnd }
    if src.krEnd.isSome ∧ dst.krEnd.isNone then do
      let h ← kiKeydestroy dst.krStart dst.krStartcnt h
      some (false, dst, h)
    else do
      let (krKeys, h) ← kiKeydup ok src.krKeys h
      let dst := { dst with krKeyscnt := (frags src.krKeys).length, krKeys }
      if src.krKeys.isSome ∧ dst.krKeys.isNone then do
        let h ← kiKeydestroy dst.krStart dst.krStartcnt h
        let h ← kiKeydestroy dst.krEnd dst.krEndcnt h
        some (false, dst, h)
      else some (true, { dst with krFlags := src.krFlags, krCount := src.krCount }, h)

/-- **`ki_rangedup`**: `created` says whether `ki_create` gets the structure. The result of
`ki_rangecpy`, a pointer, is never less than 0. -/
def kiRangedup (created : Bool) (ok : ℕ → Bool) (kr : Option Krange) (h : Heap) :
    Option (Option RangeObj × Heap) :=
  match kr with
  | none => some (none, h)
  | some kr =>
    if ¬ created then some (none, h)
    else (kiRangecpy ok {} kr h).map fun (_, new, h) => (some new, h)

/-! ### The property -/

/-- The array and its elements are in use. -/
def Vec.Live (h : Heap) (v : Vec) : Prop :=
  v.block ∈ h.live ∧ ∀ e ∈ v.iov, ∃ p ∈ h.live, e.kiovBase = some p

/-- The vector has these fragments, and as many as its count says. -/
structure SameVec (h : Heap) (v : Option Vec) (cnt : ℕ) (key : Keyvec) : Prop where
  count : cnt = key.length
  null : v = none → key = []
  copy : ∀ w ∈ v, w.Live h ∧ w.iov.map Iov.bytes = key

/-- **The range is a copy.** -/
structure SameRange (h : Heap) (new : RangeObj) (kr : Krange) : Prop where
  startKey : SameVec h new.krStart new.krStartcnt (frags kr.krStart)
  endKey : SameVec h new.krEnd new.krEndcnt (frags kr.krEnd)
  keys : SameVec h new.krKeys new.krKeyscnt (frags kr.krKeys)
  flags : new.krFlags = kr.krFlags
  count : new.krCount = kr.krCount

/-- `ki_rangedup` returns null or a copy. -/
def Duplicates (created : Bool) (ok : ℕ → Bool) (kr : Krange) (h : Heap) : Prop :=
  ∃ new h', kiRangedup created ok (some kr) h = some (new, h') ∧ ∀ r ∈ new, SameRange h' r kr

/-! ### The condition -/

/-- The allocations that a copy takes. -/
def allocs (key : Option Keyvec) : ℕ := if frags key = [] then 0 else 1 + (frags key).length

/-- The vector is not one without elements, it can be counted in an `int`, and from the call `n` of
the allocator on there are its copies. -/
structure Copied (ok : ℕ → Bool) (n : ℕ) (key : Option Keyvec) : Prop where
  elements : key ≠ some []
  count : (frags key).length < 2 ^ 31
  answers : ∀ m < allocs key, ok (n + m) = true

/-- The three vectors are copied, one after the other. -/
structure AllCopied (ok : ℕ → Bool) (n : ℕ) (kr : Krange) : Prop where
  startKey : Copied ok n kr.krStart
  endKey : Copied ok (n + allocs kr.krStart) kr.krEnd
  keys : Copied ok (n + allocs kr.krStart + allocs kr.krEnd) kr.krKeys

/-- The range has nothing in it that a created one has not. -/
structure Blank (kr : Krange) : Prop where
  startKey : frags kr.krStart = []
  endKey : frags kr.krEnd = []
  keys : frags kr.krKeys = []
  flags : kr.krFlags = 0
  count : kr.krCount = 0

section Keydup
variable {ok : ℕ → Bool} {h h' : Heap} {key : Keyvec} {k : Option Keyvec} {iov : List Iov}
  {i n new : ℕ} {v : Option Vec}

/-! ### Copies of vectors -/

/-- What `ki_keydestroy` has freed is not freed again. -/
theorem free_kiKeydestroy {w : Vec} (hd : kiKeydestroy (some w) n h = some h') :
    h'.free w.block = none := by
  obtain ⟨h1, -, hfree⟩ := Option.bind_eq_some_iff.mp hd
  exact Heap.free_twice hfree

/-- **An element without memory**: if `ki_keydestroy` comes back, it has freed the array, which is
freed again. -/
theorem dupLoop_fails {b : Key} (hok : ok h.calls = false) :
    dupLoop ok new i iov (b :: key) h = none := by
  rw [dupLoop, Heap.malloc_none hok]
  dsimp only
  generalize hd : kiKeydestroy _ _ h.asked = destroyed
  rcases destroyed with _ | h1
  · rfl
  · have hfree : h1.free new = none := free_kiKeydestroy hd
    rw [Option.bind_some, hfree]
    rfl

theorem dupLoop_copies (hcnt : i + key.length < 2 ^ 31)
    (hok : ∀ m < key.length, ok (h.calls + m) = true) (hnew : new ∈ h.live)
    (hiov : ∀ e ∈ iov, ∃ p ∈ h.live, e.kiovBase = some p) :
    ∃ w h', dupLoop ok new i iov key h = some (some w, h') ∧ w.Live h' ∧
      w.iov.map Iov.bytes = iov.map Iov.bytes ++ key ∧ h.live ⊆ h'.live ∧
      h'.calls = h.calls + key.length := by
  induction key generalizing i iov h with
  | nil => exact ⟨⟨new, iov⟩, h, rfl, ⟨hnew, hiov⟩, by simp, subset_rfl, rfl⟩
  | cons b key ih =>
    rw [List.length_cons] at hcnt hok
    have hfirst : ok h.calls = true := hok 0 (by omega)
    have hrest : ∀ m < key.length, ok (h.grown.calls + m) = true := by
      intro m hm
      have hnext := hok (m + 1) (by omega)
      rwa [Heap.calls_grown, Nat.add_right_comm]
    have hiov' : ∀ e ∈ iov ++ [⟨some h.calls, b⟩], ∃ p ∈ h.grown.live, e.kiovBase = some p := by
      intro e he
      rcases List.mem_append.mp he with he | he
      · obtain ⟨p, hp, hbase⟩ := hiov e he
        exact ⟨p, h.subset_grown hp, hbase⟩
      · rw [List.mem_singleton] at he
        subst he
        exact ⟨h.calls, h.calls_mem_grown, rfl⟩
    obtain ⟨w, h', hrun, hlive, hbytes, hsub, hcalls⟩ :=
      ih (i := i + 1) (by omega) hrest (h.subset_grown hnew) hiov'
    refine ⟨w, h', ?_, hlive, ?_, h.subset_grown.trans hsub, ?_⟩
    · rw [dupLoop, Heap.malloc_some hfirst]
      dsimp only
      rw [if_pos (by omega)]
      exact hrun
    · rw [hbytes, List.map_append]
      simp
    · rw [hcalls, Heap.calls_grown, List.length_cons]
      omega

theorem dupLoop_none (hi : i < 2 ^ 31) (hne : key ≠ [])
    (h' : ¬ (i + key.length < 2 ^ 31 ∧ ∀ m < key.length, ok (h.calls + m) = true)) :
    dupLoop ok new i iov key h = none := by
  induction key generalizing i iov h with
  | nil => exact absurd rfl hne
  | cons b key ih =>
    by_cases hfirst : ok h.calls = true
    swap
    · exact dupLoop_fails (Bool.eq_false_of_not_eq_true hfirst)
    rw [dupLoop, Heap.malloc_some hfirst]
    dsimp only
    split_ifs with hnext
    swap
    · rfl
    have hrest : ¬ (i + 1 + key.length < 2 ^ 31 ∧
        ∀ m < key.length, ok (h.grown.calls + m) = true) := by
      rintro ⟨hcnt, hok⟩
      refine h' ⟨by rw [List.length_cons]; omega, fun m hm => ?_⟩
      rcases m with _ | m
      · exact hfirst
      · have hm' : m < key.length := by simpa using hm
        have hans := hok m hm'
        rwa [Heap.calls_grown, Nat.add_assoc, Nat.add_comm 1] at hans
    refine ih hnext ?_ hrest
    rintro rfl
    refine hrest ⟨by simpa using hnext, fun m hm => absurd hm (Nat.not_lt_zero m)⟩

theorem frags_eq_nil_iff : frags k = [] ↔ k = none ∨ k = some [] := by
  rcases k with _ | key <;> simp [frags]

theorem kiKeydup_empty (hk : frags k = []) : kiKeydup ok k h = some (none, h) := if_pos hk

/-- **A vector that is copied.** -/
theorem kiKeydup_copied (hc : Copied ok h.calls k) :
    ∃ v h', kiKeydup ok k h = some (v, h') ∧ SameVec h' v (frags k).length (frags k) ∧
      v.isSome = k.isSome ∧ h.live ⊆ h'.live ∧ h'.calls = h.calls + allocs k := by
  by_cases hk : frags k = []
  · obtain rfl : k = none := (frags_eq_nil_iff.mp hk).resolve_right hc.elements
    exact ⟨none, h, rfl, ⟨rfl, fun _ => rfl, nofun⟩, rfl, subset_rfl, rfl⟩
  have hallocs : allocs k = 1 + (frags k).length := if_neg hk
  have hans := hc.answers
  rw [hallocs] at hans ⊢
  have hfirst : ok h.calls = true := hans 0 (by omega)
  have hrest : ∀ m < (frags k).length, ok (h.grown.calls + m) = true := by
    intro m hm
    have hnext := hans (1 + m) (by omega)
    rwa [← Nat.add_assoc] at hnext
  have hnone : ∀ e ∈ ([] : List Iov), ∃ p ∈ h.grown.live, e.kiovBase = some p := nofun
  obtain ⟨w, h', hrun, hlive, hbytes, hsub, hcalls⟩ :=
    dupLoop_copies (show 0 + (frags k).length < 2 ^ 31 by have := hc.count; omega) hrest
      h.calls_mem_grown hnone
  refine ⟨some w, h', ?_, ⟨rfl, nofun, ?_⟩, ?_, h.subset_grown.trans hsub, ?_⟩
  · rw [kiKeydup, if_neg hk, Heap.malloc_some hfirst]
    exact hrun
  · rintro w' ⟨⟩
    exact ⟨hlive, hbytes⟩
  · rcases k with _ | key
    · exact absurd rfl hk
    · rfl
  · rw [hcalls, Heap.calls_grown, Nat.add_assoc]

/-- A vector that is not: nothing comes of it, or null. -/
theorem kiKeydup_failed (hc : ¬ Copied ok h.calls k) :
    kiKeydup ok k h = none ∨ k.isSome ∧ ∃ h', kiKeydup ok k h = some (none, h') := by
  by_cases hk : frags k = []
  · refine .inr ⟨?_, h, kiKeydup_empty hk⟩
    rcases frags_eq_nil_iff.mp hk with rfl | rfl
    · exact absurd ⟨nofun, by decide, fun m hm => absurd hm (Nat.not_lt_zero m)⟩ hc
    · rfl
  have hsome : k.isSome := by
    rcases k with _ | key
    · exact absurd rfl hk
    · rfl
  rw [kiKeydup, if_neg hk]
  by_cases hfirst : ok h.calls = true
  swap
  · rw [Heap.malloc_none (Bool.eq_false_of_not_eq_true hfirst)]
    exact .inr ⟨hsome, _, rfl⟩
  rw [Heap.malloc_some hfirst]
  refine .inl (dupLoop_none (by decide) hk ?_)
  rintro ⟨hcnt, hok⟩
  refine hc ⟨fun heq => hk (frags_eq_nil_iff.mpr (.inr heq)), by omega, fun m hm => ?_⟩
  rw [allocs, if_neg hk] at hm
  rcases m with _ | m
  · exact hfirst
  · have hans := hok m (by omega)
    rwa [Heap.calls_grown, Nat.add_assoc, Nat.add_comm 1] at hans

/-! ### Vectors that are freed -/

theorem notMem_freeBases {p : ℕ} (hp : p ∉ h.live) (hd : freeBases i iov n h = some h') :
    p ∉ h'.live := by
  induction iov generalizing i n h with
  | nil =>
    rcases n with _ | n
    · obtain rfl := Option.some.inj hd
      exact hp
    · cases hd
  | cons e iov ih =>
    rcases n with _ | n
    · obtain rfl := Option.some.inj hd
      exact hp
    obtain ⟨base, bytes⟩ := e
    rcases base with _ | q
    · simp only [freeBases] at hd
      split_ifs at hd
      exact ih hp hd
    · simp only [freeBases] at hd
      rcases hfree : h.free q with _ | h1
      · rw [hfree] at hd
        cases hd
      · rw [hfree] at hd
        dsimp only at hd
        split_ifs at hd
        exact ih (Heap.notMem_free hp hfree) hd

/-- `ki_keydestroy` brings no block back, -/
theorem notMem_kiKeydestroy {p : ℕ} (hp : p ∉ h.live) (hd : kiKeydestroy v n h = some h') :
    p ∉ h'.live := by
  rcases v with _ | w
  · obtain rfl := Option.some.inj hd
    exact hp
  · obtain ⟨h1, hbases, hfree⟩ := Option.bind_eq_some_iff.mp hd
    exact Heap.notMem_free (notMem_freeBases hp hbases) hfree

/-- and takes the array of the vector away. -/
theorem dead_kiKeydestroy (hd : kiKeydestroy v n h = some h') : ∀ w ∈ v, w.block ∉ h'.live := by
  rintro w ⟨⟩
  obtain ⟨h1, -, hfree⟩ := Option.bind_eq_some_iff.mp hd
  exact Heap.notMem_of_free hfree

theorem sameVec_null_iff {cnt : ℕ} (hcnt : key = [] → cnt = 0) :
    SameVec h none cnt key ↔ key = [] := by
  refine ⟨fun hsame => hsame.null rfl, ?_⟩
  intro hkey
  refine ⟨?_, fun _ => hkey, nofun⟩
  rw [hcnt hkey, hkey]
  rfl

/-- A vector that was freed is a copy of no elements only. -/
theorem sameVec_freed_iff (hk : k ≠ some []) (hv : v.isSome = k.isSome)
    (hdead : ∀ w ∈ v, w.block ∉ h.live) :
    SameVec h v (frags k).length (frags k) ↔ frags k = [] := by
  rcases v with _ | w
  · exact sameVec_null_iff fun hkey => by rw [hkey]; rfl
  · refine iff_of_false (fun hsame => hdead w rfl (hsame.copy w rfl).1.1) fun hkey => ?_
    rcases frags_eq_nil_iff.mp hkey with rfl | rfl
    · exact Bool.false_ne_true hv.symm
    · exact hk rfl

theorem SameVec.mono {cnt : ℕ} (hsame : SameVec h v cnt key) (hsub : h.live ⊆ h'.live) :
    SameVec h' v cnt key := by
  refine ⟨hsame.count, hsame.null, fun w hw => ⟨⟨?_, ?_⟩, (hsame.copy w hw).2⟩⟩
  · exact hsub (hsame.copy w hw).1.1
  · intro e he
    obtain ⟨p, hp, hbase⟩ := (hsame.copy w hw).1.2 e he
    exact ⟨p, hsub hp, hbase⟩

end Keydup

section Range
variable {ok : ℕ → Bool} {h h1 h2 h3 h' : Heap} {kr : Krange} {dst : RangeObj}
  {vs ve vk : Option Vec}

/-! ### Copies of ranges, exit by exit -/

theorem not_lost {v : Option Vec} {k : Option Keyvec} (hv : v.isSome = k.isSome) :
    ¬ (k.isSome = true ∧ v.isNone = true) := by
  rw [← hv]
  rcases v with _ | w <;> simp

theorem rangecpy_start (hs : kiKeydup ok kr.krStart h = some (none, h1))
    (hsome : kr.krStart.isSome) : kiRangecpy ok {} kr h =
      some (false, { krStartcnt := (frags kr.krStart).length }, h1) := by
  unfold kiRangecpy
  rw [hs]
  exact if_pos ⟨hsome, rfl⟩

theorem rangecpy_end (hs : kiKeydup ok kr.krStart h = some (vs, h1))
    (hvs : vs.isSome = kr.krStart.isSome) (he : kiKeydup ok kr.krEnd h1 = some (none, h2))
    (hsome : kr.krEnd.isSome) : kiRangecpy ok {} kr h =
      (kiKeydestroy vs (frags kr.krStart).length h2).map fun h =>
        (false, { krStart := vs, krStartcnt := (frags kr.krStart).length,
                  krEndcnt := (frags kr.krEnd).length }, h) := by
  unfold kiRangecpy
  rw [hs]
  dsimp only [Option.bind_eq_bind, Option.bind_some]
  rw [if_neg (not_lost hvs), he]
  dsimp only [Option.bind_eq_bind, Option.bind_some]
  rw [if_pos ⟨hsome, rfl⟩]
  rcases kiKeydestroy vs (frags kr.krStart).length h2 with _ | h3 <;> rfl

theorem rangecpy_keys (hs : kiKeydup ok kr.krStart h = some (vs, h1))
    (hvs : vs.isSome = kr.krStart.isSome) (he : kiKeydup ok kr.krEnd h1 = some (ve, h2))
    (hve : ve.isSome = kr.krEnd.isSome) (hk : kiKeydup ok kr.krKeys h2 = some (vk, h3)) :
    kiRangecpy ok {} kr h =
      let dst : RangeObj :=
        { krStart := vs, krStartcnt := (frags kr.krStart).length, krEnd := ve,
          krEndcnt := (frags kr.krEnd).length, krKeys := vk,
          krKeyscnt := (frags kr.krKeys).length }
      if kr.krKeys.isSome ∧ vk.isNone then
        (kiKeydestroy vs dst.krStartcnt h3).bind fun h =>
          (kiKeydestroy ve dst.krEndcnt h).map fun h => (false, dst, h)
      else some (true, { dst with krFlags := kr.krFlags, krCount := kr.krCount }, h3) := by
  unfold kiRangecpy
  rw [hs]
  dsimp only [Option.bind_eq_bind, Option.bind_some]
  rw [if_neg (not_lost hvs), he]
  dsimp only [Option.bind_eq_bind, Option.bind_some]
  rw [if_neg (not_lost hve), hk]
  dsimp only [Option.bind_eq_bind, Option.bind_some]
  split_ifs with hkeys
  · rcases kiKeydestroy vs (frags kr.krStart).length h3 with _ | h4
    · rfl
    · dsimp only [Option.bind_some]
      rcases kiKeydestroy ve (frags kr.krEnd).length h4 with _ | h5 <;> rfl
  · rfl

/-- **Everything is copied**, and the copy is whole. -/
theorem rangecpy_copied (hc : AllCopied ok h.calls kr) :
    ∃ dst h', kiRangecpy ok {} kr h = some (true, dst, h') ∧ SameRange h' dst kr := by
  obtain ⟨vs, h1, hs, hss, hvs, hsub1, hcalls1⟩ := kiKeydup_copied hc.startKey
  have hcend : Copied ok h1.calls kr.krEnd := by rw [hcalls1]; exact hc.endKey
  obtain ⟨ve, h2, he, hse, hve, hsub2, hcalls2⟩ := kiKeydup_copied hcend
  have hckeys : Copied ok h2.calls kr.krKeys := by rw [hcalls2, hcalls1]; exact hc.keys
  obtain ⟨vk, h3, hk, hsk, hvk, hsub3, -⟩ := kiKeydup_copied hckeys
  have hrun := rangecpy_keys hs hvs he hve hk
  dsimp only at hrun
  rw [if_neg (not_lost hvk)] at hrun
  exact ⟨_, h3, hrun, hss.mono (hsub2.trans hsub3), hse.mono hsub3, hsk, rfl, rfl⟩

theorem sameRange_iff_blank (hflags : dst.krFlags = 0) (hcount : dst.krCount = 0)
    (hs : SameVec h dst.krStart dst.krStartcnt (frags kr.krStart) ↔ frags kr.krStart = [])
    (he : SameVec h dst.krEnd dst.krEndcnt (frags kr.krEnd) ↔ frags kr.krEnd = [])
    (hk : SameVec h dst.krKeys dst.krKeyscnt (frags kr.krKeys) ↔ frags kr.krKeys = []) :
    SameRange h dst kr ↔ Blank kr := by
  constructor
  · intro hsame
    exact ⟨hs.mp hsame.startKey, he.mp hsame.endKey, hk.mp hsame.keys,
      hsame.flags.symm.trans hflags, hsame.count.symm.trans hcount⟩
  · intro hb
    exact ⟨hs.mpr hb.startKey, he.mpr hb.endKey, hk.mpr hb.keys, hflags.trans hb.flags.symm,
      hcount.trans hb.count.symm⟩

/-- **The copy breaks off**: what is left, if anything comes of it, has the contents of the range
just if that has none. -/
def BreaksOff (ok : ℕ → Bool) (kr : Krange) (h : Heap) : Prop :=
  kiRangecpy ok {} kr h = none ∨
    ∃ dst h', kiRangecpy ok {} kr h = some (false, dst, h') ∧ (SameRange h' dst kr ↔ Blank kr)

/-- A null pointer with the count of what it should be a copy of. -/
theorem sameVec_lost_iff (k : Option Keyvec) :
    SameVec h none (frags k).length (frags k) ↔ frags k = [] :=
  sameVec_null_iff fun hk => by rw [hk]; rfl

theorem sameVec_unset_iff (k : Option Keyvec) : SameVec h none 0 (frags k) ↔ frags k = [] :=
  sameVec_null_iff fun _ => rfl

theorem breaksOff_start (hcs : ¬ Copied ok h.calls kr.krStart) : BreaksOff ok kr h := by
  rcases kiKeydup_failed hcs with hnone | ⟨hsome, h1, hs⟩
  · refine .inl ?_
    unfold kiRangecpy
    rw [hnone]
    rfl
  · refine .inr ⟨_, h1, rangecpy_start hs hsome, ?_⟩
    exact sameRange_iff_blank rfl rfl (sameVec_lost_iff _) (sameVec_unset_iff _)
      (sameVec_unset_iff _)

/-- The copy of the start key is freed. -/
theorem breaksOff_end (hstart : kr.krStart ≠ some [])
    (hs : kiKeydup ok kr.krStart h = some (vs, h1)) (hvs : vs.isSome = kr.krStart.isSome)
    (hce : ¬ Copied ok h1.calls kr.krEnd) : BreaksOff ok kr h := by
  rcases kiKeydup_failed hce with hnone | ⟨hsome, h2, he⟩
  · refine .inl ?_
    unfold kiRangecpy
    rw [hs]
    dsimp only [Option.bind_eq_bind, Option.bind_some]
    rw [hnone, if_neg (not_lost hvs)]
    rfl
  · rw [BreaksOff, rangecpy_end hs hvs he hsome]
    rcases hd : kiKeydestroy vs (frags kr.krStart).length h2 with _ | h3
    · exact .inl rfl
    · refine .inr ⟨_, h3, rfl, ?_⟩
      exact sameRange_iff_blank rfl rfl (sameVec_freed_iff hstart hvs (dead_kiKeydestroy hd))
        (sameVec_lost_iff _) (sameVec_unset_iff _)

/-- The copies of the start key and of the end key are freed. -/
theorem breaksOff_keys (hstart : kr.krStart ≠ some []) (hend : kr.krEnd ≠ some [])
    (hs : kiKeydup ok kr.krStart h = some (vs, h1)) (hvs : vs.isSome = kr.krStart.isSome)
    (he : kiKeydup ok kr.krEnd h1 = some (ve, h2)) (hve : ve.isSome = kr.krEnd.isSome)
    (hck : ¬ Copied ok h2.calls kr.krKeys) : BreaksOff ok kr h := by
  rcases kiKeydup_failed hck with hnone | ⟨hsome, h3, hk⟩
  · refine .inl ?_
    unfold kiRangecpy
    rw [hs]
    dsimp only [Option.bind_eq_bind, Option.bind_some]
    rw [if_neg (not_lost hvs), he]
    dsimp only [Option.bind_eq_bind, Option.bind_some]
    rw [if_neg (not_lost hve), hnone]
    rfl
  · rw [BreaksOff, rangecpy_keys hs hvs he hve hk]
    dsimp only
    rw [if_pos ⟨hsome, rfl⟩]
    rcases hds : kiKeydestroy vs (frags kr.krStart).length h3 with _ | h4
    · exact .inl rfl
    rw [Option.bind_some]
    rcases hde : kiKeydestroy ve (frags kr.krEnd).length h4 with _ | h5
    · exact .inl rfl
    refine .inr ⟨_, h5, rfl, sameRange_iff_blank rfl rfl ?_ ?_ (sameVec_lost_iff _)⟩
    · exact sameVec_freed_iff hstart hvs
        fun w hw => notMem_kiKeydestroy (dead_kiKeydestroy hds w hw) hde
    · exact sameVec_freed_iff hend hve (dead_kiKeydestroy hde)

/-- **Something is not copied.** -/
theorem rangecpy_failed (hc : ¬ AllCopied ok h.calls kr) : BreaksOff ok kr h := by
  by_cases hcs : Copied ok h.calls kr.krStart
  swap
  · exact breaksOff_start hcs
  obtain ⟨vs, h1, hs, -, hvs, -, hcalls1⟩ := kiKeydup_copied hcs
  by_cases hce : Copied ok h1.calls kr.krEnd
  swap
  · exact breaksOff_end hcs.elements hs hvs hce
  obtain ⟨ve, h2, he, -, hve, -, hcalls2⟩ := kiKeydup_copied hce
  refine breaksOff_keys hcs.elements hce.elements hs hvs he hve fun hck => ?_
  rw [hcalls1] at hce hcalls2
  rw [hcalls2] at hck
  exact hc ⟨hcs, hce, hck⟩

/-- Of vectors without elements there is always a result. -/
theorem rangecpy_blank (hb : Blank kr) : kiRangecpy ok {} kr h ≠ none := by
  have hs : kiKeydup ok kr.krStart h = some (none, h) := kiKeydup_empty hb.startKey
  have he : kiKeydup ok kr.krEnd h = some (none, h) := kiKeydup_empty hb.endKey
  have hk : kiKeydup ok kr.krKeys h = some (none, h) := kiKeydup_empty hb.keys
  unfold kiRangecpy
  rw [hs]
  dsimp only [Option.bind_eq_bind, Option.bind_some]
  rw [he]
  dsimp only [Option.bind_eq_bind, Option.bind_some]
  rw [hk]
  dsimp only [Option.bind_eq_bind, Option.bind_some, kiKeydestroy]
  split_ifs <;> simp

theorem duplicates_iff : Duplicates true ok kr h ↔ AllCopied ok h.calls kr ∨ Blank kr := by
  have hdup : kiRangedup true ok (some kr) h =
      (kiRangecpy ok {} kr h).map fun (_, new, h) => (some new, h) := rfl
  unfold Duplicates
  rw [hdup]
  by_cases hc : AllCopied ok h.calls kr
  · obtain ⟨dst, h', hrun, hsame⟩ := rangecpy_copied hc
    refine iff_of_true ⟨some dst, h', ?_, ?_⟩ (.inl hc)
    · rw [hrun]
      rfl
    · rintro r ⟨⟩
      exact hsame
  rw [or_iff_right hc]
  rcases rangecpy_failed hc with hnone | ⟨dst, h', hrun, hiff⟩
  · refine iff_of_false ?_ fun hb => rangecpy_blank hb hnone
    rintro ⟨new, h', hret, -⟩
    rw [hnone] at hret
    cases hret
  · rw [hrun, ← hiff]
    constructor
    · rintro ⟨new, h'', hret, hsame⟩
      obtain ⟨rfl, rfl⟩ := Prod.mk.inj (Option.some.inj hret)
      exact hsame dst rfl
    · intro hsame
      refine ⟨some dst, h', rfl, ?_⟩
      rintro r ⟨⟩
      exact hsame

/-- **When a range is duplicated as it should be**: the structure cannot be created; or everything
is copied; or it is a range with nothing in it. -/
theorem rangedup_iff (created : Bool) (ok : ℕ → Bool) (kr : Krange) (h : Heap) :
    Duplicates created ok kr h ↔ created = false ∨ AllCopied ok h.calls kr ∨ Blank kr := by
  rcases created with _ | _
  · exact iff_of_true ⟨none, h, rfl, nofun⟩ (.inl rfl)
  · rw [or_iff_right Bool.false_ne_true.symm]
    exact duplicates_iff

/-- A range with a start and an end key. -/
def twoKeys : Krange := { krStart := some [[1]], krEnd := some [[2], [3]], krCount := 10 }

/-- **No memory for the end key**: the structure comes back with a start key that was freed. No
memory for its second element: the array is freed twice. -/
theorem twoKeys_not_duplicated :
    ¬ Duplicates true (fun m => decide (m ≠ 2)) twoKeys Heap.empty ∧
      ¬ Duplicates true (fun m => decide (m ≠ 4)) twoKeys Heap.empty := by
  have hblank : ¬ Blank twoKeys := fun hb => absurd hb.startKey (by decide)
  refine ⟨fun hdup => ?_, fun hdup => ?_⟩
  · have hcopied := (duplicates_iff.mp hdup).resolve_right hblank
    exact absurd (hcopied.endKey.answers 0 (by decide)) (by decide)
  · have hcopied := (duplicates_iff.mp hdup).resolve_right hblank
    exact absurd (hcopied.endKey.answers 2 (by decide)) (by decide)

end Range

end Libkinetic.Kinetic.Rangedup
