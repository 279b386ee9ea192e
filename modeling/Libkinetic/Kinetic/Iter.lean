import Libkinetic.Base.Runs
import Libkinetic.Kinetic.Range

/-! # The key iterator

`ki_start` and `ki_next`: a range is read through windows, each filled by one `ki_getrange`. A
window is taken to have keys whenever its request succeeded, which is what the bounds of the results
rest on. -/

namespace Libkinetic.Kinetic

open Libkinetic.Base.Runs

/-! ### The iterator -/

/-- `struct kiter`. From the first `ki_start` on `ki_curwin` is `ki_rwin1`; before that no function
gets to it. `ki_rwin2` and `ki_kio` are unused. -/
structure Kiter where
  kiRreq : Krange := {}
  kiRwin1 : Krange := {}
  /-- `uint32_t` -/
  kiCurkey : ℕ := 0
  /-- `int32_t` -/
  kiSeenkeys : ℤ := 0
  /-- `uint32_t` -/
  kiMaxkeyreq : ℕ
deriving DecidableEq

/-- The range is copied to the iterator, and from there to the first window with the count of the
first request; and whether that succeeds. -/
def startWindow (kit : Kiter) (ckr : Krange) : Bool × Kiter :=
  if ckr.krCount = 0 then (false, kit)
  else
    let kit := { kit with kiRreq := iRangeclean kit.kiRreq, kiRwin1 := iRangeclean kit.kiRwin1 }
    let (ok, r) := kiRangecpy kit.kiRreq ckr
    let kit := { kit with kiRreq := r }
    if ¬ ok then (false, kit)
    else
      let (ok, w) := kiRangecpy kit.kiRwin1 kit.kiRreq
      let kit := { kit with kiRwin1 := w }
      if ¬ ok then (false, kit)
      else if kit.kiRreq.krCount = kvrCountInf ∨ kit.kiMaxkeyreq < uint32 kit.kiRreq.krCount then
        (true, { kit with kiRwin1 := { w with krCount := int32 kit.kiMaxkeyreq } })
      else (true, kit)

/-- **`ki_start`**; the result is an index into the keys of the window, `none` for null. -/
def kiStart (answer : RangeReq → Resp (List Key)) (lim : Klimits) (kit : Kiter) (ckr : Krange) :
    Kiter × Option ℕ :=
  let (ok, kit) := startWindow kit ckr
  if ¬ ok then (kit, none)
  else
    let (krc, w) := kiGetrange answer lim kit.kiRwin1
    let kit := { kit with kiRwin1 := w }
    if krc ≠ .kOk ∨ w.krCount = 0 then (kit, none)
    else ({ kit with kiCurkey := 0, kiSeenkeys := 1 }, some 0)

/-- The range count has been exhausted. -/
def exhausted (kit : Kiter) : Bool :=
  decide (kit.kiRreq.krCount ≠ kvrCountInf ∧ kit.kiRreq.krCount ≤ kit.kiSeenkeys)

/-- The index of the next key. -/
def nextKey (kit : Kiter) : ℕ := (kit.kiCurkey + 1) % 2 ^ 32

/-- The window for the next request, which starts behind the last key of the one that is used up. No
result if there is no last key: the element in front of the array would be read. -/
def nextWindow (kit : Kiter) : Option Krange :=
  (kit.kiRwin1.krKeys.getD []).getLast?.map fun lastkey =>
    let keysleft := uint32 (kit.kiRreq.krCount - kit.kiSeenkeys)
    let w := { kit.kiRwin1 with krStart := kiKeydupf [lastkey], krKeys := none }.flagClr krfIstart
    if kit.kiRreq.krCount = kvrCountInf ∨ kit.kiMaxkeyreq < keysleft then
      { w with krCount := int32 kit.kiMaxkeyreq }
    else { w with krCount := int32 keysleft }

/-- **`ki_next`** -/
def kiNext (answer : RangeReq → Resp (List Key)) (lim : Klimits) (kit : Kiter) :
    Option (Kiter × Option ℕ) :=
  if exhausted kit then some (kit, none)
  else
    let curkey := nextKey kit
    if kit.kiRwin1.krKeyscnt ≤ curkey then
      (nextWindow kit).map fun w =>
        let (krc, w) := kiGetrange answer lim w
        let kit := { kit with kiRwin1 := w, kiCurkey := curkey }
        if krc ≠ .kOk ∨ w.krCount = 0 then (kit, none)
        else ({ kit with kiCurkey := 0, kiSeenkeys := int32 (kit.kiSeenkeys + 1) }, some 0)
    else
      some ({ kit with kiCurkey := curkey, kiSeenkeys := int32 (kit.kiSeenkeys + 1) }, some curkey)

/-! ### The bounds of the results -/

/-- An iterator between two calls, with what the last one returned. -/
structure IterState where
  kit : Kiter
  ret : Option ℕ := none
  /-- The element in front of an empty window was read. -/
  before : Bool := false
deriving DecidableEq

inductive IterAct
  | start (ckr : Krange) (answer : RangeReq → Resp (List Key))
  | next (answer : RangeReq → Resp (List Key))

/-- A call; nothing is said of calls after a read outside the window. -/
def iterStep (lim : Klimits) (s : IterState) : IterAct → Option IterState
  | .start ckr answer =>
    if s.before then none
    else
      let (kit, ret) := kiStart answer lim s.kit ckr
      some { kit, ret }
  | .next answer =>
    if s.before then none
    else
      match kiNext answer lim s.kit with
      | none => some { s with ret := none, before := true }
      | some (kit, ret) => some { kit, ret }

/-- The result is in the window, and nothing in front of it was read. -/
def InWindow (s : IterState) : Prop := (∀ i ∈ s.ret, i < s.kit.kiRwin1.krKeyscnt) ∧ s.before = false

instance (s : IterState) : Decidable (InWindow s) := inferInstanceAs (Decidable (_ ∧ _))

/-- The call has its result in the window. -/
def StaysInWindow (lim : Klimits) (s : IterState) (a : IterAct) : Prop :=
  ∀ s' ∈ iterStep lim s a, InWindow s'

instance (lim : Klimits) (s : IterState) (a : IterAct) : Decidable (StaysInWindow lim s a) :=
  inferInstanceAs (Decidable (∀ s' ∈ iterStep lim s a, InWindow s'))

/-- If the request for a window goes out, and not for a count of 0, the response does not list zero
keys. -/
def NotEmpty (answer : RangeReq → Resp (List Key)) (lim : Klimits) (w : Krange) : Prop :=
  kiValidateRange w lim = true → (fixCount lim w).krCount ≠ 0 →
    ¬ Lists (answer (createRangekeyMessage (fixCount lim w))) []

/-- **The condition**: no response lists zero keys, and `ki_next` does not ask for a new window when
the one it has is empty. -/
def Careful (lim : Klimits) (s : IterState) (a : IterAct) : Prop :=
  s.before = false →
    match a with
    | .start ckr answer =>
      (startWindow s.kit ckr).1 = true → NotEmpty answer lim (startWindow s.kit ckr).2.kiRwin1
    | .next answer =>
      exhausted s.kit = false → s.kit.kiRwin1.krKeyscnt ≤ nextKey s.kit →
        s.kit.kiRwin1.krKeyscnt ≠ 0 ∧ ∀ w ∈ nextWindow s.kit, NotEmpty answer lim w

section Bounds
variable {answer : RangeReq → Resp (List Key)} {lim : Klimits} {kit : Kiter} {w : Krange}

/-- A request whose success is not an empty window. -/
theorem notEmpty_iff {krc : KStatus} {w' : Krange} (h : kiGetrange answer lim w = (krc, w')) :
    NotEmpty answer lim w ↔ (krc = .kOk → w'.krCount ≠ 0 → 0 < w'.krKeyscnt) := by
  constructor
  · intro hne hkrc hcount
    subst hkrc
    obtain ⟨hv, keys, hkeys, rfl⟩ := kiGetrange_ok h
    refine List.length_pos_iff.mpr ?_
    rintro (rfl : keys = [])
    exact hne hv hcount hkeys
  · intro hpos hv hcount hkeys
    rw [kiGetrange_lists hv hkeys] at h
    obtain ⟨rfl, rfl⟩ := Prod.mk.inj h
    exact absurd (hpos rfl hcount) (lt_irrefl 0)

/-- A window that is filled gives its first key or nothing. -/
theorem first_inWindow_iff {krc : KStatus} {w' : Krange} :
    (∀ i ∈ (if krc ≠ .kOk ∨ w'.krCount = 0 then none else some 0 : Option ℕ), i < w'.krKeyscnt) ↔
      (krc = .kOk → w'.krCount ≠ 0 → 0 < w'.krKeyscnt) := by
  split_ifs with h
  · simp only [Option.not_mem_none, false_imp_iff, implies_true, true_iff]
    intro hkrc hcount
    rcases h with h | h
    · exact absurd hkrc h
    · exact absurd h hcount
  · rw [not_or, not_not] at h
    constructor
    · intro hi _ _
      exact hi 0 rfl
    · rintro hi i ⟨⟩
      exact hi h.1 h.2

theorem nextWindow_eq_none : nextWindow kit = none ↔ kit.kiRwin1.krKeyscnt = 0 := by
  unfold nextWindow Krange.krKeyscnt
  rw [Option.map_eq_none_iff, List.getLast?_eq_none_iff, List.length_eq_zero_iff]

theorem start_iff (s : IterState) (ckr : Krange) (hs : s.before = false) :
    StaysInWindow lim s (.start ckr answer) ↔ Careful lim s (.start ckr answer) := by
  have hret : StaysInWindow lim s (.start ckr answer) ↔
      ∀ i ∈ (kiStart answer lim s.kit ckr).2,
        i < (kiStart answer lim s.kit ckr).1.kiRwin1.krKeyscnt := by
    simp [StaysInWindow, iterStep, hs, InWindow]
  have hcareful : Careful lim s (.start ckr answer) ↔ ((startWindow s.kit ckr).1 = true →
      NotEmpty answer lim (startWindow s.kit ckr).2.kiRwin1) := by
    simp [Careful, hs]
  rw [hret, hcareful]
  unfold kiStart
  rcases hw : startWindow s.kit ckr with ⟨_ | _, kit⟩
  · simp
  · rcases hg : kiGetrange answer lim kit.kiRwin1 with ⟨krc, w'⟩
    simp only [hg, not_true_eq_false, if_false, forall_const]
    rw [notEmpty_iff hg, ← first_inWindow_iff]
    split_ifs <;> simp

theorem next_iff (s : IterState) (hs : s.before = false) :
    StaysInWindow lim s (.next answer) ↔ Careful lim s (.next answer) := by
  unfold StaysInWindow Careful iterStep kiNext
  simp only [hs, Bool.false_eq_true, if_false, forall_const]
  cases hex : exhausted s.kit with
  | true => simp [InWindow]
  | false =>
    by_cases hlast : s.kit.kiRwin1.krKeyscnt ≤ nextKey s.kit
    · simp only [hlast, Bool.false_eq_true, if_false, if_true, forall_const]
      cases hw : nextWindow s.kit with
      | none =>
        have h0 := nextWindow_eq_none.mp hw
        simp [InWindow, h0]
      | some w =>
        have h0 : s.kit.kiRwin1.krKeyscnt ≠ 0 := by
          intro h
          rw [nextWindow_eq_none.mpr h] at hw
          cases hw
        rcases hg : kiGetrange answer lim w with ⟨krc, w'⟩
        simp only [Option.map_some, hg, Option.mem_some_iff, forall_eq', h0, ne_eq,
          not_false_eq_true, true_and]
        rw [notEmpty_iff hg, ← first_inWindow_iff]
        unfold InWindow
        split_ifs <;> simp
    · simp [hlast, InWindow]
      omega

/-- A key that was returned leaves a window that is not empty: as long as the calls return keys, the
condition is about the responses alone. -/
theorem InWindow.nonempty {s : IterState} (h : InWindow s) (hret : s.ret ≠ none) :
    s.kit.kiRwin1.krKeyscnt ≠ 0 := by
  obtain ⟨i, hi⟩ := Option.ne_none_iff_exists'.mp hret
  have := h.1 i hi
  omega

/-- **Every call of a run has its result in the window** if and only if every call meets the
condition, whatever the iterator was used for before. -/
theorem inWindow_iff (lim : Klimits) (s : IterState) (as : List IterAct) :
    RunOk (iterStep lim) (StaysInWindow lim) s as ↔ RunOk (iterStep lim) (Careful lim) s as := by
  refine @runOk_congr _ _ _ _ _ (fun _ => True) (fun s a _ => ?_) (fun _ _ _ _ _ _ => trivial) as s
    trivial
  by_cases hs : s.before = false
  · cases a with
    | start ckr answer => exact start_iff s ckr hs
    | next answer => exact next_iff s hs
  · have hnone : iterStep lim s a = none := by
      cases a <;> simp [iterStep, hs]
    refine iff_of_true ?_ fun h => absurd h hs
    rw [StaysInWindow, hnone]
    rintro s' ⟨⟩

end Bounds

/-! ### Results outside the window -/

/-- An iterator as `ki_create` makes it. -/
def freshIter : IterState := { kit := { kiMaxkeyreq := 10 } }

/-- All keys of the server. -/
def allKeys : Krange := { krCount := kvrCountInf }

def lists (keys : List Key) (_ : RangeReq) : Resp (List Key) := .msg (.cmd ⟨some .kOk, some keys⟩)

def notFound (_ : RangeReq) : Resp (List Key) := .msg (.cmd ⟨some .kEnotfound, none⟩)

/-- **A response that lists zero keys** makes `ki_start` return the first of them; and a `ki_next`
after the one that found nothing more reads in front of the window. -/
theorem leaves_window :
    ¬ RunOk (iterStep smallLimits) (StaysInWindow smallLimits) freshIter
        [.start allKeys (lists [])] ∧
    ¬ RunOk (iterStep smallLimits) (StaysInWindow smallLimits) freshIter
        [.start allKeys (lists [[1]]), .next notFound, .next notFound] := by
  decide

end Libkinetic.Kinetic
