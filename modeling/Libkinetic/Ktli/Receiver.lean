import Libkinetic.Ktli.Recvmsg

/-! # The receiver thread

`ktli_receiver`: polling the driver, receiving a message, and the timeout sweep over recvq. -/

namespace Libkinetic.Ktli

open Libkinetic.Base.CursorList

/-! ### The timeout sweep -/

/-- One kio is timed out: off recvq, to the rear of compq. -/
def timeOut (s : Session) (k : KioId) : Session :=
  ((s.setKio k fun x => { x with errno := ETIMEDOUT, qbp := none }).link .compq k).setKio k
    fun x => { x with state := .timedout }

/-- `while (rc == LIST_OK)`; every turn takes one kio off recvq. -/
def sweepLoop (lib : ListLib KioId) (cur : Timespec) : ℕ → ℤ → Session → Option Session
  | 0, _, s => some s
  | n + 1, rc, s =>
    if rc ≠ lib.listOk then some s
    else
      match (s.queue .recvq).removeCurr lib with
      | (none, _) => none
      | (some k, l) =>
        let s := timeOut (s.setQueue .recvq l) k
        let (rc, l) := (s.queue .recvq).traverse lib (s.queue .recvq).currPos
          fun j => timechk cur (s.kio j)
        sweepLoop lib cur n rc (s.setQueue .recvq l)

/-- The section under the mutex of recvq. -/
def sweep (lib : ListLib KioId) (s : Session) : Option Session :=
  let cur := clockGettime s.now
  if s.lastcheck.tvSec = cur.tvSec then some (s.mvrear .recvq)
  else
    let (rc, l) := (s.queue .recvq).traverse lib 0 fun j => timechk cur (s.kio j)
    (sweepLoop lib cur (s.queue .recvq).size rc (s.setQueue .recvq l)).map fun s =>
      { s with lastcheck := cur }.mvrear .recvq

/-! ### Rules for the loops -/

section Rules
variable {R : Session → Session → Prop} {lib : ListLib KioId} {s s' : Session} {q : QId} {rc : ℤ}
  {cur : Timespec} {n : ℕ}

/-- **The rule of the sweep's loop**: a preorder that holds across each turn, and when the cursor
moves, holds across the loop. Each turn takes an expired kio off recvq. -/
theorem sweepLoop_rule (hrefl : ∀ s, R s s) (htrans : ∀ s s1 s2, R s s1 → R s1 s2 → R s s2)
    (hcursor : ∀ s l, l.items = (s.queue .recvq).items → R s (s.setQueue .recvq l))
    (hturn : ∀ s k l i m, (s.queue .recvq).items[i]? = some (m, k) →
      l.items = (s.queue .recvq).items.eraseIdx i → timechk cur (s.kio k) = true →
        R s (timeOut (s.setQueue .recvq l) k))
    (hcur : rc = lib.listOk → ∃ i m k, (s.queue .recvq).curr = some i ∧
      (s.queue .recvq).items[i]? = some (m, k) ∧ timechk cur (s.kio k) = true)
    (h : sweepLoop lib cur n rc s = some s') : R s s' := by
  induction n generalizing s rc with
  | zero =>
    obtain rfl := Option.some.inj h
    exact hrefl s
  | succ n ih =>
    unfold sweepLoop at h
    split_ifs at h with hrc
    · obtain rfl := Option.some.inj h
      exact hrefl s
    · obtain ⟨i, m, k, hc, hi, hexp⟩ := hcur (not_not.mp hrc)
      rw [CList.removeCurr_of_getElem hc hi] at h
      dsimp only at h
      generalize hl : (⟨(s.queue .recvq).items.eraseIdx i, _⟩ : CList KioId) = l at h
      have h1 : R s (timeOut (s.setQueue .recvq l) k) := hturn s k l i m hi (by rw [← hl]) hexp
      generalize timeOut (s.setQueue .recvq l) k = s1 at h h1
      rcases ht : (s1.queue .recvq).traverse lib (s1.queue .recvq).currPos
        (fun j => timechk cur (s1.kio j)) with ⟨rc1, l1⟩
      rw [ht] at h
      have h2 : R s1 (s1.setQueue .recvq l1) := hcursor s1 l1 (CList.items_of_traverse ht)
      refine htrans _ _ _ (htrans _ _ _ h1 h2) (ih (fun hok => ?_) h)
      subst hok
      obtain ⟨i1, m1, k1, hc1, hi1, hexp1, -⟩ := CList.traverse_ok ht
      exact ⟨i1, m1, k1, by rw [queue_setQueue_self, hc1],
        by rw [queue_setQueue_self, CList.items_of_traverse ht, hi1], hexp1⟩

/-- **The rule of the sweep.** -/
theorem sweep_rule (hrefl : ∀ s, R s s) (htrans : ∀ s s1 s2, R s s1 → R s1 s2 → R s s2)
    (hcursor : ∀ s l, l.items = (s.queue .recvq).items → R s (s.setQueue .recvq l))
    (hlast : ∀ s t, R s { s with lastcheck := t })
    (hturn : s.lastcheck.tvSec ≠ (clockGettime s.now).tvSec → ∀ s1 k l i m,
      (s1.queue .recvq).items[i]? = some (m, k) → l.items = (s1.queue .recvq).items.eraseIdx i →
        timechk (clockGettime s.now) (s1.kio k) = true → R s1 (timeOut (s1.setQueue .recvq l) k))
    (h : sweep lib s = some s') : R s s' := by
  have hrear : ∀ s : Session, R s (s.mvrear .recvq) := fun s => hcursor s _ (CList.items_mvrear _)
  unfold sweep at h
  dsimp only at h
  split_ifs at h with hsec
  · obtain rfl := Option.some.inj h
    exact hrear s
  · rcases ht : (s.queue .recvq).traverse lib 0
      (fun j => timechk (clockGettime s.now) (s.kio j)) with ⟨rc, l⟩
    rw [ht] at h
    obtain ⟨s1, h1, rfl⟩ := Option.map_eq_some_iff.mp h
    have hl := CList.items_of_traverse ht
    have h2 : R (s.setQueue .recvq l) s1 := by
      refine sweepLoop_rule hrefl htrans hcursor (hturn hsec) (fun hok => ?_) h1
      subst hok
      obtain ⟨i, m, k, hc, hi, hexp, -⟩ := CList.traverse_ok ht
      exact ⟨i, m, k, by rw [queue_setQueue_self, hc], by rw [queue_setQueue_self, hl, hi], hexp⟩
    have h3 : R s s1 := htrans _ _ _ (hcursor s l hl) h2
    exact htrans _ _ _ h3 (htrans _ _ _ (hlast s1 _) (hrear _))

/-- The loop always finds the element that it removes. -/
theorem sweepLoop_some (hcur : rc = lib.listOk → ∃ i m k, (s.queue .recvq).curr = some i ∧
      (s.queue .recvq).items[i]? = some (m, k)) : ∃ s', sweepLoop lib cur n rc s = some s' := by
  induction n generalizing s rc with
  | zero => exact ⟨s, rfl⟩
  | succ n ih =>
    unfold sweepLoop
    split_ifs with hrc
    · exact ⟨s, rfl⟩
    · obtain ⟨i, m, k, hc, hi⟩ := hcur (not_not.mp hrc)
      rw [CList.removeCurr_of_getElem hc hi]
      dsimp only
      generalize timeOut (s.setQueue .recvq _) k = s1
      rcases ht : (s1.queue .recvq).traverse lib (s1.queue .recvq).currPos
        (fun j => timechk cur (s1.kio j)) with ⟨rc1, l1⟩
      refine ih fun hok => ?_
      subst hok
      obtain ⟨i1, m1, k1, hc1, hi1, -, -⟩ := CList.traverse_ok ht
      exact ⟨i1, m1, k1, by rw [queue_setQueue_self, hc1],
        by rw [queue_setQueue_self, CList.items_of_traverse ht, hi1]⟩

/-- **The sweep** never uses a null element. -/
theorem sweep_some (lib : ListLib KioId) (s : Session) : ∃ s', sweep lib s = some s' := by
  unfold sweep
  dsimp only
  split_ifs
  · exact ⟨_, rfl⟩
  · rcases ht : (s.queue .recvq).traverse lib 0
      (fun j => timechk (clockGettime s.now) (s.kio j)) with ⟨rc, l⟩
    obtain ⟨s1, h1⟩ := @sweepLoop_some lib (s.setQueue .recvq l) rc (clockGettime s.now)
      (s.queue .recvq).size fun hok => by
        subst hok
        obtain ⟨i, m, k, hc, hi, -, hl⟩ := CList.traverse_ok ht
        exact ⟨i, m, k, by rw [queue_setQueue_self, hc], by rw [queue_setQueue_self, hl, hi]⟩
    exact ⟨_, Option.map_eq_some_iff.mpr ⟨s1, h1, rfl⟩⟩

/-- **The rule of the error path's loop.** -/
theorem moveAll_rule (hrefl : ∀ s, R s s) (htrans : ∀ s s1 s2, R s s1 → R s1 s2 → R s s2)
    (hturn : ∀ s k l m, (s.queue q).items = (m, k) :: l.items →
      R s (((s.setQueue q l).setKio k Kio.abort).insertAfter recvmsgCq k)) :
    R s (moveAll lib q n s) := by
  induction n generalizing s with
  | zero => exact hrefl s
  | succ n ih =>
    unfold moveAll
    rcases hrem : (s.queue q).removeFront lib with ⟨_ | k, l⟩
    · exact hrefl s
    · obtain ⟨m, hm⟩ := CList.removeFront_some hrem
      exact htrans _ _ _ (hturn s k l m hm) ih

end Rules

/-! ### The thread -/

/-- Where the thread stands, and `ktli_recvmsg` inside it. -/
inductive ReceiverPc
  | waiting
  | polling
  | receiving
  /-- The message is in; `rc` is what the driver's last receive returned. -/
  | matching (rc aseq : ℤ) (msg : ℕ)
  | matched (k : KioId) (msg : ℕ)
  /-- At `recvmsgerr`. -/
  | aborting
  | disconnecting
  | disconnected
  /-- Taking the locks of the error path: those held, those still to take. -/
  | locking (held todo : List QId)
  /-- Before the timeout check. -/
  | looping
  | swept
  | exited
deriving DecidableEq

/-- What the receiver's environment answers in a step. -/
structure ReceiverEnv where
  /-- The driver's poll. -/
  poll : ℤ
  recv : RecvEnv
  /-- The kio allocated for an unsolicited message. -/
  alloc : Option KioId
  /-- The driver's disconnect. -/
  discRc : ℤ

/-- The match section; the kio allocated for an unsolicited message is a new one. -/
def receiverMatch (lib : ListLib KioId) (s : Session) (rc aseq : ℤ) (msg : ℕ)
    (alloc : Option KioId) : Option (Session × ReceiverPc) :=
  if ∀ k ∈ alloc, k ∉ s.issued then
    (recvmsgMatch lib s rc aseq alloc).map fun r =>
      (r.2, match r.1 with
        | .tossed => .looping
        | .nomem => .aborting
        | .kio k => .matched k msg)
  else none

/-- **A step of the receiver.** -/
def receiverStep (lib : ListLib KioId) (s : Session) (e : ReceiverEnv) :
    ReceiverPc → Option (Session × ReceiverPc)
  | .waiting => some (s, if s.state = .connected then .polling else .waiting)
  | .polling =>
    some (s, if e.poll < 0 then .polling else if e.poll = 1 then .receiving else .looping)
  | .receiving =>
    some (s, match recvmsgRead e.recv with
      | none => .aborting
      | some (rc, aseq, msg) => .matching rc aseq msg)
  | .matching rc aseq msg => receiverMatch lib s rc aseq msg e.alloc
  | .matched k msg => some (recvmsgComplete s k msg, .looping)
  | .aborting => some ({ s with state := .aborted }, .disconnecting)
  | .disconnecting =>
    some (s, if (s.state ≠ .connected ∧ s.state ≠ .aborted) ∨ e.discRc = -1 then
      .locking [] recvmsgLocks else .disconnected)
  | .disconnected => some ({ s with state := .draining }, .locking [] recvmsgLocks)
  | .locking held (q :: todo) =>
    if q ∈ held then none else some (s, .locking (q :: held) todo)
  | .locking _ [] => some (recvmsgMoves lib s, .looping)
  | .looping => (sweep lib s).map fun s => (s, .swept)
  | .swept => some (s, if s.exit .recvq then .exited else .polling)
  | .exited => none

/-- The thread is inside a section under the mutex of `q`. Every section is one step, except the
error path of `ktli_recvmsg`, which takes its locks one after the other. -/
def ReceiverPc.holds (pc : ReceiverPc) (q : QId) : Bool :=
  match pc with
  | .locking held _ => decide (q ∈ held)
  | _ => false

end Libkinetic.Ktli
