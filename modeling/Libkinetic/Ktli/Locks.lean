import Libkinetic.Base.Locks
import Libkinetic.Ktli.Loop

/-! # The queue mutexes

The calls of lock and unlock that every section makes, and the trace of them that each thread leaves
in a run: the sender, the receiver, each interface call and each `ktli_close`. The order is sendq,
recvq, compq. Every thread keeps to it as long as `ktli_recvmsg` stays off its error path
(`locks_in_order`), which locks recvq twice (`recvq_locked_twice`). -/

namespace Libkinetic.Ktli

open Libkinetic.Base.CursorList Libkinetic.Base.Runs Libkinetic.Base.Locks

/-! ### The lock order -/

def QId.rank : QId → ℕ
  | .sendq => 0
  | .recvq => 1
  | .compq => 2

theorem QId.rank_injective : Function.Injective QId.rank := by
  intro q r h
  cases q <;> cases r <;> first | rfl | cases h

/-- The lock order is sq, rq, cq. -/
instance : LinearOrder QId := LinearOrder.lift' QId.rank QId.rank_injective

/-- A thread's calls of lock and unlock, the first one first. -/
abbrev Trace := List (LockEv QId)

/-! ### What the sections lock -/

/-- The sections of the interface calls. Connecting and disconnecting only signal. -/
def Call.locks : Call → Trace
  | .sendLock _ => critical .sendq
  | .receiveLock _ | .unsolicitedLock => critical .compq
  | .drainLock todo | .matchLock _ todo _ _ => todo.head?.toList.flatMap critical
  | .matchCheck _ => []
  | .connected => critical .recvq
  | .disconnected => critical .compq

/-- `ktli_close` raises an exit flag. -/
def Close.locks : Close → Trace
  | .exiting q => critical q
  | _ => []

/-- A wait for the condition of sendq unlocks and locks the mutex. A request that was sent is followed
by a signal to the receiver, under the mutex of recvq like the removal of one that was not. -/
def SenderPc.locks (s : Session) : SenderPc → Trace
  | .idle =>
    if (s.queue .sendq).size = 0 ∧ ¬ s.exit .sendq then critical .sendq ++ critical .sendq
    else critical .sendq
  | .take => critical .sendq
  | .sequenced k | .marked k _ => if s.reqonly k then [] else critical .recvq
  | .completing _ _ => critical .compq
  | _ => []

/-- A sweep locks compq once for every kio that leaves recvq. -/
def sweepLocks (n : ℕ) : Trace :=
  .lock .recvq :: (List.replicate n (critical .compq)).flatten ++ [.unlock .recvq]

/-- The sections of the receiver, from `s` to `s'`; the locks of the error path are taken before. -/
def ReceiverPc.locks (s s' : Session) : ReceiverPc → Trace
  | .matching _ _ _ => critical .recvq
  | .matched _ _ | .disconnected => critical .compq
  | .locking _ [] => [.unlock recvmsgCq, .unlock recvmsgRq, .unlock recvmsgSq]
  | .looping => sweepLocks ((s.queue .recvq).size - (s'.queue .recvq).size)
  | _ => []

/-- The call of lock on the error path that the receiver is in, whether or not it ever returns. -/
def ReceiverPc.acquires : ReceiverPc → Trace
  | .locking _ (q :: _) => [.lock q]
  | _ => []

/-! ### The log -/

/-- The traces of the calls under way and of those that are over. -/
structure CallLog (C : Type*) where
  running : List (C × Trace) := []
  returned : List Trace := []

namespace CallLog
variable {C : Type*}

def traces (g : CallLog C) : List Trace := g.running.map Prod.snd ++ g.returned

def begin (g : CallLog C) (next : List C) : CallLog C :=
  { g with running := next.map (fun c => (c, [])) ++ g.running }

/-- A call locks something and goes on as `next`. -/
def advance [DecidableEq C] (g : CallLog C) (c : C) (ev : Trace) (next : List C) : CallLog C :=
  let tr := ((g.running.find? fun p => p.1 = c).elim [] Prod.snd) ++ ev
  { running := next.map (fun c' => (c', tr)) ++ g.running.eraseP fun p => p.1 = c
    returned := if next = [] then tr :: g.returned else g.returned }

end CallLog

/-- What every thread has locked. -/
structure LockLog where
  sender : Trace := []
  receiver : Trace := []
  calls : CallLog Call := {}
  closes : CallLog Close := {}

def LockLog.traces (g : LockLog) : List Trace :=
  g.sender :: g.receiver :: (g.calls.traces ++ g.closes.traces)

/-- The calls in the list that were not among the last `n`. -/
def newest {C : Type*} (l : List C) (n : ℕ) : List C := l.take (l.length - n)

/-- What a step adds to the log. -/
def LockLog.record (l : Life) (a : LifeAct) (l' : Life) (g : LockLog) : LockLog :=
  match a with
  | .sys (.call c _) =>
    { g with calls := g.calls.advance c c.locks (newest l'.calls (l.calls.length - 1)) }
  | .sys (.sender _ _) => { g with sender := g.sender ++ l.sender.locks l.toSession }
  | .sys (.receiver _) =>
    { g with receiver := g.receiver ++ l.receiver.locks l.toSession l'.toSession ++
        l'.receiver.acquires }
  | .sys _ => { g with calls := g.calls.begin (newest l'.calls l.calls.length) }
  | .close => { g with closes := g.closes.begin (newest l'.closing l.closing.length) }
  | .closing c _ =>
    { g with closes := g.closes.advance c c.locks (newest l'.closing (l.closing.length - 1)) }

def InitLocks (p : Life × LockLog) : Prop := LifeInit p.1 ∧ p.2 = {}

/-- **The condition**: `ktli_recvmsg` does not fail. -/
def NoAbort (l : Life) : LifeAct → Prop
  | .sys (.receiver e) => l.receiver.fails e = false
  | _ => True

instance (l : Life) : ∀ a, Decidable (NoAbort l a)
  | .sys (.receiver e) => inferInstanceAs (Decidable (l.receiver.fails e = false))
  | .sys (.send _ _ _) | .sys (.receive _) | .sys .receiveUnsolicited | .sys .drain
  | .sys (.drainMatch _) | .sys (.connect _) | .sys (.disconnect _) | .sys (.call _ _)
  | .sys (.sender _ _) | .sys (.tick _) | .close | .closing _ _ => isTrue trivial

/-! ### Every section is clean -/

theorem critical_clean (q : QId) : Clean [] (critical q) := .critical fun h hh => by cases hh

theorem Call.locks_clean (c : Call) : Clean [] c.locks := by
  cases c with
  | sendLock | receiveLock | unsolicitedLock | connected | disconnected => exact critical_clean _
  | matchCheck => exact .nil
  | drainLock todo | matchLock _ todo _ _ =>
    cases todo with
    | nil => exact .nil
    | cons q todo =>
      show Clean [] (critical q ++ [])
      exact (critical_clean q).append .nil

theorem Close.locks_clean (c : Close) : Clean [] c.locks := by
  cases c with
  | exiting q => exact critical_clean q
  | _ => exact .nil

theorem SenderPc.locks_clean (s : Session) (pc : SenderPc) : Clean [] (pc.locks s) := by
  cases pc with
  | idle =>
    simp only [SenderPc.locks]
    split_ifs
    · exact (critical_clean .sendq).append (critical_clean .sendq)
    · exact critical_clean .sendq
  | take | completing => exact critical_clean _
  | sequenced k | marked k _ =>
    simp only [SenderPc.locks]
    split_ifs
    · exact .nil
    · exact critical_clean .recvq
  | _ => exact .nil

/-- compq comes after recvq. -/
theorem sweepLocks_clean (n : ℕ) : Clean [] (sweepLocks n) := by
  refine .inside (fun h hh => by cases hh) (.replicate (.critical fun h hh => ?_) n)
  obtain rfl := List.mem_singleton.mp hh
  decide

/-- The receiver is on the error path of `ktli_recvmsg`. -/
def ReceiverPc.erring : ReceiverPc → Bool
  | .aborting | .disconnecting | .disconnected | .locking _ _ => true
  | _ => false

theorem ReceiverPc.locks_clean {s s' : Session} {pc : ReceiverPc} (h : pc.erring = false) :
    Clean [] (pc.locks s s') := by
  cases pc with
  | matching | matched => exact critical_clean _
  | looping => exact sweepLocks_clean _
  | aborting | disconnecting | disconnected | locking => cases h
  | _ => exact .nil

/-- **The receiver stays off the error path** as long as nothing fails. -/
theorem erring_of_step {lib : ListLib KioId} {s s' : Session} {e : ReceiverEnv}
    {pc pc' : ReceiverPc} (herr : pc.erring = false) (hok : pc.fails e = false)
    (h : receiverStep lib s e pc = some (s', pc')) : pc'.erring = false := by
  cases pc with
  | waiting | polling | swept =>
    obtain ⟨-, rfl⟩ := Prod.mk.inj (Option.some.inj h)
    split_ifs <;> rfl
  | receiving =>
    obtain ⟨-, rfl⟩ := Prod.mk.inj (Option.some.inj h)
    have hread : (recvmsgRead e.recv).isNone = false := hok
    cases hr : recvmsgRead e.recv with
    | none =>
      rw [hr] at hread
      cases hread
    | some r => rfl
  | matching rc aseq msg =>
    have h1 : receiverMatch lib s rc aseq msg e.alloc = some (s', pc') := h
    have hmem : ¬ (aseq = -1 ∧ e.alloc.isNone = true) := of_decide_eq_false hok
    unfold receiverMatch at h1
    split_ifs at h1
    obtain ⟨⟨m, s1⟩, hm, h2⟩ := Option.map_eq_some_iff.mp h1
    obtain ⟨-, rfl⟩ := Prod.mk.inj h2
    rcases recvmsgMatch_cases hm with ⟨rfl, -⟩ | ⟨-, haseq, halloc, -⟩ | ⟨k, rfl, -⟩ |
      ⟨i, k, rfl, -⟩
    · rfl
    · exact absurd ⟨haseq, by rw [halloc]; rfl⟩ hmem
    · rfl
    · rfl
  | matched =>
    obtain ⟨-, rfl⟩ := Prod.mk.inj (Option.some.inj h)
    rfl
  | aborting | disconnecting | disconnected | locking => cases herr
  | looping =>
    obtain ⟨s1, -, h1⟩ := Option.map_eq_some_iff.mp h
    obtain ⟨-, rfl⟩ := Prod.mk.inj h1
    rfl
  | exited => cases h

/-! ### The invariant -/

section CallLog
variable {C : Type*} {g : CallLog C} {next : List C}

theorem CallLog.begin_clean (hg : ∀ tr ∈ g.traces, Clean [] tr) :
    ∀ tr ∈ (g.begin next).traces, Clean [] tr := by
  intro tr htr
  rcases List.mem_append.mp htr with h | h
  · obtain ⟨p, hp, rfl⟩ := List.mem_map.mp h
    rcases List.mem_append.mp hp with hp | hp
    · obtain ⟨c, -, rfl⟩ := List.mem_map.mp hp
      exact .nil
    · exact hg _ (List.mem_append_left _ (List.mem_map_of_mem hp))
  · exact hg _ (List.mem_append_right _ h)

theorem CallLog.advance_clean [DecidableEq C] {c : C} {ev : Trace}
    (hg : ∀ tr ∈ g.traces, Clean [] tr) (hev : Clean [] ev) :
    ∀ tr ∈ (g.advance c ev next).traces, Clean [] tr := by
  have hrun : ∀ p ∈ g.running, Clean [] p.2 := fun p hp =>
    hg _ (List.mem_append_left _ (List.mem_map_of_mem hp))
  -- the trace of the call so far, and this section
  have hthis : Clean [] (((g.running.find? fun p => p.1 = c).elim [] Prod.snd) ++ ev) := by
    refine Clean.append ?_ hev
    cases hfind : g.running.find? fun p => p.1 = c with
    | none => exact .nil
    | some p => exact hrun p (List.mem_of_find?_eq_some hfind)
  intro tr htr
  rcases List.mem_append.mp htr with h | h
  · obtain ⟨p, hp, rfl⟩ := List.mem_map.mp h
    rcases List.mem_append.mp hp with hp | hp
    · obtain ⟨c', -, rfl⟩ := List.mem_map.mp hp
      exact hthis
    · exact hrun p (List.mem_of_mem_eraseP hp)
  · unfold CallLog.advance at h
    dsimp only at h
    split_ifs at h
    · rcases List.mem_cons.mp h with rfl | h
      · exact hthis
      · exact hg _ (List.mem_append_right _ h)
    · exact hg _ (List.mem_append_right _ h)

end CallLog

/-- **The invariant**: between two sections every thread has locked in order and holds nothing. -/
structure Locked (l : Life) (g : LockLog) : Prop where
  sender : Clean [] g.sender
  receiver : Clean [] g.receiver
  calls : ∀ tr ∈ g.calls.traces, Clean [] tr
  closes : ∀ tr ∈ g.closes.traces, Clean [] tr
  erring : l.receiver.erring = false

section Step
variable {lib : ListLib KioId} {l l' : Life} {a : LifeAct} {g : LockLog}

theorem closeStep_receiver {rc : ℤ} {c : Close} {r : Life × Option Close}
    (h : closeStep l rc c = some r) : r.1.receiver = l.receiver := by
  rcases closeStep_cases h with hr | ⟨q, -, hr⟩ | ⟨q, -, hr⟩ | ⟨-, hr⟩ | ⟨-, hr⟩ <;> rw [hr] <;> rfl

/-- Only the receiver moves itself. -/
theorem receiver_of_lifeStep (h : lifeStep lib l a = some l') (ha : ∀ e, a ≠ .sys (.receiver e)) :
    l'.receiver = l.receiver := by
  cases a with
  | sys a =>
    obtain ⟨s, st, hs, -, rfl⟩ := lifeStep_sys h
    have h1 : s.receiver = l.receiver := receiver_of_step hs fun e he => ha e (congrArg _ he)
    exact h1
  | close =>
    obtain rfl := Option.some.inj h
    rfl
  | closing c rc =>
    simp only [lifeStep] at h
    split_ifs at h
    obtain ⟨r, hr, rfl⟩ := Option.map_eq_some_iff.mp h
    exact closeStep_receiver hr

/-- The receiver locks in order, and goes on off the error path. -/
theorem Locked.receive {e : ReceiverEnv} (hl : Locked l g) (hok : l.receiver.fails e = false)
    (h : lifeStep lib l (.sys (.receiver e)) = some l') :
    Locked l' (g.record l (.sys (.receiver e)) l') := by
  obtain ⟨s, st, hs, -, rfl⟩ := lifeStep_sys h
  obtain ⟨r, hr, rfl⟩ := Option.map_eq_some_iff.mp hs
  have herr : r.2.erring = false := erring_of_step hl.erring hok hr
  have hnext : r.2.acquires = [] := by
    cases hpc : r.2 with
    | locking held todo =>
      rw [hpc] at herr
      cases herr
    | _ => rfl
  refine ⟨hl.sender, ?_, hl.calls, hl.closes, herr⟩
  have hclean : Clean [] (l.receiver.locks l.toSession r.1) := ReceiverPc.locks_clean hl.erring
  show Clean [] (g.receiver ++ _ ++ r.2.acquires)
  rw [hnext]
  exact (hl.receiver.append hclean).append .nil

/-- **Every step** that meets the condition locks in order. -/
theorem locked_step (hl : Locked l g) (hok : NoAbort l a) (h : lifeStep lib l a = some l') :
    Locked l' (g.record l a l') := by
  by_cases ha : ∃ e, a = .sys (.receiver e)
  · obtain ⟨e, rfl⟩ := ha
    exact hl.receive hok h
  · have hpc : l'.receiver.erring = false := by
      rw [receiver_of_lifeStep h fun e he => ha ⟨e, he⟩]
      exact hl.erring
    cases a with
    | close => exact ⟨hl.sender, hl.receiver, hl.calls, CallLog.begin_clean hl.closes, hpc⟩
    | closing c rc =>
      exact ⟨hl.sender, hl.receiver, hl.calls, CallLog.advance_clean hl.closes c.locks_clean, hpc⟩
    | sys a =>
      cases a with
      | call c mem =>
        exact ⟨hl.sender, hl.receiver, CallLog.advance_clean hl.calls c.locks_clean, hl.closes, hpc⟩
      | sender rc err =>
        exact ⟨hl.sender.append (SenderPc.locks_clean _ _), hl.receiver, hl.calls, hl.closes, hpc⟩
      | receiver e => exact absurd ⟨e, rfl⟩ ha
      | _ => exact ⟨hl.sender, hl.receiver, CallLog.begin_clean hl.calls, hl.closes, hpc⟩

end Step

/-! ### The runs -/

/-- **Every thread keeps to the lock order**, in every run in which `ktli_recvmsg` does not fail. -/
theorem locks_in_order (lib : ListLib KioId) (p : Life × LockLog)
    (h : Reach (logged (lifeStep lib) LockLog.record) (fun p => NoAbort p.1) InitLocks p) :
    ∀ tr ∈ p.2.traces, Disciplined tr := by
  have hinv : Locked p.1 p.2 := by
    refine h.invariant (I := fun p => Locked p.1 p.2) ?_ ?_
    · rintro ⟨l, g⟩ ⟨⟨s, ⟨now, rfl⟩, rfl⟩, rfl⟩
      exact ⟨.nil, .nil, fun tr htr => (by cases htr), fun tr htr => (by cases htr), rfl⟩
    · rintro ⟨l, g⟩ ⟨l', g'⟩ a hs hok hstep
      obtain ⟨h1, h2⟩ := logged_some hstep
      dsimp only at h1 h2
      rw [h2]
      exact locked_step hs hok h1
  intro tr htr
  refine Orderly.disciplined (Clean.orderly ?_)
  simp only [LockLog.traces, List.mem_cons, List.mem_append] at htr
  rcases htr with rfl | rfl | htr | htr
  · exact hinv.sender
  · exact hinv.receiver
  · exact hinv.calls tr htr
  · exact hinv.closes tr htr

/-! ### A kio that times out, and a receive that fails -/

/-- A request is sent, not answered and timed out. -/
theorem silentTrace_locks : ∃ p : Life × LockLog,
    run (logged (lifeStep (ListLib.next KioId)) LockLog.record) ({ now := 5 }, {})
      (silentTrace.map .sys) = some p ∧
    ([.lock .recvq, .lock .compq, .unlock .compq, .unlock .recvq] : Trace) <:+ p.2.receiver ∧
    Disciplined p.2.receiver := by
  obtain ⟨p, hp, hq⟩ := Option.map_eq_some_iff.mp
    (show (run (logged (lifeStep (ListLib.next KioId)) LockLog.record) ({ now := 5 }, {})
      (silentTrace.map .sys)).map (fun p => decide
        (([.lock .recvq, .lock .compq, .unlock .compq, .unlock .recvq] : Trace) <:+
          p.2.receiver)) = some true by decide)
  have hreach : Reach (logged (lifeStep (ListLib.next KioId)) LockLog.record)
      (fun p => NoAbort p.1) InitLocks p :=
    reach_of_run ⟨⟨_, ⟨_, rfl⟩, rfl⟩, rfl⟩ (by decide) hp
  exact ⟨p, hp, of_decide_eq_true hq,
    locks_in_order (ListLib.next KioId) p hreach _ (by simp [LockLog.traces])⟩

/-- The driver announces a message, and its receive fails. -/
def garbledTrace : List LifeAct :=
  enterLoop ++ List.replicate 6 (.sys (.receiver { quietEnv with
    poll := 1, recv := { garbledEnv with pduRc := -1 } }))

/-- **The error path locks recvq twice.** -/
theorem recvq_locked_twice :
    ¬ ∀ p, Reach (logged (lifeStep (ListLib.next KioId)) LockLog.record) always InitLocks p →
      ∀ tr ∈ p.2.traces, Disciplined tr := by
  intro hall
  obtain ⟨p, hp, hq⟩ := Option.map_eq_some_iff.mp
    (show (run (logged (lifeStep (ListLib.next KioId)) LockLog.record) ({ now := 5 }, {})
      garbledTrace).map (fun p => p.2.receiver) =
        some (critical .compq ++ [.lock .recvq] ++ .lock .recvq :: []) by decide)
  have hdis := hall p (reach_of_run ⟨⟨_, ⟨_, rfl⟩, rfl⟩, rfl⟩ (runOk_always _ _) hp) p.2.receiver
    (by simp [LockLog.traces])
  rw [hq] at hdis
  exact (hdis _ _ _ rfl).1 (by decide)

end Libkinetic.Ktli
