import Libkinetic.Base.Runs
import Libkinetic.Ktli.Caller
import Libkinetic.Ktli.Sender
import Libkinetic.Ktli.Receiver

/-! # The step relation of a session

The system is a session with its two threads and the calls under way. One step is one section of one
of them; the arguments of an action are what the callers ask for and what the driver and the
allocator answer. `ktli_open` gives the initial state; `ktli_close` is not part of the relation. -/

namespace Libkinetic.Ktli

open Libkinetic.Base.CursorList Libkinetic.Base.Runs

structure System extends Session where
  sender : SenderPc := .idle
  receiver : ReceiverPc := .waiting
  calls : List Call := []

inductive Act
  | send (k : KioId) (flags : ℕ) (msg : KioMsg)
  | receive (k : KioId)
  | receiveUnsolicited
  | drain
  | drainMatch (k : KioId)
  | connect (rc : ℤ)
  | disconnect (rc : ℤ)
  /-- The next section of a call. -/
  | call (c : Call) (mem : Bool)
  | sender (rc err : ℤ)
  | receiver (e : ReceiverEnv)
  /-- Time passes. -/
  | tick (ns : ℕ)

/-- No other thread is inside a section under this mutex. -/
def System.mutexFree (s : System) (q : Option QId) : Bool := q.all fun q => ! s.receiver.holds q

/-- A call goes on to its next section, if there is one. -/
def System.push (s : System) (r : Session × Option Call) : System :=
  { s with toSession := r.1, calls := r.2.toList ++ s.calls }

/-- **One step.** -/
def step (lib : ListLib KioId) (s : System) : Act → Option System
  | .send k flags msg => (sendBegin s.toSession k flags msg).map s.push
  | .receive k => some (s.push (s.toSession, receiveBegin s.toSession k))
  | .receiveUnsolicited => some (s.push (s.toSession, unsolicitedBegin s.toSession))
  | .drain => some (s.push (s.toSession, drainBegin s.toSession))
  | .drainMatch k => some (s.push (s.toSession, some (.matchCheck k)))
  | .connect rc => some (s.push (s.toSession, connectBegin s.toSession rc))
  | .disconnect rc => some (s.push (s.toSession, disconnectBegin s.toSession rc))
  | .call c mem =>
    if c ∈ s.calls ∧ s.mutexFree c.mutex then
      (callStep lib s.toSession mem c).map ({ s with calls := s.calls.erase c } : System).push
    else none
  | .sender rc err =>
    if s.mutexFree (s.sender.mutex s.toSession) then
      (senderStep lib s.toSession rc err s.sender).map fun r =>
        { s with toSession := r.1, sender := r.2 }
    else none
  | .receiver e =>
    (receiverStep lib s.toSession e s.receiver).map fun r =>
      { s with toSession := r.1, receiver := r.2 }
  | .tick ns => some { s with now := s.now + ns }

section Step
variable {lib : ListLib KioId} {s s' : System} {a : Act} {rc err : ℤ}

/-- Only the sender moves the sender. -/
theorem sender_of_step (h : step lib s a = some s') (ha : ∀ rc err, a ≠ .sender rc err) :
    s'.sender = s.sender := by
  cases a with
  | send | receiver =>
    obtain ⟨r, -, rfl⟩ := Option.map_eq_some_iff.mp h
    rfl
  | receive | receiveUnsolicited | drain | drainMatch | connect | disconnect | tick =>
    obtain rfl := Option.some.inj h
    rfl
  | call c mem =>
    simp only [step] at h
    split_ifs at h
    obtain ⟨r, -, rfl⟩ := Option.map_eq_some_iff.mp h
    rfl
  | sender rc err => exact absurd rfl (ha rc err)

theorem sender_step (h : step lib s (.sender rc err) = some s') :
    senderStep lib s.toSession rc err s.sender = some (s'.toSession, s'.sender) := by
  simp only [step] at h
  split_ifs at h
  obtain ⟨r, hr, rfl⟩ := Option.map_eq_some_iff.mp h
  exact hr

/-- Only the receiver moves the receiver. -/
theorem receiver_of_step (h : step lib s a = some s') (ha : ∀ e, a ≠ .receiver e) :
    s'.receiver = s.receiver := by
  cases a with
  | send =>
    obtain ⟨r, -, rfl⟩ := Option.map_eq_some_iff.mp h
    rfl
  | receive | receiveUnsolicited | drain | drainMatch | connect | disconnect | tick =>
    obtain rfl := Option.some.inj h
    rfl
  | call | sender =>
    simp only [step] at h
    split_ifs at h
    obtain ⟨r, -, rfl⟩ := Option.map_eq_some_iff.mp h
    rfl
  | receiver e => exact absurd rfl (ha e)

/-- The sender moves no call and not the receiver. -/
theorem calls_of_sender (h : step lib s (.sender rc err) = some s') :
    s'.calls = s.calls ∧ s'.receiver = s.receiver := by
  simp only [step] at h
  split_ifs at h
  obtain ⟨r, -, rfl⟩ := Option.map_eq_some_iff.mp h
  exact ⟨rfl, rfl⟩

/-- The action begins a call that brings no kio with it. -/
def Act.begins : Act → Bool
  | .receive _ | .receiveUnsolicited | .drain | .drainMatch _ | .connect _ | .disconnect _ => true
  | .send _ _ _ | .call _ _ | .sender _ _ | .receiver _ | .tick _ => false

/-- The section that a call enters first, but for the one of `ktli_send`. -/
def Call.first : Call → Prop
  | .receiveLock _ | .unsolicitedLock | .matchCheck _ | .connected | .disconnected => True
  | .drainLock todo => todo = drainOrder
  | .sendLock _ | .matchLock _ _ _ _ => False

theorem Call.first.kio {c : Call} (h : c.first) : c.kio = none := by
  cases c with
  | sendLock k => exact h.elim
  | _ => rfl

/-- **The beginning of a call** only adds the call, at its first section. -/
theorem step_push (h : step lib s a = some s') (ha : a.begins = true) :
    ∃ c, s' = s.push (s.toSession, c) ∧ ∀ c' ∈ c, c'.first := by
  cases a with
  | receive k =>
    refine ⟨_, (Option.some.inj h).symm, ?_⟩
    unfold receiveBegin
    split <;> simp [Call.first]
  | receiveUnsolicited =>
    refine ⟨_, (Option.some.inj h).symm, ?_⟩
    unfold unsolicitedBegin
    split_ifs <;> simp [Call.first]
  | drain =>
    refine ⟨_, (Option.some.inj h).symm, ?_⟩
    unfold drainBegin
    split_ifs <;> simp [Call.first]
  | drainMatch k => exact ⟨_, (Option.some.inj h).symm, by simp [Call.first]⟩
  | connect rc =>
    refine ⟨_, (Option.some.inj h).symm, ?_⟩
    unfold connectBegin
    split_ifs <;> simp [Call.first]
  | disconnect rc =>
    refine ⟨_, (Option.some.inj h).symm, ?_⟩
    unfold disconnectBegin
    split_ifs <;> simp [Call.first]
  | send | call | sender | receiver | tick => cases ha

end Step

/-- A session as `ktli_open` leaves it, at any time of the clock. -/
def Init (s : System) : Prop := ∃ now, s = { now }

end Libkinetic.Ktli
