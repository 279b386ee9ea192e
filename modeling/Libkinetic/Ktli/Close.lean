import Libkinetic.Ktli.Step

/-! # Closing a session

`ktli_close`, cut where other threads may run, and the step relation of a session that may be
closed. The service threads are told to exit through the flags of their queues and are joined; the
queues are freed with whatever is on them, and last the slot of the session table. -/

namespace Libkinetic.Ktli

open Libkinetic.Base.CursorList

/-- Where a call of `ktli_close` stands, after it has seen the session opened. -/
inductive Close
  /-- Before it looks at the sizes of these queues. -/
  | sizes (todo : List QId)
  | driver
  /-- Before it raises the exit flag of a queue. -/
  | exiting (q : QId)
  /-- Waiting for the thread of a queue. -/
  | joining (q : QId)
  | freeComp
  | freeSlot
deriving DecidableEq

/-- A session with the calls of `ktli_close` under way. -/
structure Life extends System where
  closing : List Close := []
  freed : QId → Bool := fun _ => false
  /-- The slot of the session table is free: the state reads as unknown. -/
  closed : Bool := false

namespace Life

def raise (l : Life) (q : QId) : Life := { l with exit := Function.update l.exit q true }

/-- The list is emptied and destroyed, and the queue freed. -/
def free (l : Life) (q : QId) : Life :=
  { l with queue := Function.update l.queue q {}, freed := Function.update l.freed q true }

/-- The thread that serves a queue has exited. -/
def joined (l : Life) : QId → Bool
  | .sendq => l.sender = .exited
  | .recvq => l.receiver = .exited
  | .compq => true

end Life

/-- `ktli_close` up to its first look at a queue. -/
def closeBegin (l : Life) : Option Close :=
  if l.state = .opened then some (.sizes [.sendq, .recvq, .compq]) else none

/-- A section of `ktli_close`; `rc` is what the driver's close returns. -/
def closeStep (l : Life) (rc : ℤ) : Close → Option (Life × Option Close)
  | .sizes [] => some (l, some .driver)
  | .sizes (q :: todo) =>
    if l.freed q then none
    else some (l, if (l.queue q).size = 0 then some (.sizes todo) else none)
  | .driver => some (l, if rc = -1 then none else some (.exiting .sendq))
  | .exiting q =>
    if l.freed q ∨ ¬ l.mutexFree (some q) then none else some (l.raise q, some (.joining q))
  | .joining q =>
    if l.freed q ∨ ¬ l.joined q then none
    else some (l.free q, some (if q = .sendq then .exiting .recvq else .freeComp))
  | .freeComp => if l.freed .compq then none else some ((l.raise .compq).free .compq, some .freeSlot)
  | .freeSlot => some ({ l with state := .unknown, closed := true }, none)

inductive LifeAct
  | sys (a : Act)
  | close
  /-- The next section of a call of `ktli_close`. -/
  | closing (c : Close) (rc : ℤ)

/-- The action is a section on a queue that was freed. -/
def Life.usesFreed (l : Life) : Act → Bool
  | .call c _ => c.mutex.any l.freed
  | _ => false

/-- **One step** of a session that may be closed. Without a slot no state is set. -/
def lifeStep (lib : ListLib KioId) (l : Life) : LifeAct → Option Life
  | .sys a =>
    if l.usesFreed a then none
    else (step lib l.toSystem a).map fun s =>
      { l with toSystem := if l.closed then { s with state := .unknown } else s }
  | .close => some { l with closing := (closeBegin l).toList ++ l.closing }
  | .closing c rc =>
    if c ∈ l.closing then
      (closeStep l rc c).map fun r => { r.1 with closing := r.2.toList ++ l.closing.erase c }
    else none

def LifeInit (l : Life) : Prop := ∃ s, Init s ∧ l = { toSystem := s }

/-- **A section of `ktli_close`** looks, tells a thread to exit, frees a queue or frees the slot. -/
theorem closeStep_cases {l : Life} {rc : ℤ} {c : Close} {r : Life × Option Close}
    (h : closeStep l rc c = some r) :
    r.1 = l ∨ (∃ q, c = .exiting q ∧ r.1 = l.raise q) ∨ (∃ q, c = .joining q ∧ r.1 = l.free q) ∨
      (c = .freeComp ∧ r.1 = (l.raise .compq).free .compq) ∨
      (c = .freeSlot ∧ r.1 = { l with state := .unknown, closed := true }) := by
  cases c with
  | sizes todo =>
    left
    cases todo with
    | nil =>
      obtain rfl := Option.some.inj h
      rfl
    | cons q todo =>
      simp only [closeStep] at h
      split_ifs at h
      · obtain rfl := Option.some.inj h
        rfl
      · obtain rfl := Option.some.inj h
        rfl
  | driver =>
    obtain rfl := Option.some.inj h
    exact .inl rfl
  | exiting q =>
    simp only [closeStep] at h
    split_ifs at h
    obtain rfl := Option.some.inj h
    exact .inr (.inl ⟨q, rfl, rfl⟩)
  | joining q =>
    simp only [closeStep] at h
    split_ifs at h
    · obtain rfl := Option.some.inj h
      exact .inr (.inr (.inl ⟨q, rfl, rfl⟩))
    · obtain rfl := Option.some.inj h
      exact .inr (.inr (.inl ⟨q, rfl, rfl⟩))
  | freeComp =>
    simp only [closeStep] at h
    split_ifs at h
    obtain rfl := Option.some.inj h
    exact .inr (.inr (.inr (.inl ⟨rfl, rfl⟩)))
  | freeSlot =>
    obtain rfl := Option.some.inj h
    exact .inr (.inr (.inr (.inr ⟨rfl, rfl⟩)))

/-- **A step of the session itself**, which leaves the state alone once the slot is free. -/
theorem lifeStep_sys {lib : ListLib KioId} {l l' : Life} {a : Act}
    (h : lifeStep lib l (.sys a) = some l') :
    ∃ s st, step lib l.toSystem a = some s ∧ (st = s.state ∨ st = .unknown) ∧
      l' = { l with toSystem := { s with state := st } } := by
  simp only [lifeStep] at h
  split_ifs at h
  · obtain ⟨s, hs, rfl⟩ := Option.map_eq_some_iff.mp h
    exact ⟨s, .unknown, hs, Or.inr rfl, rfl⟩
  · obtain ⟨s, hs, rfl⟩ := Option.map_eq_some_iff.mp h
    exact ⟨s, s.state, hs, Or.inl rfl, rfl⟩

end Libkinetic.Ktli
