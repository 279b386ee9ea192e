import Libkinetic.Ktli.Session

/-! # The sender thread

`ktli_sender`, one step for each section under a mutex, each call of the driver and each access to a
kio that another thread may see. -/

namespace Libkinetic.Ktli

open Libkinetic.Base.CursorList

/-- Where the thread stands; `rc` and `err` are what the driver's send returned and left in
`errno`. -/
inductive SenderPc
  /-- Before the lock and the wait at the head of the main loop. -/
  | idle
  | woken
  /-- At the test of the inner loop. -/
  | loop
  /-- The queue was seen not to be empty; before the lock. -/
  | take
  | taken (k : KioId)
  | sequenced (k : KioId)
  /-- Preemptively queued on recvq if a response is needed; the deadline is not set. -/
  | queued (k : KioId)
  | timed (k : KioId)
  | sent (k : KioId) (rc err : ℤ)
  /-- After the compare and swap; before the error case is handled. -/
  | marked (k : KioId) (rc : ℤ)
  | completing (k : KioId) (st : KioState)
  | exited
deriving DecidableEq

/-- The front of sendq is taken off. -/
def senderTake (lib : ListLib KioId) (s : Session) : Option (KioId × Session) :=
  match (s.queue .sendq).removeFront lib with
  | (none, _) => none
  | (some k, l) =>
    some (k, { (s.setQueue .sendq l).unqbp k with
      takenAt := Function.update s.takenAt k (some s.now) })

theorem senderTake_some {lib : ListLib KioId} {s s' : Session} {k : KioId}
    (h : senderTake lib s = some (k, s')) :
    ∃ n l, (s.queue .sendq).items = (n, k) :: l.items ∧
      s' = { (s.setQueue .sendq l).unqbp k with
        takenAt := Function.update s.takenAt k (some s.now) } := by
  unfold senderTake at h
  rcases hrem : (s.queue .sendq).removeFront lib with ⟨_ | j, l⟩
  · rw [hrem] at h; cases h
  · rw [hrem] at h
    obtain ⟨rfl, rfl⟩ := Prod.mk.inj (Option.some.inj h)
    obtain ⟨n, hn⟩ := CList.removeFront_some hrem
    exact ⟨n, l, hn, rfl⟩

/-- The kio gets the session's sequence number. -/
def senderSequence (s : Session) (k : KioId) : Session :=
  { s.setKio k fun x => { x with seq := s.sequence } with sequence := s.sequence + 1 }

/-- Preemptive queueing: before the send, to be there when the response arrives. -/
def senderQueue (s : Session) (k : KioId) : Session :=
  if s.reqonly k then s else s.link .recvq k

/-- The deadline: now and `KIO_TIMEOUT_S` seconds. -/
def deadline (now : ℕ) : Timespec :=
  { clockGettime now with tvSec := (clockGettime now).tvSec + kioTimeoutS }

def senderTimeout (s : Session) (k : KioId) : Session :=
  s.setKio k fun x => { x with timeout := deadline s.now }

/-- The compare and swap of the state, and the result of the send. -/
def Kio.mark (rc err : ℤ) (x : Kio) : Kio :=
  { x with
    state := if x.state = .new then .sent else x.state
    sendmsg := { x.sendmsg with kmStatus := rc, kmErrno := err } }

/-- A failed request is popped off recvq again, through its back pointer. The result of
`list_setcurr` is not looked at, and whatever element is removed is freed. -/
def senderUnqueue (lib : ListLib KioId) (s : Session) (k : KioId) : Session :=
  let l := ((s.queue .recvq).setcurr (s.kio k).qbp).2
  ((s.setQueue .recvq (l.removeCurr lib).2).unqbp k).mvrear .recvq

/-- After the send: failed requests, failed and successful request-only kios go to compq, the others
wait for their response. -/
def senderResult (lib : ListLib KioId) (s : Session) (k : KioId) (rc : ℤ) : Session × SenderPc :=
  if rc < 0 ∨ s.reqonly k then
    if ¬ s.reqonly k then (senderUnqueue lib s k, .completing k .failed)
    else if 0 ≤ rc then (s, .completing k .received)
    else (s, .completing k .failed)
  else (s, .loop)

def senderComplete (s : Session) (k : KioId) (st : KioState) : Session :=
  (s.link .compq k).setKio k fun x => { x with state := st }

/-- The mutex that the thread takes next. -/
def SenderPc.mutex (s : Session) : SenderPc → Option QId
  | .idle | .take => some .sendq
  | .sequenced k | .marked k _ => if s.reqonly k then none else some .recvq
  | .completing _ _ => some .compq
  | _ => none

/-- **A step of the sender**; `rc` and `err` are used if it is the call of the driver. The wait at
the head of the main loop may end at any time. -/
def senderStep (lib : ListLib KioId) (s : Session) (rc err : ℤ) :
    SenderPc → Option (Session × SenderPc)
  | .idle => some (s, .woken)
  | .woken => some (s, if s.exit .sendq then .exited else .loop)
  | .loop => some (s, if (s.queue .sendq).size = 0 then .idle else .take)
  | .take => (senderTake lib s).map fun r => (r.2, .taken r.1)
  | .taken k => some (senderSequence s k, .sequenced k)
  | .sequenced k => some (senderQueue s k, .queued k)
  | .queued k => some (senderTimeout s k, .timed k)
  | .timed k => some (s, .sent k rc err)
  | .sent k rc err => some (s.setKio k (Kio.mark rc err), .marked k rc)
  | .marked k rc => some (senderResult lib s k rc)
  | .completing k st => some (senderComplete s k st, .loop)
  | .exited => none

end Libkinetic.Ktli
