import Libkinetic.Base.CursorList

/-! # A KTLI session

The state that `ktli_send`, the receive and drain functions and the two service threads share: the
session table entry, the three queues and the kios. A kio is named by a number (its address); a
queue is a list of kio names, since the library copies the pointer.

The clock is `CLOCK_MONOTONIC` in nanoseconds. The last group of fields is history that no function
of the library reads. -/

namespace Libkinetic.Ktli

open Libkinetic.Base.CursorList

/-! ### Kios -/

abbrev KioId := ℕ

/-- `enum kio_state` -/
inductive KioState
  | new | sent | received | failed | timedout
deriving DecidableEq

/-- `enum kio_flags`, a bitmap. -/
def kiofReqonly : ℕ := 0x0002
def kiofResponly : ℕ := 0x0004

/-- `KIOF_ISSET` -/
def kiofIsset (flags kiof : ℕ) : Bool := flags &&& kiof != 0

/-- `KIOF_SET` -/
def kiofSet (flags kiof : ℕ) : ℕ := flags ||| kiof

def ETIMEDOUT : ℤ := 110
def ECONNABORTED : ℤ := 103
def ENOMSG : ℤ := 42
def EINTR : ℤ := 4
def EBADF : ℤ := 9
def EAGAIN : ℤ := 11
def EWOULDBLOCK : ℤ := 11
def ENOMEM : ℤ := 12
def EINVAL : ℤ := 22
def ECOMM : ℤ := 70
def ENOTCONN : ℤ := 107

/-- `struct timespec` -/
structure Timespec where
  tvSec : ℕ := 0
  tvNsec : ℕ := 0
deriving DecidableEq

/-- `struct kio_msg`; the array of buffers is the message they hold, `none` for a null pointer. -/
structure KioMsg where
  kmMsg : Option ℕ := none
  kmCnt : ℤ := 0
  kmStatus : ℤ := 0
  kmErrno : ℤ := 0
deriving DecidableEq

/-- `struct kio`, as far as the transport layer uses it. -/
structure Kio where
  seq : ℤ := 0
  flags : ℕ := 0
  state : KioState := .new
  errno : ℤ := 0
  sendmsg : KioMsg := {}
  recvmsg : KioMsg := {}
  timeout : Timespec := {}
  qbp : Option ℕ := none
deriving DecidableEq

/-- `KIO_TIMEOUT_S` -/
def kioTimeoutS : ℕ := 30

/-- `KM_CNT_WITHVAL` -/
def kmCntWithval : ℤ := 3

def nsPerSec : ℕ := 1000000000

/-- `clock_gettime(KIO_CLOCK, …)` -/
def clockGettime (now : ℕ) : Timespec := ⟨now / nsPerSec, now % nsPerSec⟩

/-- `ktli_timechk`: the kio should be timed out. -/
def timechk (cur : Timespec) (x : Kio) : Bool := decide (x.timeout.tvSec < cur.tvSec)

/-- `ktli_seqmatch` -/
def seqmatch (aseq : ℤ) (x : Kio) : Bool := aseq == x.seq

/-- `ktli_kionoreq` -/
def kionoreq (x : Kio) : Bool := x.sendmsg.kmCnt == 0

/-! ### The session -/

/-- `enum ktli_sstate` -/
inductive SState
  | unknown | opened | connected | aborted | draining
deriving DecidableEq

inductive QId
  | sendq | recvq | compq
deriving DecidableEq

instance : Fintype QId := ⟨{.sendq, .recvq, .compq}, fun q => by cases q <;> decide⟩

/-- The session, its queues and its kios: what the threads share. -/
structure Session where
  state : SState := .opened
  queue : QId → CList KioId := fun _ => {}
  exit : QId → Bool := fun _ => false
  kio : KioId → Kio := fun _ => {}
  sequence : ℤ := 100
  /-- `lastcheck` of the receiver thread. -/
  lastcheck : Timespec := {}
  now : ℕ := 0
  /-- The next list element to be allocated. -/
  nextNode : ℕ := 0
  /-- Kios given to `ktli_send`, and those made for unsolicited messages. -/
  issued : List KioId := []
  /-- Kios that `ktli_send` queued. -/
  accepted : List KioId := []
  /-- Kios given back to a caller. -/
  returned : List KioId := []
  /-- When the sender took a kio off sendq. -/
  takenAt : KioId → Option ℕ := fun _ => none

namespace Session

def setKio (s : Session) (k : KioId) (f : Kio → Kio) : Session :=
  { s with kio := Function.update s.kio k (f (s.kio k)) }

def setQueue (s : Session) (q : QId) (l : CList KioId) : Session :=
  { s with queue := Function.update s.queue q l }

/-- `list_mvrear` -/
def mvrear (s : Session) (q : QId) : Session := s.setQueue q (s.queue q).mvrear

/-- `list_insert_after`, and the back pointer taken from `list_element_curr`. -/
def insertAfter (s : Session) (q : QId) (k : KioId) : Session :=
  let l := (s.queue q).insertAfter s.nextNode k
  { (s.setQueue q l).setKio k fun x => { x with qbp := l.elementCurr } with
    nextNode := s.nextNode + 1 }

/-- A kio goes to the rear of a queue. -/
def link (s : Session) (q : QId) (k : KioId) : Session := (s.mvrear q).insertAfter q k

/-- The back pointer is cleared. -/
def unqbp (s : Session) (k : KioId) : Session := s.setKio k fun x => { x with qbp := none }

/-- A kio not seen before. -/
def issue (s : Session) (k : KioId) (x : Kio) : Session :=
  { s.setKio k fun _ => x with issued := k :: s.issued }

def accept (s : Session) (k : KioId) : Session := { s with accepted := k :: s.accepted }

/-- `KIOF_ISSET(kio, KIOF_REQONLY)` -/
def reqonly (s : Session) (k : KioId) : Bool := kiofIsset (s.kio k).flags kiofReqonly

end Session

/-! ### Lemmas about the operations -/

section Lemmas
variable (s : Session) (q r : QId) (k j : KioId) (f : Kio → Kio) (l : CList KioId)

theorem kio_setKio : (s.setKio k f).kio j = if j = k then f (s.kio k) else s.kio j := by
  simp [Session.setKio, Function.update_apply]

@[simp] theorem kio_setKio_self : (s.setKio k f).kio k = f (s.kio k) := by
  simp [Session.setKio]

/-- A field that the update leaves alone. -/
theorem kio_setKio_field {β : Type*} (p : Kio → β) (h : ∀ x, p (f x) = p x) :
    p ((s.setKio k f).kio j) = p (s.kio j) := by
  rw [kio_setKio]
  split_ifs with hj
  · rw [h, hj]
  · rfl

@[simp] theorem reqonly_setKio (h : ∀ x, (f x).flags = x.flags) :
    (s.setKio k f).reqonly j = s.reqonly j := by
  unfold Session.reqonly
  rw [kio_setKio_field s k j f Kio.flags h]

@[simp] theorem queue_setQueue_self : (s.setQueue q l).queue q = l := by
  simp [Session.setQueue]

theorem queue_setQueue : (s.setQueue q l).queue r = if r = q then l else s.queue r := by
  simp [Session.setQueue, Function.update_apply]

theorem queue_insertAfter : (s.insertAfter q k).queue r =
    if r = q then (s.queue q).insertAfter s.nextNode k else s.queue r :=
  queue_setQueue s q r _

theorem kio_insertAfter : (s.insertAfter q k).kio j = if j = k then
    { s.kio k with qbp := ((s.queue q).insertAfter s.nextNode k).elementCurr } else s.kio j :=
  kio_setKio (s.setQueue q ((s.queue q).insertAfter s.nextNode k)) k j
    fun x => { x with qbp := ((s.queue q).insertAfter s.nextNode k).elementCurr }

/-- **What queueing does**: the kio is last, in a new element that its back pointer names. -/
theorem link_eq : s.link q k =
    { (s.setQueue q ⟨(s.queue q).items ++ [(s.nextNode, k)], some (s.queue q).items.length⟩).setKio k
        fun x => { x with qbp := some s.nextNode } with nextNode := s.nextNode + 1 } := by
  unfold Session.link Session.insertAfter Session.mvrear
  simp only [queue_setQueue_self]
  rw [show (s.setQueue q (s.queue q).mvrear).nextNode = s.nextNode from rfl,
    CList.elementCurr_insertAfter_mvrear, CList.insertAfter_mvrear_eq]
  simp [Session.setQueue, Session.setKio]

@[simp] theorem queue_setKio : (s.setKio k f).queue = s.queue := rfl

@[simp] theorem kio_setQueue : (s.setQueue q l).kio = s.kio := rfl

@[simp] theorem kio_mvrear : (s.mvrear q).kio = s.kio := rfl

@[simp] theorem items_mvrear : ((s.mvrear q).queue r).items = (s.queue r).items := by
  unfold Session.mvrear
  rw [queue_setQueue]
  split_ifs with h
  · rw [h, CList.items_mvrear]
  · rfl

theorem items_link : ((s.link q k).queue r).items =
    if r = q then (s.queue q).items ++ [(s.nextNode, k)] else (s.queue r).items := by
  rw [link_eq]
  simp only [queue_setKio, queue_setQueue]
  split_ifs <;> rfl

theorem kio_link : (s.link q k).kio j =
    if j = k then { s.kio k with qbp := some s.nextNode } else s.kio j := by
  rw [link_eq]
  simp [Session.setKio, Session.setQueue, Function.update_apply]

/-- A field other than the back pointer. -/
theorem kio_link_field {β : Type*} (p : Kio → β) (h : ∀ x e, p { x with qbp := e } = p x) :
    p ((s.link q k).kio j) = p (s.kio j) := by
  rw [kio_link]
  split_ifs with hj
  · rw [h, hj]
  · rfl

end Lemmas

end Libkinetic.Ktli
