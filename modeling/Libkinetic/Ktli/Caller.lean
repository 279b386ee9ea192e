import Libkinetic.Ktli.Session

/-! # The interface calls

`ktli_connect`, `ktli_disconnect`, `ktli_send`, `ktli_receive`, `ktli_receive_unsolicited`,
`ktli_drain` and `ktli_drain_match`, cut at the mutexes: what a call does before its first section,
and each section. A section that would use a null list element, or fail an assertion, has no
result. -/

namespace Libkinetic.Ktli

open Libkinetic.Base.CursorList

/-- The section a call is to enter next. -/
inductive Call
  | sendLock (k : KioId)
  | receiveLock (k : KioId)
  | unsolicitedLock
  /-- `ktli_drain` with the queues still to look at. -/
  | drainLock (todo : List QId)
  | matchCheck (k : KioId)
  /-- `ktli_drain_match` with the queues still to look at, the sizes added up and `rc` so far. -/
  | matchLock (k : KioId) (todo : List QId) (tqlen : ℕ) (rc : ℤ)
  | connected
  | disconnected
deriving DecidableEq

/-! ### Before the first section -/

/-- `ktli_send`: the kio is one not seen before, zero-filled but for its flags and its message. -/
def sendBegin (s : Session) (k : KioId) (flags : ℕ) (msg : KioMsg) :
    Option (Session × Option Call) :=
  if k ∈ s.issued then none
  else if s.state ≠ .connected then some (s, none)
  else if msg.kmCnt = 0 ∨ msg.kmMsg = none then some (s, none)
  else
    let x : Kio := { flags, errno := 0, sendmsg := { msg with kmStatus := 0, kmErrno := 0 } }
    some (s.issue k x, some (.sendLock k))

/-- `ktli_receive`: a draining session is searched by `ktli_drain_match`. -/
def receiveBegin (s : Session) (k : KioId) : Option Call :=
  match s.state with
  | .connected => some (.receiveLock k)
  | .draining => some (.matchCheck k)
  | _ => none

/-- `ktli_receive_unsolicited` -/
def unsolicitedBegin (s : Session) : Option Call :=
  if s.state = .connected ∨ s.state = .draining then some .unsolicitedLock else none

/-- The order in which a draining session is searched. -/
def drainOrder : List QId := [.compq, .recvq, .sendq]

/-- `ktli_drain` -/
def drainBegin (s : Session) : Option Call :=
  if s.state = .draining then some (.drainLock drainOrder) else none

/-- `ktli_drain_match` -/
def matchCheck (s : Session) (k : KioId) : Option Call :=
  if s.state = .draining then some (.matchLock k drainOrder 0 (-1)) else none

/-- `ktli_connect`, with what the driver's connect returned. -/
def connectBegin (s : Session) (rc : ℤ) : Option Call :=
  if s.state ≠ .opened ∨ rc = -1 then none else some .connected

/-- `ktli_disconnect`, with what the driver's disconnect returned. -/
def disconnectBegin (s : Session) (rc : ℤ) : Option Call :=
  if s.state ≠ .connected ∧ s.state ≠ .aborted then none
  else if rc = -1 then none
  else some .disconnected

/-! ### The sections -/

/-- A kio goes back to a caller, changed by `f`. -/
def handBack (s : Session) (k : KioId) (f : Kio → Kio) : Session :=
  { s.setKio k f with returned := k :: s.returned }

/-- `ktli_send` under the mutex of sendq; `mem` is whether the list element could be allocated. -/
def sendLock (s : Session) (k : KioId) (mem : Bool) : ℤ × Session :=
  if mem then (0, ((s.link .sendq k).setKio k fun x => { x with state := .new }).accept k)
  else (-1, handBack (s.mvrear .sendq) k id)

/-- What `ktli_receive` leaves on a kio. -/
def Kio.receive (x : Kio) : Kio :=
  { x with
    qbp := none
    errno := match x.state with
      | .timedout => ETIMEDOUT
      | .failed => ENOMSG
      | _ => x.errno }

/-- `ktli_receive` under the mutex of compq. -/
def receiveLock (lib : ListLib KioId) (s : Session) (k : KioId) : Option (ℤ × Session) :=
  let x := s.kio k
  if x.state = .received ∨ x.state = .timedout ∨ x.state = .failed then
    match (s.queue .compq).setcurr x.qbp with
    | (false, _) => none
    | (true, l) =>
      match l.removeCurr lib with
      | (none, _) => none
      | (some j, l) =>
        if k = j then some (0, (handBack (s.setQueue .compq l) k Kio.receive).mvrear .compq) else none
  else some (-1, s.mvrear .compq)

/-- `ktli_receive_unsolicited` under the mutex of compq. -/
def unsolicitedLock (lib : ListLib KioId) (s : Session) : Option (ℤ × Session) :=
  let (rc, l) := (s.queue .compq).traverse lib 0 fun j => kionoreq (s.kio j)
  if rc = lib.listExtent ∨ rc = lib.listEmpty then
    some (-1, (s.setQueue .compq l).mvrear .compq)
  else
    match l.removeCurr lib with
    | (none, _) => none
    | (some k, l) =>
      some (0, (handBack (s.setQueue .compq l) k fun x => { x with qbp := none }).mvrear .compq)

/-- What draining leaves on a kio. -/
def Kio.drain (x : Kio) : Kio := { x with qbp := none, state := .failed }

/-- `ktli_drain` under the mutex of one queue. -/
def drainLock (lib : ListLib KioId) (s : Session) (q : QId) (todo : List QId) :
    Session × Option Call :=
  match (s.queue q).removeFront lib with
  | (none, _) => (s, some (.drainLock todo))
  | (some k, l) => (handBack (s.setQueue q l) k Kio.drain, none)

/-- `ktli_drain_match` under the mutex of one queue. -/
def matchLock (lib : ListLib KioId) (s : Session) (k : KioId) (q : QId) (todo : List QId)
    (tqlen : ℕ) : Option (Session × Option Call) :=
  let (rc, l) := (s.queue q).traverse lib 0 fun j => k == j
  let next (rc : ℤ) (s : Session) : Session × Option Call :=
    (s.mvrear q, some (.matchLock k todo ((tqlen + (s.queue q).size) % 2 ^ 32) rc))
  if rc ≠ lib.listExtent ∧ rc ≠ lib.listEmpty then
    match l.removeCurr lib with
    | (none, _) => none
    | (some j, l) => if k = j then some (next 0 (handBack (s.setQueue q l) k Kio.drain)) else none
  else some (next rc (s.setQueue q l))

/-- The mutex that a section takes before it does anything. -/
def Call.mutex : Call → Option QId
  | .sendLock _ => some .sendq
  | .receiveLock _ | .unsolicitedLock => some .compq
  | .drainLock todo | .matchLock _ todo _ _ => todo.head?
  | .matchCheck _ | .connected | .disconnected => none

/-- **A section of a call**, and the section the call goes on to. -/
def callStep (lib : ListLib KioId) (s : Session) (mem : Bool) :
    Call → Option (Session × Option Call)
  | .sendLock k => some ((sendLock s k mem).2, none)
  | .receiveLock k => (receiveLock lib s k).map fun r => (r.2, none)
  | .unsolicitedLock => (unsolicitedLock lib s).map fun r => (r.2, none)
  | .drainLock [] => some ({ s with state := .opened }, none)
  | .drainLock (q :: todo) => some (drainLock lib s q todo)
  | .matchCheck k => some (s, matchCheck s k)
  | .matchLock _ [] tqlen _ => some (if tqlen = 0 then { s with state := .opened } else s, none)
  | .matchLock k (q :: todo) tqlen _ => matchLock lib s k q todo tqlen
  | .connected => some ({ s with state := .connected }, none)
  | .disconnected => some ({ s with state := .draining }, none)

/-! ### What the sections do -/

section Cases
variable {lib : ListLib KioId} {s s' : Session} {q : QId} {k : KioId} {rc : ℤ}

theorem receiveLock_cases (h : receiveLock lib s k = some (rc, s')) :
    (rc = 0 ∧ ∃ i n l, (s.queue .compq).items[i]? = some (n, k) ∧
      l.items = (s.queue .compq).items.eraseIdx i ∧
      s' = (handBack (s.setQueue .compq l) k Kio.receive).mvrear .compq) ∨
    (rc = -1 ∧ s' = s.mvrear .compq) := by
  unfold receiveLock at h
  dsimp only at h
  split_ifs at h with hst
  · left
    rcases hset : (s.queue .compq).setcurr (s.kio k).qbp with ⟨b, l⟩
    rw [hset] at h
    cases b with
    | false => cases h
    | true =>
      dsimp only at h
      rcases hrem : l.removeCurr lib with ⟨_ | j, l'⟩
      · rw [hrem] at h; cases h
      · rw [hrem] at h
        dsimp only at h
        split_ifs at h with hkj
        subst hkj
        obtain ⟨rfl, rfl⟩ := Prod.mk.inj (Option.some.inj h)
        have hli : l.items = (s.queue .compq).items := by
          rw [← CList.setcurr_snd_items (s.queue .compq) (s.kio k).qbp, hset]
        obtain ⟨i, n, -, hi, hl⟩ := CList.removeCurr_some hrem
        exact ⟨rfl, i, n, l', hli ▸ hi, hli ▸ hl, rfl⟩
  · obtain ⟨rfl, rfl⟩ := Prod.mk.inj (Option.some.inj h)
    exact Or.inr ⟨rfl, rfl⟩

theorem unsolicitedLock_cases (h : unsolicitedLock lib s = some (rc, s')) :
    (rc = 0 ∧ ∃ i n j l, kionoreq (s.kio j) ∧ (s.queue .compq).items[i]? = some (n, j) ∧
      l.items = (s.queue .compq).items.eraseIdx i ∧
      s' = (handBack (s.setQueue .compq l) j fun x => { x with qbp := none }).mvrear .compq) ∨
    (rc = -1 ∧ ∃ l, l.items = (s.queue .compq).items ∧
      s' = (s.setQueue .compq l).mvrear .compq) := by
  unfold unsolicitedLock at h
  rcases ht : (s.queue .compq).traverse lib 0 fun j => kionoreq (s.kio j) with ⟨rc', l⟩
  rw [ht] at h
  dsimp only at h
  split_ifs at h with hc
  · obtain ⟨rfl, rfl⟩ := Prod.mk.inj (Option.some.inj h)
    exact Or.inr ⟨rfl, l, CList.items_of_traverse ht, rfl⟩
  · rw [not_or] at hc
    rcases hrem : l.removeCurr lib with ⟨o, l'⟩
    obtain ⟨i, n, j, rfl, hhit, hi, hl⟩ := CList.removeCurr_of_traverse ht hc.1 hc.2 hrem
    rw [hrem] at h
    obtain ⟨rfl, rfl⟩ := Prod.mk.inj (Option.some.inj h)
    exact Or.inl ⟨rfl, i, n, j, l', hhit, hi, hl, rfl⟩

/-- The section on one queue of `ktli_drain_match` goes on to the next queue, with what it has left
on this one added to the sum. -/
theorem matchLock_cases {todo : List QId} {tqlen : ℕ} {c : Option Call}
    (h : matchLock lib s k q todo tqlen = some (s', c)) :
    ∃ s1 rc, s' = s1.mvrear q ∧
      c = some (.matchLock k todo ((tqlen + (s1.queue q).size) % 2 ^ 32) rc) ∧
      ((∃ i n l, (s.queue q).items[i]? = some (n, k) ∧
          l.items = (s.queue q).items.eraseIdx i ∧
          s1 = handBack (s.setQueue q l) k Kio.drain) ∨
        ∃ l, l.items = (s.queue q).items ∧ s1 = s.setQueue q l) := by
  unfold matchLock at h
  rcases ht : (s.queue q).traverse lib 0 (fun j => k == j) with ⟨rc', l⟩
  rw [ht] at h
  dsimp only at h
  split_ifs at h with hc
  · rcases hrem : l.removeCurr lib with ⟨o, l'⟩
    obtain ⟨i, n, j, rfl, -, hi, hl⟩ := CList.removeCurr_of_traverse ht hc.1 hc.2 hrem
    rw [hrem] at h
    dsimp only at h
    split_ifs at h with hkj
    subst hkj
    obtain ⟨rfl, rfl⟩ := Prod.mk.inj (Option.some.inj h)
    exact ⟨_, _, rfl, rfl, Or.inl ⟨i, n, l', hi, hl, rfl⟩⟩
  · obtain ⟨rfl, rfl⟩ := Prod.mk.inj (Option.some.inj h)
    exact ⟨_, _, rfl, rfl, Or.inr ⟨l, CList.items_of_traverse ht, rfl⟩⟩

end Cases

/-- What is left on a kio that is handed back. -/
structure HandBackField (f : Kio → Kio) : Prop where
  flags : ∀ x, (f x).flags = x.flags
  qbp : ∀ x, (f x).qbp = none
  timeout : ∀ x, (f x).timeout = x.timeout
  state : ∀ x, (f x).state = x.state ∨ (f x).state = .failed

/-- **The sections of the calls**, but for the one of `ktli_send`: at most one element of one queue
is taken off, a kio of `P`, and handed back; otherwise only cursors and the session's state change. -/
inductive HandsBack (P : KioId → Prop) (s : Session) : Session → Prop
  | refl : HandsBack P s s
  | back (q : QId) (i n : ℕ) (k : KioId) (l : CList KioId) (f : Kio → Kio)
      (hi : (s.queue q).items[i]? = some (n, k)) (hl : l.items = (s.queue q).items.eraseIdx i)
      (hk : P k) (hf : HandBackField f) : HandsBack P s (handBack (s.setQueue q l) k f)
  | cursor {s' : Session} (q : QId) (l : CList KioId) (hl : l.items = (s'.queue q).items)
      (h : HandsBack P s s') : HandsBack P s (s'.setQueue q l)
  | state {s' : Session} (st : SState) (h : HandsBack P s s') :
      HandsBack P s { s' with state := st }

section HandsBack
variable {P : KioId → Prop} {lib : ListLib KioId} {s s' : Session} {q : QId} {k : KioId} {rc : ℤ}

theorem HandsBack.mvrear (h : HandsBack P s s') : HandsBack P s (s'.mvrear q) :=
  .cursor q _ (CList.items_mvrear _) h

theorem handBackField_receive : HandBackField Kio.receive :=
  ⟨fun _ => rfl, fun _ => rfl, fun _ => rfl, fun _ => Or.inl rfl⟩

theorem handBackField_drain : HandBackField Kio.drain :=
  ⟨fun _ => rfl, fun _ => rfl, fun _ => rfl, fun _ => Or.inr rfl⟩

theorem handBackField_qbp : HandBackField fun x => { x with qbp := none } :=
  ⟨fun _ => rfl, fun _ => rfl, fun _ => rfl, fun _ => Or.inl rfl⟩

theorem receiveLock_handsBack (h : receiveLock lib s k = some (rc, s')) (hk : P k) :
    HandsBack P s s' := by
  obtain ⟨-, i, n, l, hi, hl, rfl⟩ | ⟨-, rfl⟩ := receiveLock_cases h
  · exact .mvrear (.back .compq i n k l _ hi hl hk handBackField_receive)
  · exact .mvrear .refl

theorem unsolicitedLock_handsBack (h : unsolicitedLock lib s = some (rc, s'))
    (hP : ∀ j, kionoreq (s.kio j) → P j) : HandsBack P s s' := by
  obtain ⟨-, i, n, j, l, hhit, hi, hl, rfl⟩ | ⟨-, l, hl, rfl⟩ := unsolicitedLock_cases h
  · exact .mvrear (.back .compq i n j l _ hi hl (hP j hhit) handBackField_qbp)
  · exact .mvrear (.cursor .compq l hl .refl)

theorem drainLock_handsBack (todo : List QId) (hP : ∀ j, (s.queue q).data.head? = some j → P j) :
    HandsBack P s (drainLock lib s q todo).1 := by
  unfold drainLock
  rcases hrem : (s.queue q).removeFront lib with ⟨_ | j, l⟩
  · exact .refl
  · obtain ⟨n, hn⟩ := CList.removeFront_some hrem
    exact .back q 0 n j l _ (by rw [hn]; rfl) (by rw [hn]; rfl) (hP j (by simp [CList.data, hn]))
      handBackField_drain

theorem matchLock_handsBack {todo : List QId} {tqlen : ℕ} {c : Option Call}
    (h : matchLock lib s k q todo tqlen = some (s', c)) (hk : P k) : HandsBack P s s' := by
  obtain ⟨s1, rc, rfl, -, ⟨i, n, l, hi, hl, rfl⟩ | ⟨l, hl, rfl⟩⟩ := matchLock_cases h
  · exact .mvrear (.back q i n k l _ hi hl hk handBackField_drain)
  · exact .mvrear (.cursor q l hl .refl)

/-- The kios that a section of a call is there to remove. -/
def Call.actsFor (s : Session) : Call → KioId → Prop
  | .receiveLock k, j | .matchLock k _ _ _, j => j = k
  | .unsolicitedLock, j => kionoreq (s.kio j)
  | .drainLock (q :: _), j => (s.queue q).data.head? = some j
  | _, _ => False

/-- A kio that `ktli_send` is still to queue. -/
def Call.kio : Call → Option KioId
  | .sendLock k => some k
  | _ => none

/-- **Every section of a call** but the one of `ktli_send`. -/
theorem callStep_handsBack {c : Call} {mem : Bool} {r : Session × Option Call}
    (h : callStep lib s mem c = some r) (hc : c.kio = none) : HandsBack (c.actsFor s) s r.1 := by
  cases c with
  | sendLock k => cases hc
  | receiveLock k =>
    obtain ⟨⟨rc, s1⟩, h1, rfl⟩ := Option.map_eq_some_iff.mp h
    exact receiveLock_handsBack h1 rfl
  | unsolicitedLock =>
    obtain ⟨⟨rc, s1⟩, h1, rfl⟩ := Option.map_eq_some_iff.mp h
    exact unsolicitedLock_handsBack h1 fun _ hj => hj
  | drainLock todo =>
    cases todo with
    | nil =>
      obtain rfl := Option.some.inj h
      exact .state _ .refl
    | cons q todo =>
      obtain rfl := Option.some.inj h
      exact drainLock_handsBack todo fun _ hj => hj
  | matchCheck k =>
    obtain rfl := Option.some.inj h
    exact .refl
  | connected | disconnected =>
    obtain rfl := Option.some.inj h
    exact .state _ .refl
  | matchLock k todo tqlen rc =>
    cases todo with
    | nil =>
      obtain rfl := Option.some.inj h
      dsimp only
      split_ifs
      · exact .state _ .refl
      · exact .refl
    | cons q todo => exact matchLock_handsBack h rfl

/-- The calls a section goes on to have no kio to queue. -/
theorem callStep_kio {c : Call} {mem : Bool} {r : Session × Option Call}
    (h : callStep lib s mem c = some r) : ∀ c' ∈ r.2, c'.kio = none := by
  intro c' hc'
  cases c with
  | sendLock k | connected | disconnected =>
    obtain rfl := Option.some.inj h
    cases hc'
  | receiveLock k | unsolicitedLock =>
    obtain ⟨r1, -, rfl⟩ := Option.map_eq_some_iff.mp h
    cases hc'
  | drainLock todo =>
    cases todo with
    | nil =>
      obtain rfl := Option.some.inj h
      cases hc'
    | cons q todo =>
      obtain rfl := Option.some.inj h
      unfold drainLock at hc'
      split at hc'
      · cases hc'; rfl
      · cases hc'
  | matchCheck k =>
    obtain rfl := Option.some.inj h
    unfold matchCheck at hc'
    dsimp only at hc'
    split_ifs at hc'
    · cases hc'; rfl
    · cases hc'
  | matchLock k todo tqlen rc =>
    cases todo with
    | nil =>
      obtain rfl := Option.some.inj h
      cases hc'
    | cons q todo =>
      have h1 : matchLock lib s k q todo tqlen = some (r.1, r.2) := h
      obtain ⟨s1, rc', -, hnext, -⟩ := matchLock_cases h1
      rw [hnext] at hc'
      cases hc'; rfl

/-- The kio that a section of a drain takes off its queue. -/
def Call.drained (s : Session) : Call → Option KioId
  | .drainLock (q :: _) => (s.queue q).data.head?
  | .matchLock k (q :: _) _ _ => if k ∈ (s.queue q).data then some k else none
  | _ => none

/-- What a section may leave on a kio; `D` is that it drains it. -/
inductive Leaves (D : Prop) (x : Kio) : Kio → Prop
  | same : Leaves D x x
  | receive : Leaves D x x.receive
  | qbp : Leaves D x { x with qbp := none }
  | drain (h : D) : Leaves D x x.drain

theorem Leaves.mono {D D' : Prop} {x y : Kio} (h : Leaves D x y) (hD : D → D') :
    Leaves D' x y := by
  cases h with
  | same => exact .same
  | receive => exact .receive
  | qbp => exact .qbp
  | drain h => exact .drain (hD h)

theorem leaves_handBack {D : Prop} {f : Kio → Kio} {l : CList KioId} {j : KioId}
    (h : j = k → Leaves D (s.kio j) (f (s.kio j))) :
    Leaves D (s.kio j) ((handBack (s.setQueue q l) k f).kio j) := by
  show Leaves D (s.kio j) (((s.setQueue q l).setKio k f).kio j)
  rw [kio_setKio]
  split_ifs with hjk
  · subst hjk
    exact h rfl
  · exact .same

/-- What a section on one queue does to the kios and to the session's state. -/
structure Touches (D : KioId → Prop) (s s' : Session) : Prop where
  kio : ∀ j, Leaves (D j) (s.kio j) (s'.kio j)
  state : s'.state = s.state

theorem receiveLock_touches {D : KioId → Prop} (h : receiveLock lib s k = some (rc, s')) :
    Touches D s s' := by
  obtain ⟨-, i, n, l, -, -, rfl⟩ | ⟨-, rfl⟩ := receiveLock_cases h
  · refine ⟨fun j => ?_, rfl⟩
    rw [kio_mvrear]
    exact leaves_handBack fun _ => .receive
  · exact ⟨fun _ => .same, rfl⟩

theorem unsolicitedLock_touches {D : KioId → Prop} (h : unsolicitedLock lib s = some (rc, s')) :
    Touches D s s' := by
  obtain ⟨-, i, n, k, l, -, -, -, rfl⟩ | ⟨-, l, -, rfl⟩ := unsolicitedLock_cases h
  · refine ⟨fun j => ?_, rfl⟩
    rw [kio_mvrear]
    exact leaves_handBack fun _ => .qbp
  · exact ⟨fun _ => .same, rfl⟩

theorem drainLock_touches (todo : List QId) :
    Touches (fun j => (s.queue q).data.head? = some j) s (drainLock lib s q todo).1 := by
  unfold drainLock
  rcases hrem : (s.queue q).removeFront lib with ⟨_ | i, l⟩
  · exact ⟨fun _ => .same, rfl⟩
  · obtain ⟨n, hn⟩ := CList.removeFront_some hrem
    exact ⟨fun j => leaves_handBack fun hj => .drain (by simp [CList.data, hn, hj]), rfl⟩

theorem matchLock_touches {todo : List QId} {tqlen : ℕ} {c : Option Call}
    (h : matchLock lib s k q todo tqlen = some (s', c)) :
    Touches (fun j => j = k ∧ k ∈ (s.queue q).data) s s' := by
  obtain ⟨s1, rc, rfl, -, ⟨i, n, l, hi, -, rfl⟩ | ⟨l, -, rfl⟩⟩ := matchLock_cases h
  · have hk : k ∈ (s.queue q).data :=
      List.mem_map_of_mem (f := Prod.snd) (List.mem_of_getElem? hi)
    refine ⟨fun j => ?_, rfl⟩
    rw [kio_mvrear]
    exact leaves_handBack fun hj => .drain ⟨hj, hk⟩
  · exact ⟨fun _ => .same, rfl⟩

/-- The state that a section sets. -/
def Call.sets : Call → Option SState
  | .drainLock [] => some .opened
  | .matchLock _ [] tqlen _ => if tqlen = 0 then some .opened else none
  | .connected => some .connected
  | .disconnected => some .draining
  | _ => none

/-- **What every section of a call does** to the kios and to the state, but the one of
`ktli_send`. -/
theorem callStep_leaves {c : Call} {mem : Bool} {r : Session × Option Call}
    (h : callStep lib s mem c = some r) (hc : c.kio = none) :
    (∀ j, Leaves (c.drained s = some j) (s.kio j) (r.1.kio j)) ∧
      r.1.state = c.sets.getD s.state := by
  cases c with
  | sendLock k => cases hc
  | receiveLock k =>
    obtain ⟨⟨rc, s1⟩, h1, rfl⟩ := Option.map_eq_some_iff.mp h
    have h2 := receiveLock_touches (D := fun j => Call.drained s (.receiveLock k) = some j) h1
    exact ⟨h2.kio, h2.state⟩
  | unsolicitedLock =>
    obtain ⟨⟨rc, s1⟩, h1, rfl⟩ := Option.map_eq_some_iff.mp h
    have h2 := unsolicitedLock_touches (D := fun j => Call.drained s .unsolicitedLock = some j) h1
    exact ⟨h2.kio, h2.state⟩
  | drainLock todo =>
    cases todo with
    | nil =>
      obtain rfl := Option.some.inj h
      exact ⟨fun _ => .same, rfl⟩
    | cons q todo =>
      obtain rfl := Option.some.inj h
      have h2 := @drainLock_touches lib s q todo
      exact ⟨h2.kio, h2.state⟩
  | matchCheck k | connected | disconnected =>
    obtain rfl := Option.some.inj h
    exact ⟨fun _ => .same, rfl⟩
  | matchLock k todo tqlen rc =>
    cases todo with
    | nil =>
      obtain rfl := Option.some.inj h
      unfold Call.sets
      dsimp only
      split_ifs <;> exact ⟨fun _ => .same, rfl⟩
    | cons q todo =>
      have h2 := matchLock_touches h
      refine ⟨fun j => (h2.kio j).mono ?_, h2.state⟩
      rintro ⟨rfl, hk⟩
      exact if_pos hk

theorem HandsBack.sequence (h : HandsBack P s s') : s'.sequence = s.sequence := by
  induction h with
  | refl | back => rfl
  | cursor _ _ _ _ ih | state _ _ ih => exact ih

end HandsBack

end Libkinetic.Ktli
