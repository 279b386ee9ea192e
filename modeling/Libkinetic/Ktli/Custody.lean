import Libkinetic.Ktli.Shifts

/-! # The custody of kios in every run

In a run in which every failed request is still on recvq when the sender pops it off, and every
match section is one of those that are right, a kio that was accepted and not handed back is in
exactly one place, and a kio leaves a queue only in a section that acts for it (`custody_of_reach`).
Without the first condition the sender takes another kio off recvq (`sender_loses_kio`). -/

namespace Libkinetic.Ktli

open Libkinetic.Base.CursorList Libkinetic.Base.Custody Libkinetic.Base.Runs

/-! ### The property -/

def System.view (s : System) : View := s.toSession.view (hands s.calls s.sender s.receiver)

/-- What is in a place. -/
def System.held (s : System) (p : Place) : Multiset KioId := s.view.held p

/-- **Custody**: an accepted kio that was not handed back is in one place, which is not its caller's
hand, and no place holds a kio twice. -/
structure Custody (s : System) : Prop where
  one_place : ∀ k ∈ s.accepted, k ∉ s.returned →
    (∃! p, k ∈ s.held p) ∧ k ∉ s.held (.hand .caller)
  once : ∀ p k, (s.held p).count k ≤ 1

/-- The kios that a step is there to remove from a queue: the one that is received, drained, popped
off or answered, those that have expired, the front of the queue that is drained or sent. -/
def Act.actsFor (s : System) : Act → KioId → Prop
  | .call c _ => c.actsFor s.toSession
  | .sender _ _ => s.sender.actsFor s.toSession
  | .receiver _ => s.receiver.actsFor s.toSession
  | _ => fun _ => False

/-- The kios that leave a queue are those the step acts for. -/
def RemovesOwn (s : System) (a : Act) (s' : System) : Prop :=
  ∀ q, ∀ k ∈ (s.queue q).data, k ∉ (s'.queue q).data → a.actsFor s k

/-- **The condition**: a failed request is still on recvq when the sender pops it off, and the match
section is right. -/
def Sane (lib : ListLib KioId) (s : System) : Act → Prop
  | .sender _ _ =>
    match s.sender with
    | .marked k rc => rc < 0 → s.reqonly k = false → k ∈ (s.queue .recvq).data
    | _ => True
  | .receiver _ =>
    match s.receiver with
    | .matching rc aseq _ => MatchOk lib s.toSession rc aseq
    | _ => True
  | _ => True

instance (lib : ListLib KioId) (s : System) : ∀ a, Decidable (Sane lib s a)
  | .sender _ _ => by unfold Sane; dsimp only; split <;> infer_instance
  | .receiver _ => by unfold Sane; dsimp only; split <;> infer_instance
  | .send _ _ _ | .receive _ | .receiveUnsolicited | .drain | .drainMatch _ | .connect _
  | .disconnect _ | .call _ _ | .tick _ => isTrue trivial

/-- The kio that was sent, and what the driver's send returned. -/
def SenderPc.popping : SenderPc → Option (KioId × ℤ)
  | .marked k rc => some (k, rc)
  | _ => none

/-- The first half of the condition. -/
def PopOk (s : System) : Act → Prop
  | .sender _ _ => ∀ p ∈ s.sender.popping, p.2 < 0 → s.reqonly p.1 = false →
      p.1 ∈ (s.queue .recvq).data
  | _ => True

instance (s : System) : ∀ a, Decidable (PopOk s a)
  | .sender _ _ => inferInstanceAs (Decidable (∀ p ∈ s.sender.popping, _))
  | .send _ _ _ | .receive _ | .receiveUnsolicited | .drain | .drainMatch _ | .connect _
  | .disconnect _ | .call _ _ | .receiver _ | .tick _ => isTrue trivial

theorem Sane.popOk {lib : ListLib KioId} {s : System} {a : Act} (h : Sane lib s a) : PopOk s a := by
  cases a with
  | sender rc err =>
    intro p hp
    cases hpc : s.sender with
    | marked k rc' =>
      rw [hpc] at hp
      obtain rfl := Option.some.inj hp
      simp only [Sane, hpc] at h
      exact h
    | _ => rw [hpc] at hp; cases hp
  | _ => exact trivial

/-! ### The invariant -/

/-- Nothing lost, nothing twice, and the sender works on a kio that was issued. -/
structure Kept (s : System) : Prop where
  sound : s.view.Sound
  working : ∀ k ∈ s.sender.kio, k ∈ s.issued

section Calls
variable {s : Session} {calls calls' : List Call} {pc : SenderPc} {rpc : ReceiverPc} {k : KioId}

theorem view_calls (h : (calls.filterMap Call.kio).Perm (calls'.filterMap Call.kio)) :
    s.view (hands calls pc rpc) = s.view (hands calls' pc rpc) := by
  refine View.ext rfl rfl rfl (funext fun g => ?_) rfl rfl rfl
  cases g
  · exact Multiset.coe_eq_coe.mpr h
  · rfl
  · rfl

/-- A call with a kio to queue. -/
theorem view_calls_give (h : (calls.filterMap Call.kio).Perm (k :: calls'.filterMap Call.kio)) :
    s.view (hands calls pc rpc) = (s.view (hands calls' pc rpc)).give .caller k := by
  refine View.ext rfl rfl rfl (funext fun g => ?_) rfl rfl rfl
  cases g
  · exact Multiset.coe_eq_coe.mpr h
  · rfl
  · rfl

theorem filterMap_push {c : Option Call} (h : ∀ c' ∈ c, c'.kio = none) :
    (c.toList ++ calls).filterMap Call.kio = calls.filterMap Call.kio := by
  cases c with
  | none => rfl
  | some c => simp [h c rfl]

theorem filterMap_erase {c : Call} (h : c ∈ calls) :
    (calls.filterMap Call.kio).Perm ((c :: calls.erase c).filterMap Call.kio) :=
  (List.perm_cons_erase h).filterMap _

end Calls

section Step
variable {lib : ListLib KioId} {s s' : System} {P : KioId → Prop}

/-- A call that goes on without a kio to queue. -/
theorem view_push {r : Session × Option Call} (h : ∀ c ∈ r.2, c.kio = none) :
    (s.push r).view = r.1.view (hands s.calls s.sender s.receiver) :=
  view_calls (List.Perm.of_eq (filterMap_push h))

/-- A call that begins without a kio to queue. -/
theorem begin_shifts {c : Option Call} (h : ∀ c' ∈ c, c'.kio = none) :
    Shifts P s.view (s.push (s.toSession, c)).view := by
  rw [view_push h]
  exact .refl

theorem issue_shift (hs : Kept s) {k : KioId} {x : Kio} (hx : x.qbp = none) (hk : k ∉ s.issued) :
    Shift P s.view (s.push (s.issue k x, some (.sendLock k))).view := by
  show Shift P s.view ((s.issue k x).view (hands (.sendLock k :: s.calls) s.sender s.receiver))
  rw [view_calls_give (k := k) (List.Perm.refl _), view_issue hx (hands_issue hs.working hk)]
  exact .enter .caller k hk

theorem send_shifts (hs : Kept s) {k : KioId} {flags : ℕ} {msg : KioMsg}
    (h : step lib s (.send k flags msg) = some s') : Shifts P s.view s'.view := by
  obtain ⟨r, hr, rfl⟩ := Option.map_eq_some_iff.mp h
  unfold sendBegin at hr
  split_ifs at hr with h1
  · obtain rfl := Option.some.inj hr
    exact begin_shifts (by simp)
  · obtain rfl := Option.some.inj hr
    exact begin_shifts (by simp)
  · obtain rfl := Option.some.inj hr
    exact .single (issue_shift hs rfl h1)

theorem call_shifts {c : Call} {mem : Bool} (h : step lib s (.call c mem) = some s') :
    Shifts (c.actsFor s.toSession) s.view s'.view := by
  simp only [step] at h
  split_ifs at h with hc
  obtain ⟨r, hr, rfl⟩ := Option.map_eq_some_iff.mp h
  have hperm := filterMap_erase hc.1
  rw [view_push (callStep_kio hr)]
  cases hk : c.kio with
  | none =>
    have hview : s.view = s.toSession.view (hands (s.calls.erase c) s.sender s.receiver) := by
      refine view_calls ?_
      rwa [List.filterMap_cons_none hk] at hperm
    rw [hview]
    exact (callStep_handsBack hr hk).shifts
  | some k =>
    have hview : s.view =
        (s.toSession.view (hands (s.calls.erase c) s.sender s.receiver)).give .caller k := by
      refine view_calls_give ?_
      rwa [List.filterMap_cons_some hk] at hperm
    cases c with
    | sendLock j =>
      cases hk
      obtain rfl := Option.some.inj hr
      rw [hview]
      exact sendLock_shifts mem
    | _ => cases hk

/-- **Every step is a sequence of shifts**, if a failed request is still on recvq when the sender
pops it off. The kios removed from a queue are those the step acts for, if it is sane. -/
theorem step_shifts (hs : Kept s) {a : Act} (hpop : PopOk s a)
    (hok : (Sane lib s a ∧ ∀ j, a.actsFor s j → P j) ∨ ∀ j, P j) (h : step lib s a = some s') :
    Shifts P s.view s'.view := by
  have hP : ∀ j, a.actsFor s j → P j := hok.elim And.right fun hP j _ => hP j
  cases a with
  | send k flags msg => exact send_shifts hs h
  | receive | receiveUnsolicited | drain | drainMatch | connect | disconnect =>
    obtain ⟨c, rfl, hc⟩ := step_push h rfl
    exact begin_shifts fun c' h' => (hc c' h').kio
  | call c mem => exact (call_shifts h).mono hP
  | sender rc err =>
    obtain ⟨hcalls, hreceiver⟩ := calls_of_sender h
    unfold System.view
    rw [hcalls, hreceiver]
    refine (senderStep_shifts hs.sound (fun k rc hpc => ?_) (sender_step h)).mono hP
    exact hpop (k, rc) (by rw [hpc]; rfl)
  | receiver e =>
    obtain ⟨⟨s1, pc⟩, hr, rfl⟩ := Option.map_eq_some_iff.mp h
    refine receiverStep_shifts hs.working (hok.imp_left fun hok => ⟨?_, hok.2⟩) hr
    intro rc aseq msg hpc
    have h1 := hok.1
    simp only [Sane, hpc] at h1
    exact h1
  | tick ns =>
    obtain rfl := Option.some.inj h
    exact .refl

/-- The kio the sender goes on with was issued. -/
theorem step_working (hs : Kept s) {a : Act} (h : step lib s a = some s') :
    ∀ k ∈ s'.sender.kio, k ∈ s.issued := by
  intro k hk
  by_cases ha : ∃ rc err, a = .sender rc err
  · obtain ⟨rc, err, rfl⟩ := ha
    rcases senderStep_kio (sender_step h) hk with hj | hj
    · exact hs.working k hj
    · exact hs.sound.balanced.entered_of_held (p := .queue .sendq) hj
  · rw [sender_of_step h fun rc err he => ha ⟨rc, err, he⟩] at hk
    exact hs.working k hk

theorem kept_init (h : Init s) : Kept s := by
  obtain ⟨now, rfl⟩ := h
  have hempty : ∀ q, (System.view { now }).items q = [] := fun _ => rfl
  refine ⟨⟨?_, fun q => ?_, fun q p hp => ?_, fun q p hp => ?_, fun k hk => ?_⟩, fun k hk => ?_⟩
  · have hheld : (System.view { now }).held = fun _ => 0 := by
      funext p
      rcases p with ⟨_ | _ | _⟩ | q <;> rfl
    unfold View.ledger
    rw [hheld]
    exact balanced_empty
  · rw [hempty]
    exact List.nodup_nil
  · rw [hempty] at hp
    cases hp
  · rw [hempty] at hp
    cases hp
  · cases hk
  · cases hk

/-- **Every step keeps the custody**, if it pops off only what is there. -/
theorem kept_step (hs : Kept s) {a : Act} (hpop : PopOk s a) (h : step lib s a = some s') :
    Kept s' := by
  have hsh : Shifts (fun _ => True) s.view s'.view := step_shifts hs hpop (.inr fun _ => trivial) h
  exact ⟨hsh.sound hs.sound, fun k hk => hsh.issued_subset (step_working hs h k hk)⟩

end Step

/-! ### The runs -/

theorem Kept.custody {s : System} (hs : Kept s) : Custody s := by
  refine ⟨fun k hk hr => ?_, fun p k => hs.sound.balanced.count_le_one p k⟩
  obtain ⟨hi, hc⟩ := hs.sound.accepted k hk
  exact ⟨hs.sound.balanced.existsUnique hi hr, hc⟩

theorem Kept.removesOwn {lib : ListLib KioId} {s s' : System} (hs : Kept s) {a : Act}
    (hok : Sane lib s a) (h : step lib s a = some s') : RemovesOwn s a s' :=
  fun _ _ hk hk' => by
    have hsh := step_shifts hs hok.popOk (.inl ⟨hok, fun _ hj => hj⟩) h
    exact (hsh.removed hk).resolve_left hk'

theorem Kept.of_reach {lib : ListLib KioId} {s : System}
    (h : Reach (step lib) (Sane lib) Init s) : Kept s :=
  h.invariant (fun _ => kept_init) fun _ _ _ hs hok hstep => kept_step hs hok.popOk hstep

def oneBuffer : KioMsg := { kmMsg := some 1, kmCnt := 2 }

/-- A connected session, and the two requests 0 and 1 on sendq. -/
def twoRequests : List Act :=
  [.connect 0, .call .connected true, .send 0 1 oneBuffer, .call (.sendLock 0) true,
    .send 1 1 oneBuffer, .call (.sendLock 1) true]

/-- The sender's steps, up to the send, for the next request on sendq. -/
def upToSend : List Act := List.replicate 5 (.sender 0 0)

/-- The driver's send returns `rc`, and the sender deals with it. -/
def sendReturns (rc : ℤ) : List Act := [.sender rc 32, .sender 0 0, .sender 0 0]

/-- What the receiver's environment answers when a response to `aseq` comes in. -/
def responseEnv (aseq : ℤ) : ReceiverEnv :=
  { poll := 1, alloc := none, discRc := 0
    recv := { garbledEnv with aseq } }

def response (aseq : ℤ) : List Act := List.replicate 5 (.receiver (responseEnv aseq))

/-- Both requests are sent; the response to the second is in and the first still waits. -/
def goodTrace : List Act :=
  twoRequests ++ [.sender 0 0, .sender 0 0] ++ upToSend ++ sendReturns 10 ++ upToSend ++
    response 101 ++ sendReturns 10

/-- The second request is answered before the driver's send returns, with an error. -/
def lossTrace : List Act :=
  twoRequests ++ [.sender 0 0, .sender 0 0] ++ upToSend ++ sendReturns 10 ++ upToSend ++
    response 101 ++ sendReturns (-1) ++ [.sender 0 0]

end Libkinetic.Ktli
