import Libkinetic.Ktli.Locks
import Libkinetic.Ktli.Opened

/-! # What a close waits for

`ktli_close` tells the sender and the receiver to exit and joins them. The receiver waits for a
connection without a look at its exit flag, and takes none after a poll that failed. So a session
that was never connected is never closed (`close_waits_for_connect`), and one that was disconnected
and drained is closed just when some poll does not fail (`closes_iff_poll_succeeds`). -/

namespace Libkinetic.Ktli

open Libkinetic.Base.CursorList Libkinetic.Base.Runs

/-! ### The receiver is joined -/

/-- The section comes after the receiver was joined. -/
def Close.joinedReceiver : Close → Bool
  | .freeComp | .freeSlot => true
  | _ => false

/-- The section is one of `ktli_close`: no thread serves compq. -/
def Close.serves : Close → Bool
  | .exiting q | .joining q => q ≠ .compq
  | _ => true

/-- **The invariant**: what follows the join of the receiver waits for its exit. -/
structure Joined (l : Life) : Prop where
  serves : ∀ c ∈ l.closing, c.serves = true
  freed : l.freed .recvq = true → l.receiver = .exited
  past : ∀ c ∈ l.closing, c.joinedReceiver = true → l.receiver = .exited
  closed : l.closed = true → l.receiver = .exited

/-- The section that a call of `ktli_close` goes on to, if it goes on. -/
def Close.next : Close → Option Close
  | .sizes [] => some .driver
  | .sizes (_ :: todo) => some (.sizes todo)
  | .driver => some (.exiting .sendq)
  | .exiting q => some (.joining q)
  | .joining q => some (if q = .sendq then .exiting .recvq else .freeComp)
  | .freeComp => some .freeSlot
  | .freeSlot => none

theorem closeStep_next {l : Life} {rc : ℤ} {c : Close} {r : Life × Option Close}
    (h : closeStep l rc c = some r) : r.2 = none ∨ r.2 = c.next := by
  cases c with
  | sizes todo =>
    cases todo with
    | nil =>
      obtain rfl := Option.some.inj h
      exact Or.inr rfl
    | cons q todo =>
      simp only [closeStep] at h
      split_ifs at h
      · obtain rfl := Option.some.inj h
        exact Or.inr rfl
      · obtain rfl := Option.some.inj h
        exact Or.inl rfl
  | driver =>
    obtain rfl := Option.some.inj h
    dsimp only
    split_ifs
    · exact Or.inl rfl
    · exact Or.inr rfl
  | exiting q | freeComp =>
    simp only [closeStep] at h
    split_ifs at h
    obtain rfl := Option.some.inj h
    exact Or.inr rfl
  | joining q =>
    simp only [closeStep, Close.next] at h ⊢
    split_ifs at h ⊢ <;> obtain rfl := Option.some.inj h <;> exact Or.inr rfl
  | freeSlot =>
    obtain rfl := Option.some.inj h
    exact Or.inl rfl

/-- A join waits for its thread. -/
theorem closeStep_joined {l : Life} {rc : ℤ} {q : QId} {r : Life × Option Close}
    (h : closeStep l rc (.joining q) = some r) : l.joined q = true := by
  simp only [closeStep] at h
  split_ifs at h with h1
  · exact not_not.mp (not_or.mp h1).2
  · exact not_not.mp (not_or.mp h1).2

theorem Close.serves_next {c c' : Close} (hc : c.serves = true) (h : c.next = some c') :
    c'.serves = true := by
  cases c with
  | sizes todo => cases todo <;> obtain rfl := Option.some.inj h <;> rfl
  | driver | freeComp =>
    obtain rfl := Option.some.inj h
    rfl
  | exiting q =>
    obtain rfl := Option.some.inj h
    exact hc
  | joining q =>
    obtain rfl := Option.some.inj h
    cases q <;> rfl
  | freeSlot => cases h

/-- Only the join of the receiver, or what comes after it, leads past it. -/
theorem Close.joinedReceiver_next {c c' : Close} (hc : c.serves = true)
    (hpast : c.joinedReceiver = false) (hne : c ≠ .joining .recvq) (h : c.next = some c') :
    c'.joinedReceiver = false := by
  cases c with
  | sizes todo => cases todo <;> obtain rfl := Option.some.inj h <;> rfl
  | driver | exiting =>
    obtain rfl := Option.some.inj h
    rfl
  | joining q =>
    obtain rfl := Option.some.inj h
    cases q with
    | sendq => rfl
    | recvq => exact absurd rfl hne
    | compq => cases hc
  | freeComp | freeSlot => cases hpast

/-- **Before the receiver exits** a section does not get past its join. -/
theorem closeStep_waits {l : Life} {rc : ℤ} {c : Close} {r : Life × Option Close}
    (hpc : l.receiver ≠ .exited) (hc : c.serves = true) (hpast : c.joinedReceiver = false)
    (h : closeStep l rc c = some r) :
    c ≠ .joining .recvq ∧ r.1.freed .recvq = l.freed .recvq ∧ r.1.closed = l.closed ∧
      ∀ c' ∈ r.2, c'.joinedReceiver = false := by
  have hne : c ≠ .joining .recvq := by
    rintro rfl
    exact hpc (of_decide_eq_true (closeStep_joined h))
  refine ⟨hne, ?_, ?_, fun c' hc' => ?_⟩
  · rcases closeStep_cases h with hr | ⟨q, -, hr⟩ | ⟨q, rfl, hr⟩ | ⟨rfl, -⟩ | ⟨rfl, -⟩
    · rw [hr]
    · rw [hr]
      rfl
    · rw [hr]
      exact Function.update_of_ne (fun hq => hne (by rw [hq])) _ _
    · cases hpast
    · cases hpast
  · rcases closeStep_cases h with hr | ⟨q, -, hr⟩ | ⟨q, -, hr⟩ | ⟨rfl, -⟩ | ⟨rfl, -⟩
    · rw [hr]
    · rw [hr]
      rfl
    · rw [hr]
      rfl
    · cases hpast
    · cases hpast
  · rcases closeStep_next h with hr | hr
    · rw [hr] at hc'
      cases hc'
    · exact Close.joinedReceiver_next hc hpast hne (hr ▸ hc')

section Step
variable {lib : ListLib KioId} {l l' : Life} {a : LifeAct}

/-- The receiver does not come back. -/
theorem exited_of_lifeStep (hpc : l.receiver = .exited) (h : lifeStep lib l a = some l') :
    l'.receiver = .exited := by
  by_cases ha : ∃ e, a = .sys (.receiver e)
  · obtain ⟨e, rfl⟩ := ha
    obtain ⟨s, st, hs, -, -⟩ := lifeStep_sys h
    obtain ⟨r, hr, -⟩ := Option.map_eq_some_iff.mp hs
    rw [hpc] at hr
    cases hr
  · rw [receiver_of_lifeStep h fun e he => ha ⟨e, he⟩, hpc]

/-- **Before the receiver exits** no call of `ktli_close` gets past its join, and one that waits for
it goes on waiting. -/
theorem lifeStep_waits (hpc : l.receiver ≠ .exited) (hserves : ∀ c ∈ l.closing, c.serves = true)
    (hpast : ∀ c ∈ l.closing, c.joinedReceiver = false) (h : lifeStep lib l a = some l') :
    l'.freed .recvq = l.freed .recvq ∧ l'.closed = l.closed ∧
      (∀ c ∈ l'.closing, c.joinedReceiver = false) ∧
      (.joining .recvq ∈ l.closing → .joining .recvq ∈ l'.closing) := by
  cases a with
  | sys a =>
    obtain ⟨s, st, -, -, rfl⟩ := lifeStep_sys h
    exact ⟨rfl, rfl, hpast, id⟩
  | close =>
    obtain rfl := Option.some.inj h
    refine ⟨rfl, rfl, fun c hc => ?_, fun hj => List.mem_append_right _ hj⟩
    rcases List.mem_append.mp hc with hc | hc
    · unfold closeBegin at hc
      split_ifs at hc
      · obtain rfl := List.mem_singleton.mp hc
        rfl
      · cases hc
    · exact hpast c hc
  | closing c rc =>
    simp only [lifeStep] at h
    split_ifs at h with hc
    obtain ⟨r, hr, rfl⟩ := Option.map_eq_some_iff.mp h
    obtain ⟨hne, hfreed, hclosed, hnext⟩ := closeStep_waits hpc (hserves c hc) (hpast c hc) hr
    refine ⟨hfreed, hclosed, fun c' hc' => ?_, fun hj => List.mem_append_right _ ?_⟩
    · rcases List.mem_append.mp hc' with hc' | hc'
      · exact hnext c' (Option.mem_toList.mp hc')
      · exact hpast c' (List.mem_of_mem_erase hc')
    · exact (List.mem_erase_of_ne hne.symm).mpr hj

theorem serves_of_lifeStep (hserves : ∀ c ∈ l.closing, c.serves = true)
    (h : lifeStep lib l a = some l') : ∀ c ∈ l'.closing, c.serves = true := by
  intro c' hc'
  cases a with
  | sys a =>
    obtain ⟨s, st, -, -, rfl⟩ := lifeStep_sys h
    exact hserves c' hc'
  | close =>
    obtain rfl := Option.some.inj h
    rcases List.mem_append.mp hc' with hc' | hc'
    · unfold closeBegin at hc'
      split_ifs at hc'
      · obtain rfl := List.mem_singleton.mp hc'
        rfl
      · cases hc'
    · exact hserves c' hc'
  | closing c rc =>
    simp only [lifeStep] at h
    split_ifs at h with hc
    obtain ⟨r, hr, rfl⟩ := Option.map_eq_some_iff.mp h
    rcases List.mem_append.mp hc' with hc' | hc'
    · rcases closeStep_next hr with h1 | h1
      · rw [h1] at hc'
        cases hc'
      · exact Close.serves_next (hserves c hc) (h1 ▸ Option.mem_toList.mp hc')
    · exact hserves c' (List.mem_of_mem_erase hc')

theorem Joined.init (h : LifeInit l) : Joined l := by
  obtain ⟨s, ⟨now, rfl⟩, rfl⟩ := h
  exact ⟨fun c hc => (by cases hc), fun h => (by cases h), fun c hc => (by cases hc),
    fun h => (by cases h)⟩

/-- **Every step** keeps the invariant. -/
theorem Joined.step (hl : Joined l) (h : lifeStep lib l a = some l') : Joined l' := by
  have hserves := serves_of_lifeStep hl.serves h
  by_cases hpc : l.receiver = .exited
  · have hpc' : l'.receiver = .exited := exited_of_lifeStep hpc h
    exact ⟨hserves, fun _ => hpc', fun _ _ _ => hpc', fun _ => hpc'⟩
  · have hpast : ∀ c ∈ l.closing, c.joinedReceiver = false := fun c hc =>
      Bool.eq_false_iff.mpr fun hj => hpc (hl.past c hc hj)
    obtain ⟨hfreed, hclosed, hpast', -⟩ := lifeStep_waits hpc hl.serves hpast h
    refine ⟨hserves, fun hf => ?_, fun c hc hj => ?_, fun hcl => ?_⟩
    · exact absurd (hl.freed (hfreed ▸ hf)) hpc
    · rw [hpast' c hc] at hj
      cases hj
    · exact absurd (hl.closed (hclosed ▸ hcl)) hpc

end Step

/-! ### A session that is never connected -/

/-- The driver's connects fail. -/
def FailsToConnect (_ : Life) : LifeAct → Prop
  | .sys (.connect rc) => rc = -1
  | _ => True

instance (l : Life) : ∀ a, Decidable (FailsToConnect l a)
  | .sys (.connect rc) => inferInstanceAs (Decidable (rc = -1))
  | .sys (.send _ _ _) | .sys (.receive _) | .sys .receiveUnsolicited | .sys .drain
  | .sys (.drainMatch _) | .sys (.disconnect _) | .sys (.call _ _) | .sys (.sender _ _)
  | .sys (.receiver _) | .sys (.tick _) | .close | .closing _ _ => isTrue trivial

/-- **The invariant**: the receiver still waits for the connection. -/
structure Unconnected (s : System) : Prop where
  receiver : s.receiver = .waiting
  state : s.state ≠ .connected
  calls : .connected ∉ s.calls

section Unconnected
variable {lib : ListLib KioId} {l l' : Life} {s s' : System} {a : Act}

/-- No section goes on to the one that sets the state. -/
theorem callStep_connected {s : Session} {mem : Bool} {c : Call} {r : Session × Option Call}
    (h : callStep lib s mem c = some r) : r.2 ≠ some .connected := by
  cases c with
  | sendLock | connected | disconnected =>
    obtain rfl := Option.some.inj h
    exact fun h1 => by cases h1
  | receiveLock | unsolicitedLock =>
    obtain ⟨r', -, rfl⟩ := Option.map_eq_some_iff.mp h
    exact fun h1 => by cases h1
  | drainLock todo =>
    cases todo with
    | nil =>
      obtain rfl := Option.some.inj h
      exact fun h1 => by cases h1
    | cons q todo =>
      obtain rfl := Option.some.inj h
      unfold drainLock
      split <;> exact fun h1 => by cases h1
  | matchCheck k =>
    obtain rfl := Option.some.inj h
    unfold matchCheck
    dsimp only
    split_ifs <;> exact fun h1 => by cases h1
  | matchLock k todo tqlen rc =>
    cases todo with
    | nil =>
      obtain rfl := Option.some.inj h
      exact fun h1 => by cases h1
    | cons q todo =>
      obtain ⟨s1, rc', -, hnext, -⟩ := @matchLock_cases lib s r.1 q k todo tqlen r.2 h
      rw [hnext]
      exact fun h1 => by cases h1

/-- Only one section connects a session. -/
theorem callStep_state {s : Session} {mem : Bool} {c : Call} {r : Session × Option Call}
    (h : callStep lib s mem c = some r) (hc : c ≠ .connected) (hs : s.state ≠ .connected) :
    r.1.state ≠ .connected := by
  by_cases hck : c.kio = none
  · rw [(callStep_leaves h hck).2]
    cases hsets : c.sets with
    | none => exact hs
    | some st =>
      unfold Call.sets at hsets
      split at hsets
      · obtain rfl := Option.some.inj hsets
        exact SState.noConfusion
      · split_ifs at hsets
        obtain rfl := Option.some.inj hsets
        exact SState.noConfusion
      · exact absurd rfl hc
      · obtain rfl := Option.some.inj hsets
        exact SState.noConfusion
      · cases hsets
  · cases c with
    | sendLock k =>
      obtain rfl := Option.some.inj h
      cases mem with
      | true =>
        have hst : (s.link .sendq k).state = s.state := by rw [link_eq]; rfl
        exact hst.symm ▸ hs
      | false => exact hs
    | _ => exact absurd rfl hck

/-- A call begins with another section. -/
theorem Unconnected.push {c : Option Call} (hs : Unconnected s) (hc : c ≠ some .connected) :
    Unconnected (s.push (s.toSession, c)) := by
  refine ⟨hs.receiver, hs.state, fun hmem => ?_⟩
  rcases List.mem_append.mp hmem with hmem | hmem
  · exact hc (Option.mem_toList.mp hmem)
  · exact hs.calls hmem

/-- **Every step** of a session whose connects fail keeps the receiver waiting. -/
theorem Unconnected.step (hs : Unconnected s) (hok : ∀ rc, a = .connect rc → rc = -1)
    (h : step lib s a = some s') : Unconnected s' := by
  cases a with
  | send k flags msg =>
    obtain ⟨r, hr, rfl⟩ := Option.map_eq_some_iff.mp h
    unfold sendBegin at hr
    split_ifs at hr <;> obtain rfl := Option.some.inj hr
    · exact hs.push fun hc => by cases hc
    · exact hs.push fun hc => by cases hc
    · have h1 : Unconnected (s.push (s.toSession, some (.sendLock k))) :=
        hs.push fun hc => by cases hc
      exact ⟨h1.receiver, h1.state, h1.calls⟩
  | connect rc =>
    obtain rfl := hok rc rfl
    obtain rfl := Option.some.inj h
    refine hs.push fun hc => ?_
    rw [connectBegin, if_pos (Or.inr rfl)] at hc
    cases hc
  | receive k =>
    obtain rfl := Option.some.inj h
    refine hs.push fun hc => ?_
    unfold receiveBegin at hc
    split at hc <;> cases hc
  | receiveUnsolicited =>
    obtain rfl := Option.some.inj h
    refine hs.push fun hc => ?_
    unfold unsolicitedBegin at hc
    split_ifs at hc
    cases hc
  | drain =>
    obtain rfl := Option.some.inj h
    refine hs.push fun hc => ?_
    unfold drainBegin at hc
    split_ifs at hc
    cases hc
  | drainMatch k =>
    obtain rfl := Option.some.inj h
    exact hs.push fun hc => by cases hc
  | disconnect rc =>
    obtain rfl := Option.some.inj h
    refine hs.push fun hc => ?_
    unfold disconnectBegin at hc
    split_ifs at hc
    cases hc
  | call c mem =>
    simp only [Ktli.step] at h
    split_ifs at h with hc
    obtain ⟨r, hr, rfl⟩ := Option.map_eq_some_iff.mp h
    have hne : c ≠ .connected := fun he => hs.calls (he ▸ hc.1)
    refine ⟨hs.receiver, callStep_state hr hne hs.state, fun hmem => ?_⟩
    rcases List.mem_append.mp hmem with hmem | hmem
    · exact callStep_connected hr (Option.mem_toList.mp hmem)
    · exact hs.calls (List.mem_of_mem_erase hmem)
  | sender rc err =>
    obtain ⟨hcalls, hreceiver⟩ := calls_of_sender h
    have hst : s'.state = s.state := senderStep_state (sender_step h)
    exact ⟨hreceiver.trans hs.receiver, hst ▸ hs.state, hcalls ▸ hs.calls⟩
  | receiver e =>
    obtain ⟨r, hr, rfl⟩ := Option.map_eq_some_iff.mp h
    rw [hs.receiver] at hr
    obtain rfl := Option.some.inj hr
    exact ⟨if_neg hs.state, hs.state, hs.calls⟩
  | tick ns =>
    obtain rfl := Option.some.inj h
    exact ⟨hs.receiver, hs.state, hs.calls⟩

theorem Unconnected.life (hl : Unconnected l.toSystem) {b : LifeAct} (hok : FailsToConnect l b)
    (h : lifeStep lib l b = some l') : Unconnected l'.toSystem := by
  cases b with
  | sys a =>
    obtain ⟨s, st, hs, hst, rfl⟩ := lifeStep_sys h
    have h1 : Unconnected s := hl.step (fun rc ha => by subst ha; exact hok) hs
    refine ⟨h1.receiver, ?_, h1.calls⟩
    rcases hst with rfl | rfl
    · exact h1.state
    · exact SState.noConfusion
  | close =>
    obtain rfl := Option.some.inj h
    exact hl
  | closing c rc =>
    simp only [lifeStep] at h
    split_ifs at h
    obtain ⟨r, hr, rfl⟩ := Option.map_eq_some_iff.mp h
    dsimp only
    rcases closeStep_cases hr with h1 | ⟨q, -, h1⟩ | ⟨q, -, h1⟩ | ⟨-, h1⟩ | ⟨-, h1⟩ <;> rw [h1]
    · exact hl
    · exact ⟨hl.receiver, hl.state, hl.calls⟩
    · exact ⟨hl.receiver, hl.state, hl.calls⟩
    · exact ⟨hl.receiver, hl.state, hl.calls⟩
    · exact ⟨hl.receiver, SState.noConfusion, hl.calls⟩

theorem unconnected_of_reach (h : Reach (lifeStep lib) FailsToConnect LifeInit l) :
    Joined l ∧ Unconnected l.toSystem := by
  refine h.invariant (I := fun l => Joined l ∧ Unconnected l.toSystem) (fun l hl => ?_)
    fun l l' b hl hok hstep => ⟨hl.1.step hstep, hl.2.life hok hstep⟩
  refine ⟨.init hl, ?_⟩
  obtain ⟨s, ⟨now, rfl⟩, rfl⟩ := hl
  exact ⟨rfl, SState.noConfusion, fun hc => by cases hc⟩

/-- What waits for a receiver that has not exited goes on waiting. -/
theorem joining_of_leads {ok : Life → LifeAct → Prop} {I : Life → Prop}
    (hwait : ∀ l, I l → Joined l ∧ l.receiver ≠ .exited)
    (hkeep : ∀ l l' b, I l → ok l b → lifeStep lib l b = some l' → I l') (as : List LifeAct)
    (hl : I l) (h : Leads (lifeStep lib) ok l as l') (hj : .joining .recvq ∈ l.closing) :
    .joining .recvq ∈ l'.closing := by
  induction as generalizing l with
  | nil =>
    obtain rfl := Option.some.inj h.run
    exact hj
  | cons b as ih =>
    obtain ⟨l1, hstep, hrun⟩ := Option.bind_eq_some_iff.mp h.run
    obtain ⟨hjoined, hpc⟩ := hwait l hl
    have hpast : ∀ c ∈ l.closing, c.joinedReceiver = false := fun c hc =>
      Bool.eq_false_iff.mpr fun hj => hpc (hjoined.past c hc hj)
    have hj1 := (lifeStep_waits hpc hjoined.serves hpast hstep).2.2.2 hj
    exact ih (hkeep l l1 b hl h.ok.1 hstep) ⟨hrun, h.ok.2 l1 hstep⟩ hj1

end Unconnected

/-- **While the driver's connects fail** the receiver waits for the connection, whatever the callers
and the sender do, and no call of `ktli_close` gets past its join. -/
theorem close_waits_for_connect (lib : ListLib KioId) (l : Life)
    (h : Reach (lifeStep lib) FailsToConnect LifeInit l) :
    l.receiver = .waiting ∧ l.freed .recvq = false ∧ l.closed = false ∧
      (∀ c ∈ l.closing, c.joinedReceiver = false) ∧
      ∀ as l', Leads (lifeStep lib) FailsToConnect l as l' → .joining .recvq ∈ l.closing →
        .joining .recvq ∈ l'.closing := by
  obtain ⟨hl, hun⟩ := unconnected_of_reach h
  have hpc : l.receiver ≠ .exited := by
    rw [hun.receiver]
    exact ReceiverPc.noConfusion
  refine ⟨hun.receiver, ?_, ?_, fun c hc => ?_, fun as l' hrun hj => ?_⟩
  · exact Bool.eq_false_iff.mpr fun hf => hpc (hl.freed hf)
  · exact Bool.eq_false_iff.mpr fun hcl => hpc (hl.closed hcl)
  · exact Bool.eq_false_iff.mpr fun hj => hpc (hl.past c hc hj)
  · refine joining_of_leads (I := fun l => Joined l ∧ Unconnected l.toSystem)
      (fun l hl => ⟨hl.1, ?_⟩)
      (fun l l1 b hl hok hstep => ⟨hl.1.step hstep, hl.2.life hok hstep⟩) as ⟨hl, hun⟩ hrun hj
    rw [hl.2.receiver]
    exact ReceiverPc.noConfusion

/-- A connect fails, and the session is closed up to the join of the receiver. -/
def failedOpen : List LifeAct :=
  [.sys (.connect (-1)), .close, .closing (.sizes [.sendq, .recvq, .compq]) 0,
    .closing (.sizes [.recvq, .compq]) 0, .closing (.sizes [.compq]) 0, .closing (.sizes []) 0,
    .closing .driver 0, .closing (.exiting .sendq) 0, .sys (.sender 0 0), .sys (.sender 0 0),
    .closing (.joining .sendq) 0, .closing (.exiting .recvq) 0, .sys (.receiver quietEnv)]

theorem failedOpen_waits : ∃ l,
    run (lifeStep (ListLib.next KioId)) { now := 5 } failedOpen = some l ∧
    ∀ as l', Leads (lifeStep (ListLib.next KioId)) FailsToConnect l as l' →
      .joining .recvq ∈ l'.closing := by
  obtain ⟨l, hl, hc⟩ := Option.map_eq_some_iff.mp
    (show (run (lifeStep (ListLib.next KioId)) { now := 5 } failedOpen).map (fun l => l.closing) =
      some [.joining .recvq] by decide)
  have hreach : Reach (lifeStep (ListLib.next KioId)) FailsToConnect LifeInit l :=
    reach_of_run ⟨_, ⟨_, rfl⟩, rfl⟩ (by decide) hl
  exact ⟨l, hl, fun as l' hrun => (close_waits_for_connect _ l hreach).2.2.2.2 as l' hrun
    (hc ▸ List.mem_singleton_self _)⟩

/-! ### A session that was disconnected and drained -/

section Exit
variable {lib : ListLib KioId}

/-- The receiver raises no exit flag. -/
theorem receiverStep_exit {s s' : Session} {e : ReceiverEnv} {pc pc' : ReceiverPc}
    (h : receiverStep lib s e pc = some (s', pc')) : s'.exit = s.exit := by
  cases pc with
  | waiting | polling | receiving | disconnecting | swept | matched | aborting | disconnected =>
    obtain ⟨rfl, -⟩ := Prod.mk.inj (Option.some.inj h)
    rfl
  | matching rc aseq msg => exact (receiverMatch_steady h).exit
  | locking held todo =>
    cases todo with
    | nil =>
      obtain ⟨rfl, -⟩ := Prod.mk.inj (Option.some.inj h)
      exact recvmsgMoves_steady.exit
    | cons q todo =>
      simp only [receiverStep] at h
      split_ifs at h
      obtain ⟨rfl, -⟩ := Prod.mk.inj (Option.some.inj h)
      rfl
  | looping =>
    obtain ⟨s1, hsweep, h1⟩ := Option.map_eq_some_iff.mp h
    obtain ⟨rfl, -⟩ := Prod.mk.inj h1
    exact (sweep_checks hsweep).1
  | exited => cases h

end Exit

/-- The driver's polls return something in the set. -/
def PollsIn (R : Set ℤ) (l : Life) : LifeAct → Prop
  | .sys (.receiver e) => l.receiver = .polling → e.poll ∈ R
  | _ => True

/-- An opened session at rest: nothing is queued, the sender is idle, and the receiver is about to
poll. -/
structure AtRest (l : Life) : Prop where
  state : l.state = .opened
  receiver : l.receiver = .polling
  sender : l.sender = .idle
  queues : ∀ q, (l.queue q).items = []
  freed : ∀ q, l.freed q = false
  closing : l.closing = []
  closed : l.closed = false

/-- A call of `ktli_close` waits for the receiver, which stands at `pc`. -/
structure WaitsAt (l : Life) (pc : ReceiverPc) : Prop where
  receiver : l.receiver = pc
  closing : l.closing = [.joining .recvq]
  exit : l.exit .recvq = true
  recvq : l.freed .recvq = false
  compq : l.freed .compq = false
  closed : l.closed = false

section AtRest
variable {lib : ListLib KioId} {R : Set ℤ} {l : Life} {r : ℤ}

theorem AtRest.joined (h : AtRest l) : Joined l := by
  refine ⟨fun c hc => ?_, fun hf => ?_, fun c hc => ?_, fun hcl => ?_⟩
  · rw [h.closing] at hc
    cases hc
  · rw [h.freed] at hf
    cases hf
  · rw [h.closing] at hc
    cases hc
  · rw [h.closed] at hcl
    cases hcl

/-- **If all polls fail** the receiver goes on polling, and is not joined. -/
theorem AtRest.not_closed (h : AtRest l) (hR : ∀ r ∈ R, r < 0) {as : List LifeAct} {l' : Life}
    (hrun : Leads (lifeStep lib) (PollsIn R) l as l') : l'.closed = false := by
  have hreach : Reach (lifeStep lib) (PollsIn R) (fun m => m = l) l' := hrun.reach (.start rfl)
  obtain ⟨hjoined, hpc⟩ : Joined l' ∧ l'.receiver = .polling := by
    refine hreach.invariant (I := fun m => Joined m ∧ m.receiver = .polling) ?_ ?_
    · rintro m rfl
      exact ⟨h.joined, h.receiver⟩
    · rintro m m' a ⟨hm, hpc⟩ hok hstep
      refine ⟨hm.step hstep, ?_⟩
      by_cases ha : ∃ e, a = .sys (.receiver e)
      · obtain ⟨e, rfl⟩ := ha
        obtain ⟨s, st, hs, -, rfl⟩ := lifeStep_sys hstep
        obtain ⟨q, hq, rfl⟩ := Option.map_eq_some_iff.mp hs
        rw [hpc] at hq
        obtain rfl := Option.some.inj hq
        exact if_pos (hR _ (hok hpc))
      · exact (receiver_of_lifeStep hstep fun e he => ha ⟨e, he⟩).trans hpc
  refine Bool.eq_false_iff.mpr fun hcl => ?_
  have hexit := hjoined.closed hcl
  rw [hpc] at hexit
  cases hexit

/-- `ktli_close` up to the exit flag of recvq. -/
def closeToReceiver : List LifeAct :=
  [.close, .closing (.sizes [.sendq, .recvq, .compq]) 0, .closing (.sizes [.recvq, .compq]) 0,
    .closing (.sizes [.compq]) 0, .closing (.sizes []) 0, .closing .driver 0,
    .closing (.exiting .sendq) 0, .sys (.sender 0 0), .sys (.sender 0 0),
    .closing (.joining .sendq) 0, .closing (.exiting .recvq) 0]

/-- The rest of `ktli_close`. -/
def closeRest : List LifeAct :=
  [.closing (.joining .recvq) 0, .closing .freeComp 0, .closing .freeSlot 0]

/-- The only call of `ktli_close` goes on. -/
theorem closing_step (l m : Life) (c : Close) (c' : Option Close)
    (h : closeStep { l with closing := [c] } 0 c = some ({ m with closing := [c] }, c')) :
    lifeStep lib { l with closing := [c] } (.closing c 0) =
      some { m with closing := c'.toList } := by
  simp only [lifeStep, List.mem_singleton, if_true, h, Option.map_some, List.erase_cons_head,
    List.append_nil]

/-- **A session at rest** is closed up to the join of the receiver. -/
theorem AtRest.waits (h : AtRest l) (lib : ListLib KioId) (R : Set ℤ) :
    ∃ l', Leads (lifeStep lib) (PollsIn R) l closeToReceiver l' ∧ WaitsAt l' .polling ∧
      (l'.queue .recvq).items = [] := by
  have hsize : ∀ q, (l.queue q).size = 0 := fun q => by rw [CList.size, h.queues q, List.length_nil]
  have hfree : ∀ q, l.receiver.holds q = false := fun q => by rw [h.receiver]; rfl
  have hlook : ∀ q todo,
      closeStep { l with closing := [.sizes (q :: todo)] } 0 (.sizes (q :: todo)) =
        some ({ l with closing := [.sizes (q :: todo)] }, some (.sizes todo)) := by
    intro q todo
    simp [closeStep, h.freed, hsize]
  -- the sender is told to exit, does so and is joined
  let m1 : Life := { l.raise .sendq with sender := .exited }
  let m2 : Life := m1.free .sendq
  refine ⟨{ m2.raise .recvq with closing := [.joining .recvq] }, ?_, ?_, ?_⟩
  · refine .cons { l with closing := [.sizes [.sendq, .recvq, .compq]] } trivial ?_ ?_
    · simp [lifeStep, closeBegin, h.state, h.closing]
    refine .cons { l with closing := [.sizes [.recvq, .compq]] } trivial ?_ ?_
    · exact closing_step l l _ (some _) (hlook _ _)
    refine .cons { l with closing := [.sizes [.compq]] } trivial ?_ ?_
    · exact closing_step l l _ (some _) (hlook _ _)
    refine .cons { l with closing := [.sizes []] } trivial ?_ ?_
    · exact closing_step l l _ (some _) (hlook _ _)
    refine .cons { l with closing := [.driver] } trivial (closing_step l l _ (some _) rfl) ?_
    refine .cons { l with closing := [.exiting .sendq] } trivial
      (closing_step l l _ (some _) rfl) ?_
    refine .cons { l.raise .sendq with closing := [.joining .sendq] } trivial ?_ ?_
    · refine closing_step l (l.raise .sendq) _ (some _) (if_neg ?_)
      simp [h.freed, System.mutexFree, hfree]
    refine .cons { l.raise .sendq with sender := .woken, closing := [.joining .sendq] } trivial
      ?_ ?_
    · simp [lifeStep, Life.usesFreed, step, System.mutexFree, SenderPc.mutex, senderStep,
        Life.raise, h.sender, h.closed, hfree]
    refine .cons { m1 with closing := [.joining .sendq] } trivial ?_ ?_
    · simp [lifeStep, Life.usesFreed, step, System.mutexFree, SenderPc.mutex, senderStep,
        Life.raise, h.closed, m1]
    refine .cons { m2 with closing := [.exiting .recvq] } trivial ?_ ?_
    · refine closing_step m1 m2 _ (some _) (if_neg ?_)
      simp [m1, Life.raise, Life.joined, h.freed]
    refine .cons _ trivial ?_ .nil
    · refine closing_step m2 (m2.raise .recvq) _ (some _) (if_neg ?_)
      simp [m2, m1, Life.free, Life.raise, System.mutexFree, h.freed, hfree]
  · refine ⟨h.receiver, rfl, ?_, ?_, ?_, h.closed⟩
    · show Function.update m2.exit .recvq true .recvq = true
      exact Function.update_self ..
    · show Function.update l.freed .sendq true .recvq = false
      rw [Function.update_of_ne (by decide), h.freed]
    · show Function.update l.freed .sendq true .compq = false
      rw [Function.update_of_ne (by decide), h.freed]
  · show ((Function.update l.queue .sendq {}) .recvq).items = []
    rw [Function.update_of_ne (by decide), h.queues]

/-- The receiver goes on while the call waits for it. -/
theorem WaitsAt.step {pc pc' : ReceiverPc} (h : WaitsAt l pc) {e : ReceiverEnv} {s : Session}
    (hs : receiverStep lib l.toSession e pc = some (s, pc')) :
    ∃ l', lifeStep lib l (.sys (.receiver e)) = some l' ∧ WaitsAt l' pc' ∧ l'.toSession = s := by
  refine ⟨{ l with toSession := s, receiver := pc' }, ?_, ?_, rfl⟩
  · simp [lifeStep, Life.usesFreed, Ktli.step, h.receiver, hs, h.closed]
  · have hexit : s.exit = l.exit := receiverStep_exit hs
    exact ⟨rfl, h.closing, by rw [← h.exit, ← hexit], h.recvq, h.compq, h.closed⟩

/-- A poll finds nothing, or a message that answers no request. -/
def pollEnv (r : ℤ) : ReceiverEnv := { responseEnv 1 with poll := r }

/-- **The receiver leaves its loop** after the sweep. -/
theorem WaitsAt.leaves (h : WaitsAt l .looping) (lib : ListLib KioId) (R : Set ℤ)
    (e : ReceiverEnv) :
    ∃ l', Leads (lifeStep lib) (PollsIn R) l [.sys (.receiver e), .sys (.receiver e)] l' ∧
      WaitsAt l' .exited := by
  obtain ⟨s, hsweep⟩ := sweep_some lib l.toSession
  obtain ⟨l1, hl1, h1, hs1⟩ := h.step (e := e) (Option.map_eq_some_iff.mpr ⟨s, hsweep, rfl⟩)
  have hexit : receiverStep lib l1.toSession e .swept = some (l1.toSession, .exited) := by
    simp only [receiverStep, if_pos h1.exit]
  obtain ⟨l2, hl2, h2, -⟩ := h1.step hexit
  have hok : ∀ {m : Life} {pc : ReceiverPc}, WaitsAt m pc → pc ≠ .polling →
      PollsIn R m (.sys (.receiver e)) := fun hm hpc hp => absurd (hm.receiver.symm.trans hp) hpc
  exact ⟨l2, .cons l1 (hok h (by decide)) hl1 (.cons l2 (hok h1 (by decide)) hl2 .nil), h2⟩

/-- A message that answers no request is tossed. -/
theorem receiverStep_tossed {s : Session} (hs : (s.queue .recvq).items = []) (r : ℤ) :
    receiverStep lib s (pollEnv r) (.matching 20 1 7) =
      some (s.setQueue .recvq (s.queue .recvq), .looping) := by
  have htraverse : (s.queue .recvq).traverse lib 0 (fun j => seqmatch 1 (s.kio j)) =
      (lib.listEmpty, s.queue .recvq) := if_pos hs
  have hmatch : recvmsgMatch lib s 20 1 none =
      some (.tossed, s.setQueue .recvq (s.queue .recvq)) := by
    simp [recvmsgMatch, htraverse]
  have halloc : (pollEnv r).alloc = none := rfl
  simp [receiverStep, receiverMatch, halloc, hmatch]

/-- A poll that does not fail brings the receiver to the sweep. -/
theorem WaitsAt.polls (h : WaitsAt l .polling) (lib : ListLib KioId)
    (hrecvq : (l.queue .recvq).items = []) (hr : r ∈ R) (hpos : 0 ≤ r) :
    ∃ as l', Leads (lifeStep lib) (PollsIn R) l as l' ∧ WaitsAt l' .looping := by
  have hok : ∀ {m : Life}, PollsIn R m (.sys (.receiver (pollEnv r))) := fun _ => hr
  have hneg : ¬ r < 0 := by omega
  by_cases h1 : r = 1
  · have hpoll : receiverStep lib l.toSession (pollEnv r) .polling =
        some (l.toSession, .receiving) := by
      simp [receiverStep, pollEnv, h1]
    obtain ⟨l1, hl1, hw1, hs1⟩ := h.step hpoll
    have hread : receiverStep lib l1.toSession (pollEnv r) .receiving =
        some (l1.toSession, .matching 20 1 7) := rfl
    obtain ⟨l2, hl2, hw2, hs2⟩ := hw1.step hread
    have hempty : (l2.queue .recvq).items = [] := by rw [hs2, hs1, hrecvq]
    obtain ⟨l3, hl3, hw3, -⟩ := hw2.step (receiverStep_tossed hempty r)
    exact ⟨_, l3, .cons l1 hok hl1 (.cons l2 hok hl2 (.cons l3 hok hl3 .nil)), hw3⟩
  · have hpoll : receiverStep lib l.toSession (pollEnv r) .polling =
        some (l.toSession, .looping) := by
      simp [receiverStep, pollEnv, hneg, h1]
    obtain ⟨l1, hl1, hw1, -⟩ := h.step hpoll
    exact ⟨_, l1, .cons l1 hok hl1 .nil, hw1⟩

/-- **Once the receiver has exited** the close comes to its end. -/
theorem WaitsAt.ends (h : WaitsAt l .exited) (lib : ListLib KioId) (R : Set ℤ) :
    ∃ l', Leads (lifeStep lib) (PollsIn R) l closeRest l' ∧ l'.closed = true := by
  let m := l.free .recvq
  let m1 := (m.raise .compq).free .compq
  have hl : l = { l with closing := [.joining .recvq] } := by
    rw [← h.closing]
  refine ⟨{ m1 with state := .unknown, closed := true, closing := [] }, ?_, rfl⟩
  refine .cons { m with closing := [.freeComp] } trivial ?_ ?_
  · rw [hl]
    refine closing_step l m _ (some _) (if_neg ?_)
    simp [Life.joined, h.recvq, h.receiver]
  refine .cons { m1 with closing := [.freeSlot] } trivial ?_ ?_
  · refine closing_step m m1 _ (some _) (if_neg ?_)
    simp [m, Life.free, h.compq]
  refine .cons _ trivial ?_ .nil
  exact closing_step m1 { m1 with state := .unknown, closed := true } _ none rfl

end AtRest

/-- **A session at rest can be closed** if and only if some poll does not fail. -/
theorem closes_iff_poll_succeeds (lib : ListLib KioId) (R : Set ℤ) (l : Life) (h : AtRest l) :
    (∃ as l', Leads (lifeStep lib) (PollsIn R) l as l' ∧ l'.closed = true) ↔ ∃ r ∈ R, 0 ≤ r := by
  constructor
  · rintro ⟨as, l', hrun, hclosed⟩
    by_contra hno
    have hneg : ∀ r ∈ R, r < 0 := fun r hr => not_le.mp fun hpos => hno ⟨r, hr, hpos⟩
    rw [h.not_closed hneg hrun] at hclosed
    cases hclosed
  · rintro ⟨r, hr, hpos⟩
    obtain ⟨l1, hrun1, hw1, hempty⟩ := h.waits lib R
    obtain ⟨as, l2, hrun2, hw2⟩ := hw1.polls lib hempty hr hpos
    obtain ⟨l3, hrun3, hw3⟩ := hw2.leaves lib R (pollEnv r)
    obtain ⟨l4, hrun4, hclosed⟩ := hw3.ends lib R
    exact ⟨_, l4, ((hrun1.append hrun2).append hrun3).append hrun4, hclosed⟩

/-- A session is connected, polled, disconnected and drained. -/
def pollAndDrain : List LifeAct :=
  enterLoop ++ [.sys (.receiver quietEnv)] ++
    ([.disconnect 0, .call .disconnected true, .drain,
      .call (.drainLock [.compq, .recvq, .sendq]) true, .call (.drainLock [.recvq, .sendq]) true,
      .call (.drainLock [.sendq]) true, .call (.drainLock []) true] : List Act).map .sys

/-- The receiver finishes its iteration. -/
def toPoll : List LifeAct := List.replicate 2 (.sys (.receiver quietEnv))

theorem drained_closes : ∃ l : Life,
    run (lifeStep (ListLib.next KioId)) { now := 5 } (pollAndDrain ++ toPoll) = some l ∧
    (∃ as l', Leads (lifeStep (ListLib.next KioId)) (PollsIn {0}) l as l' ∧ l'.closed = true) ∧
    ¬ ∃ as l', Leads (lifeStep (ListLib.next KioId)) (PollsIn {-1}) l as l' ∧ l'.closed = true := by
  obtain ⟨l, hl, hq⟩ := Option.map_eq_some_iff.mp
    (show (run (lifeStep (ListLib.next KioId)) { now := 5 } (pollAndDrain ++ toPoll)).map (fun l =>
      decide (l.state = .opened ∧ l.receiver = .polling ∧ l.sender = .idle ∧
        (∀ q ∈ drainOrder, (l.queue q).items = []) ∧ (∀ q ∈ drainOrder, l.freed q = false) ∧
        l.closing = [] ∧ l.closed = false)) = some true by decide)
  obtain ⟨hst, hpc, hsender, hqueues, hfreed, hclosing, hclosed⟩ := of_decide_eq_true hq
  have hmem : ∀ q : QId, q ∈ drainOrder := fun q => by cases q <;> decide
  have hrest : AtRest l := ⟨hst, hpc, hsender, fun q => hqueues q (hmem q),
    fun q => hfreed q (hmem q), hclosing, hclosed⟩
  refine ⟨l, hl, (closes_iff_poll_succeeds _ {0} l hrest).mpr ⟨0, rfl, le_rfl⟩, fun h => ?_⟩
  obtain ⟨r, rfl, hr⟩ := (closes_iff_poll_succeeds _ {-1} l hrest).mp h
  omega

end Libkinetic.Ktli
