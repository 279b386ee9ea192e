import Libkinetic.Ktli.Close
import Libkinetic.Ktli.Timeout

/-! # The iterations of the receiver

What an iteration of the main loop of `ktli_receiver` owes the session: after an error of the
driver's poll a connected session is aborted or draining, a due timeout check is made, and the loop
is left once the exit flag is set. A log beside the session says of each iteration what was due when
the poll returned and what came of it, whatever the other threads do meanwhile. An iteration that
goes back to the poll after an error, or that waits for a mutex of its own, does nothing more
(`iterationDone_iff`). -/

namespace Libkinetic.Ktli

open Libkinetic.Base.CursorList Libkinetic.Base.Runs

/-! ### The log -/

/-- One iteration. -/
structure Turn where
  /-- What the driver's poll returned. -/
  poll : ℤ := 0
  /-- The session was connected then, -/
  connected : Bool := false
  /-- a timeout check was due, -/
  due : Bool := false
  /-- and the exit flag of recvq was set. -/
  exit : Bool := false
  /-- The message that the poll announced could not be read, or there was no memory for it. -/
  failed : Bool := false
  /-- After some step the session was aborted or draining. -/
  aborted : Bool := false
  /-- A check was finished in the second it was made in. -/
  checked : Bool := false
  /-- The loop was left. -/
  left : Bool := false
deriving DecidableEq

/-- The iteration under way, and those that are over. -/
structure Turns where
  turn : Turn := {}
  ended : List Turn := []

/-- What an iteration is to do. -/
structure Turn.Done (t : Turn) : Prop where
  hangup : t.poll < 0 → t.connected = true → t.aborted = true
  check : t.due = true → t.checked = true
  leave : t.exit = true → t.left = true

/-- The poll returned no error and any message was read, or there was nothing to do. -/
def Turn.Smooth (t : Turn) : Prop :=
  0 ≤ t.poll ∧ t.failed = false ∨
    t.due = false ∧ t.exit = false ∧ (t.poll < 0 → t.connected = false)

/-- `ktli_recvmsg` fails in this step. -/
def ReceiverPc.fails (e : ReceiverEnv) : ReceiverPc → Bool
  | .receiving => (recvmsgRead e.recv).isNone
  | .matching _ aseq _ => aseq = -1 ∧ e.alloc.isNone
  | _ => false

/-- The thread waits for a mutex that it holds. -/
def ReceiverPc.stuck : ReceiverPc → Bool
  | .locking held (q :: _) => q ∈ held
  | _ => false

/-- The iteration is over, for good if the thread is stuck. -/
def ReceiverPc.ends (pc : ReceiverPc) : Bool := pc = .polling ∨ pc = .exited ∨ pc.stuck

/-- An iteration, as the poll returns. -/
def Turn.begin (s : Session) (e : ReceiverEnv) : Turn where
  poll := e.poll
  connected := s.state = .connected
  due := s.lastcheck.tvSec ≠ (clockGettime s.now).tvSec
  exit := s.exit .recvq

/-- What a step of the receiver adds to the iteration. -/
def Turn.note (s : System) (e : ReceiverEnv) (s' : System) (t : Turn) : Turn :=
  { t with
    failed := t.failed || s.receiver.fails e
    aborted := t.aborted || decide (s'.state = .aborted ∨ s'.state = .draining)
    checked := t.checked || decide (s'.lastcheck.tvSec = (clockGettime s.now).tvSec)
    left := s'.receiver = .exited }

/-- What a step adds to the log. The thread is in no iteration while it waits for the session to be
connected. -/
def Turns.record (l : Life) (a : LifeAct) (l' : Life) (h : Turns) : Turns :=
  match a with
  | .sys (.receiver e) =>
    if l.receiver = .waiting then h
    else
      let t := Turn.note l.toSystem e l'.toSystem
        (if l.receiver = .polling then .begin l.toSession e else h.turn)
      if l'.receiver.ends then ⟨{}, t :: h.ended⟩ else ⟨t, h.ended⟩
  | _ => h

def InitTurns (p : Life × Turns) : Prop := LifeInit p.1 ∧ p.2 = {}

/-! ### What the sections leave alone -/

/-- No check is finished, no time passes and no exit flag is set. -/
structure Steady (s s' : Session) : Prop where
  exit : s'.exit = s.exit
  lastcheck : s'.lastcheck = s.lastcheck
  now : s'.now = s.now

section Steady
variable {lib : ListLib KioId} {s s1 s2 s' : Session} {rc err : ℤ}

theorem Steady.refl : Steady s s := ⟨rfl, rfl, rfl⟩

theorem Steady.trans (h1 : Steady s s1) (h2 : Steady s1 s') : Steady s s' :=
  ⟨h2.exit.trans h1.exit, h2.lastcheck.trans h1.lastcheck, h2.now.trans h1.now⟩

theorem HandsBack.steady {P : KioId → Prop} (h : HandsBack P s s') : Steady s s' := by
  induction h with
  | refl => exact .refl
  | back => exact ⟨rfl, rfl, rfl⟩
  | cursor q l _ _ ih => exact ⟨ih.exit, ih.lastcheck, ih.now⟩
  | state st _ ih => exact ⟨ih.exit, ih.lastcheck, ih.now⟩

theorem callStep_steady {c : Call} {mem : Bool} {r : Session × Option Call}
    (h : callStep lib s mem c = some r) : Steady s r.1 := by
  by_cases hc : c.kio = none
  · exact (callStep_handsBack h hc).steady
  · cases c with
    | sendLock k =>
      obtain rfl := Option.some.inj h
      cases mem with
      | true => exact ⟨rfl, rfl, rfl⟩
      | false => exact ⟨rfl, rfl, rfl⟩
    | _ => exact absurd rfl hc

theorem senderStep_steady {pc pc' : SenderPc} (h : senderStep lib s rc err pc = some (s', pc')) :
    Steady s s' := by
  cases pc with
  | take =>
    obtain ⟨⟨k, s1⟩, h1, h2⟩ := Option.map_eq_some_iff.mp h
    obtain ⟨rfl, -⟩ := Prod.mk.inj h2
    obtain ⟨n, l, -, rfl⟩ := senderTake_some h1
    exact ⟨rfl, rfl, rfl⟩
  | sequenced k =>
    obtain ⟨rfl, -⟩ := Prod.mk.inj (Option.some.inj h)
    unfold senderQueue
    split_ifs
    · exact .refl
    · exact ⟨rfl, rfl, rfl⟩
  | marked k rc' =>
    have h1 := Option.some.inj h
    unfold senderResult at h1
    split_ifs at h1 <;> obtain ⟨rfl, -⟩ := Prod.mk.inj h1 <;> exact ⟨rfl, rfl, rfl⟩
  | exited => cases h
  | _ =>
    obtain ⟨rfl, -⟩ := Prod.mk.inj (Option.some.inj h)
    exact ⟨rfl, rfl, rfl⟩

theorem receiverMatch_steady {aseq : ℤ} {msg : ℕ} {alloc : Option KioId} {pc : ReceiverPc}
    (h : receiverMatch lib s rc aseq msg alloc = some (s', pc)) : Steady s s' := by
  unfold receiverMatch at h
  split_ifs at h
  obtain ⟨⟨m, s1⟩, hm, h⟩ := Option.map_eq_some_iff.mp h
  obtain ⟨rfl, -⟩ := Prod.mk.inj h
  rcases recvmsgMatch_cases hm with ⟨-, -, l, -, rfl⟩ | ⟨-, -, -, rfl⟩ | ⟨k, -, -, -, rfl⟩ |
    ⟨i, k, -, hrem, -, -⟩
  · exact ⟨rfl, rfl, rfl⟩
  · exact ⟨rfl, rfl, rfl⟩
  · exact ⟨rfl, rfl, rfl⟩
  · obtain ⟨l, -, rfl⟩ := hrem.eq
    exact ⟨rfl, rfl, rfl⟩

/-- Only a message that answers something is tossed. -/
theorem recvmsgMatch_tossed {aseq : ℤ} {alloc : Option KioId}
    (h : recvmsgMatch lib s rc aseq alloc = some (.tossed, s')) : aseq ≠ -1 := by
  rintro rfl
  unfold recvmsgMatch at h
  cases alloc <;> cases h

/-- **The sweep** finishes the check of the second it is made in. -/
theorem sweep_checks (h : sweep lib s = some s') :
    s'.exit = s.exit ∧ s'.now = s.now ∧ s'.lastcheck.tvSec = (clockGettime s.now).tvSec := by
  have hframe : s'.exit = s.exit ∧ s'.now = s.now := by
    refine sweep_rule (R := fun s s' => s'.exit = s.exit ∧ s'.now = s.now) (fun _ => ⟨rfl, rfl⟩)
      (fun _ _ _ h1 h2 => ⟨h2.1.trans h1.1, h2.2.trans h1.2⟩) (fun _ _ _ => ⟨rfl, rfl⟩)
      (fun _ _ => ⟨rfl, rfl⟩) (fun _ _ _ _ _ _ _ _ _ => ⟨rfl, rfl⟩) h
  refine ⟨hframe.1, hframe.2, ?_⟩
  unfold sweep at h
  dsimp only at h
  split_ifs at h with hsec
  · obtain rfl := Option.some.inj h
    exact hsec
  · obtain ⟨s1, -, rfl⟩ := Option.map_eq_some_iff.mp h
    rfl

/-- The other threads and the clock: time passes, and no check is finished. -/
theorem step_steady {s s' : System} {a : Act} (h : step lib s a = some s')
    (ha : ∀ e, a ≠ .receiver e) :
    s'.exit = s.exit ∧ s'.lastcheck = s.lastcheck ∧ s.now ≤ s'.now := by
  have hof : ∀ {r : Session}, Steady s.toSession r →
      r.exit = s.exit ∧ r.lastcheck = s.lastcheck ∧ s.now ≤ r.now :=
    fun hr => ⟨hr.exit, hr.lastcheck, hr.now.ge⟩
  cases a with
  | send k flags msg =>
    obtain ⟨r, hr, rfl⟩ := Option.map_eq_some_iff.mp h
    unfold sendBegin at hr
    split_ifs at hr <;> obtain rfl := Option.some.inj hr <;> exact hof ⟨rfl, rfl, rfl⟩
  | receive | receiveUnsolicited | drain | drainMatch | connect | disconnect =>
    obtain ⟨c, rfl, -⟩ := step_push h rfl
    exact hof .refl
  | call c mem =>
    simp only [step] at h
    split_ifs at h
    obtain ⟨r, hr, rfl⟩ := Option.map_eq_some_iff.mp h
    exact hof (callStep_steady hr)
  | sender rc err => exact hof (senderStep_steady (sender_step h))
  | receiver e => exact absurd rfl (ha e)
  | tick ns =>
    obtain rfl := Option.some.inj h
    exact ⟨rfl, rfl, Nat.le_add_right _ _⟩

end Steady

/-! ### The invariant -/

/-- The iteration under way has not finished a check that was due. -/
structure Unchecked (s : Session) (t : Turn) : Prop where
  poll : 0 ≤ t.poll
  exit : t.exit = true → s.exit .recvq = true
  check : t.due = true →
    t.checked = false ∧ s.lastcheck.tvSec < (clockGettime s.now).tvSec

/-- What the log says of the iteration under way. -/
def Telling (s : Session) (t : Turn) : ReceiverPc → Prop
  | .waiting | .polling | .exited => True
  | .receiving | .matching _ _ _ | .matched _ _ | .looping => Unchecked s t ∧ t.failed = false
  | .aborting | .disconnecting | .disconnected => Unchecked s t ∧ t.failed = true
  | .locking held todo =>
    (ReceiverPc.locking held todo).stuck = true ∨
      held = [] ∧ todo = recvmsgLocks ∧ Unchecked s t ∧ t.failed = true
  | .swept =>
    t.failed = false ∧ 0 ≤ t.poll ∧ (t.exit = true → s.exit .recvq = true) ∧
      (t.due = true → t.checked = true)

/-- **The invariant.** -/
structure Told (l : Life) (h : Turns) : Prop where
  clock : l.lastcheck.tvSec ≤ (clockGettime l.now).tvSec
  turn : Telling l.toSession h.turn l.receiver
  ended : ∀ t ∈ h.ended, t.Done ↔ t.Smooth

section Told
variable {lib : ListLib KioId} {s s' : Session} {t : Turn} {e : ReceiverEnv} {pc pc' : ReceiverPc}

theorem clockGettime_mono {m n : ℕ} (h : m ≤ n) :
    (clockGettime m).tvSec ≤ (clockGettime n).tvSec :=
  Nat.div_le_div_right h

theorem Unchecked.mono (ht : Unchecked s t) (hexit : s.exit .recvq = true → s'.exit .recvq = true)
    (hlast : s'.lastcheck = s.lastcheck) (hnow : s.now ≤ s'.now) : Unchecked s' t where
  poll := ht.poll
  exit h := hexit (ht.exit h)
  check h := by
    rw [hlast]
    exact ⟨(ht.check h).1, (ht.check h).2.trans_le (clockGettime_mono hnow)⟩

/-- What the other threads do says nothing about the iteration. -/
theorem Telling.mono (ht : Telling s t pc) (hexit : s.exit .recvq = true → s'.exit .recvq = true)
    (hlast : s'.lastcheck = s.lastcheck) (hnow : s.now ≤ s'.now) : Telling s' t pc := by
  cases pc with
  | waiting | polling | exited => trivial
  | receiving | matching | matched | looping | aborting | disconnecting | disconnected =>
    exact ⟨ht.1.mono hexit hlast hnow, ht.2⟩
  | locking held todo =>
    rcases ht with h1 | ⟨h1, h2, h3, h4⟩
    · exact Or.inl h1
    · exact Or.inr ⟨h1, h2, h3.mono hexit hlast hnow, h4⟩
  | swept => exact ⟨ht.1, ht.2.1, fun h => hexit (ht.2.2.1 h), ht.2.2.2⟩

/-- Nothing is said between two iterations. -/
theorem Telling.of_ends (h : pc.ends = true) : Telling s t pc := by
  rcases of_decide_eq_true h with rfl | rfl | hstuck
  · exact trivial
  · exact trivial
  · cases pc with
    | locking held todo => exact Or.inl hstuck
    | _ => cases hstuck

theorem recvmsgMoves_steady : Steady s (recvmsgMoves lib s) := by
  have hmove : ∀ n q s, Steady s (moveAll lib q n s) := fun n q s =>
    moveAll_rule (R := Steady) (fun _ => .refl)
      (fun _ _ _ h1 h2 => ⟨h2.exit.trans h1.exit, h2.lastcheck.trans h1.lastcheck,
        h2.now.trans h1.now⟩) fun _ _ _ _ _ => ⟨rfl, rfl, rfl⟩
  have h1 := hmove ((s.mvrear recvmsgCq).queue recvmsgRq).size recvmsgRq (s.mvrear recvmsgCq)
  unfold recvmsgMoves
  dsimp only
  generalize moveAll lib recvmsgRq _ (s.mvrear recvmsgCq) = s1 at h1 ⊢
  have h2 := hmove (s1.queue recvmsgSq).size recvmsgSq s1
  exact ⟨h2.exit.trans h1.exit, h2.lastcheck.trans h1.lastcheck, h2.now.trans h1.now⟩

/-- The last check is never in the future. -/
theorem receiverStep_clock (hclock : s.lastcheck.tvSec ≤ (clockGettime s.now).tvSec)
    (h : receiverStep lib s e pc = some (s', pc')) :
    s'.lastcheck.tvSec ≤ (clockGettime s'.now).tvSec := by
  have hof : Steady s s' → s'.lastcheck.tvSec ≤ (clockGettime s'.now).tvSec := by
    intro hs
    rwa [hs.lastcheck, hs.now]
  cases pc with
  | waiting | polling | receiving | disconnecting | swept =>
    obtain ⟨rfl, -⟩ := Prod.mk.inj (Option.some.inj h)
    exact hclock
  | matching rc aseq msg => exact hof (receiverMatch_steady h)
  | matched | aborting | disconnected =>
    obtain ⟨rfl, -⟩ := Prod.mk.inj (Option.some.inj h)
    exact hclock
  | locking held todo =>
    cases todo with
    | nil =>
      obtain ⟨rfl, -⟩ := Prod.mk.inj (Option.some.inj h)
      exact hof recvmsgMoves_steady
    | cons q todo =>
      simp only [receiverStep] at h
      split_ifs at h
      obtain ⟨rfl, -⟩ := Prod.mk.inj (Option.some.inj h)
      exact hclock
  | looping =>
    obtain ⟨s1, hsweep, h1⟩ := Option.map_eq_some_iff.mp h
    obtain ⟨rfl, -⟩ := Prod.mk.inj h1
    obtain ⟨-, hnow, hlast⟩ := sweep_checks hsweep
    rw [hlast, hnow]
  | exited => cases h

end Told

/-! ### One step of the receiver -/

section Note
variable {lib : ListLib KioId} {s s' : System} {t : Turn} {e : ReceiverEnv} {pc : ReceiverPc}

/-- A step that finishes no check. -/
theorem Unchecked.note (ht : Unchecked s.toSession t) (hs : Steady s.toSession s'.toSession) :
    Unchecked s'.toSession (t.note s e s') where
  poll := ht.poll
  exit h := by
    rw [hs.exit]
    exact ht.exit h
  check h := by
    obtain ⟨h1, h2⟩ := ht.check h
    rw [hs.lastcheck, hs.now]
    refine ⟨?_, h2⟩
    unfold Turn.note
    rw [h1, hs.lastcheck, Bool.false_or, decide_eq_false_iff_not]
    exact h2.ne

/-- The iteration begins, and goes on. -/
theorem Unchecked.begin (hclock : s.lastcheck.tvSec ≤ (clockGettime s.now).tvSec)
    (hpoll : 0 ≤ e.poll) : Unchecked s.toSession (Turn.begin s.toSession e) where
  poll := hpoll
  exit h := h
  check h := ⟨rfl, lt_of_le_of_ne hclock (of_decide_eq_true h)⟩

/-- An iteration that did nothing was to do nothing. -/
theorem Turn.done_iff (hrough : ¬ (0 ≤ t.poll ∧ t.failed = false))
    (hcheck : t.due = true → t.checked = false) (hleft : t.left = false)
    (habort : t.poll < 0 → t.connected = true → t.aborted = false) : t.Done ↔ t.Smooth := by
  constructor
  · intro hd
    refine Or.inr ⟨Bool.eq_false_iff.mpr fun h => ?_, Bool.eq_false_iff.mpr fun h => ?_,
      fun hp => Bool.eq_false_iff.mpr fun h => ?_⟩
    · have h1 := hd.check h
      rw [hcheck h] at h1
      cases h1
    · have h1 := hd.leave h
      rw [hleft] at h1
      cases h1
    · have h1 := hd.hangup hp h
      rw [habort hp h] at h1
      cases h1
  · rintro (h | ⟨h1, h2, h3⟩)
    · exact absurd h hrough
    · exact ⟨fun hp h => (Bool.eq_false_iff.mp (h3 hp) h).elim,
        fun h => (Bool.eq_false_iff.mp h1 h).elim, fun h => (Bool.eq_false_iff.mp h2 h).elim⟩

/-- **After an error of the poll** the iteration is over, and nothing was done. -/
theorem Turn.done_of_hangup (hs : Steady s.toSession s'.toSession) (hpoll : e.poll < 0)
    (hst : s.state = .connected → ¬ (s'.state = .aborted ∨ s'.state = .draining))
    (hleft : s'.receiver ≠ .exited) :
    ((Turn.begin s.toSession e).note s e s').Done ↔
      ((Turn.begin s.toSession e).note s e s').Smooth := by
  refine Turn.done_iff (fun h => not_lt.mpr h.1 hpoll) (fun h => ?_) (decide_eq_false hleft)
    fun _ h => ?_
  · have h1 : s.lastcheck.tvSec ≠ (clockGettime s.now).tvSec := of_decide_eq_true h
    show (false || decide (s'.lastcheck.tvSec = _)) = false
    rw [hs.lastcheck, Bool.false_or, decide_eq_false_iff_not]
    exact h1
  · show (false || decide (s'.state = .aborted ∨ s'.state = .draining)) = false
    rw [Bool.false_or, decide_eq_false_iff_not]
    exact hst (of_decide_eq_true h)

/-- **A thread that is stuck** does nothing more. -/
theorem Turn.done_of_stuck (ht : Unchecked s.toSession t) (hfail : t.failed = true)
    (hleft : t.left = false) : t.Done ↔ t.Smooth := by
  refine Turn.done_iff (fun h => ?_) (fun h => (ht.check h).1) hleft
    fun h => absurd h (not_lt.mpr ht.poll)
  rw [hfail] at h
  cases h.2

/-- **An iteration that gets to its end** has done everything. -/
theorem Turn.done_of_swept (hpoll : 0 ≤ t.poll) (hfail : t.failed = false)
    (hcheck : t.due = true → t.checked = true) (hleave : t.exit = true → t.left = true) :
    t.Done ↔ t.Smooth :=
  iff_of_true ⟨fun h => absurd h (not_lt.mpr hpoll), hcheck, hleave⟩ (Or.inl ⟨hpoll, hfail⟩)

/-- What the step of the receiver leaves of the iteration. -/
def Goes (t : Turn) (s : System) : Prop :=
  if s.receiver.ends then t.Done ↔ t.Smooth else Telling s.toSession t s.receiver

/-- The iteration goes on. -/
theorem Goes.of_telling (hpc : pc = s.receiver) (hends : pc.ends = false)
    (ht : Telling s.toSession t pc) : Goes t s := by
  subst hpc
  unfold Goes
  rw [hends]
  exact ht

theorem Goes.of_ends (hends : s.receiver.ends = true) (h : t.Done ↔ t.Smooth) : Goes t s := by
  unfold Goes
  rwa [if_pos hends]

/-- **The poll**: the iteration begins. -/
theorem goes_of_poll (hclock : s.lastcheck.tvSec ≤ (clockGettime s.now).tvSec)
    (hpc : s.receiver = .polling) (hs : Steady s.toSession s'.toSession)
    (hst : s.state = .connected → ¬ (s'.state = .aborted ∨ s'.state = .draining))
    (hpc' : s'.receiver = if e.poll < 0 then .polling else if e.poll = 1 then .receiving
      else .looping) : Goes ((Turn.begin s.toSession e).note s e s') s' := by
  have hfail : ((Turn.begin s.toSession e).note s e s').failed = false := by
    show (false || s.receiver.fails e) = false
    rw [hpc]
    rfl
  split_ifs at hpc' with hneg h1
  · exact .of_ends (by rw [hpc']; rfl) (Turn.done_of_hangup hs hneg hst (by rw [hpc']; simp))
  · exact .of_telling hpc'.symm rfl ⟨(Unchecked.begin hclock (not_lt.mp hneg)).note hs, hfail⟩
  · exact .of_telling hpc'.symm rfl ⟨(Unchecked.begin hclock (not_lt.mp hneg)).note hs, hfail⟩

/-- Whether a step fails the iteration. -/
theorem Turn.note_failed (hpc : s.receiver = pc) :
    (t.note s e s').failed = (t.failed || pc.fails e) := by
  rw [← hpc]
  rfl

/-- **The match section**: the iteration has failed if there is no kio to hand on. -/
theorem goes_of_match {r : Session} {rc aseq : ℤ} {msg : ℕ}
    (hpc : s.receiver = .matching rc aseq msg) (hu : Unchecked s.toSession t)
    (hfail : t.failed = false)
    (h : receiverMatch lib s.toSession rc aseq msg e.alloc = some (r, s'.receiver))
    (hs' : Steady r s'.toSession) : Goes (t.note s e s') s' := by
  have hu' := hu.note (e := e) ((receiverMatch_steady h).trans hs')
  have hf : (t.note s e s').failed = decide (aseq = -1 ∧ e.alloc.isNone) := by
    rw [Turn.note_failed hpc, hfail]
    rfl
  unfold receiverMatch at h
  split_ifs at h
  obtain ⟨⟨m, s1⟩, hm, h1⟩ := Option.map_eq_some_iff.mp h
  obtain ⟨-, hpc'⟩ := Prod.mk.inj h1
  rcases recvmsgMatch_cases hm with ⟨rfl, -⟩ | ⟨rfl, h2, h3, -⟩ | ⟨k, rfl, -, h3, -⟩ |
    ⟨i, k, rfl, -, h2, -⟩
  · exact .of_telling hpc' rfl ⟨hu', by rw [hf]; simp [recvmsgMatch_tossed hm]⟩
  · exact .of_telling hpc' rfl ⟨hu', by rw [hf, h2, h3]; rfl⟩
  · exact .of_telling hpc' rfl ⟨hu', by rw [hf, h3]; simp⟩
  · exact .of_telling hpc' rfl ⟨hu', by rw [hf]; simp [h2]⟩

/-- **The mutexes**: the thread is stuck, or will be at the second one. -/
theorem goes_of_lock {r : Session} {held todo : List QId} (hpc : s.receiver = .locking held todo)
    (ht : Telling s.toSession t (.locking held todo))
    (h : receiverStep lib s.toSession e (.locking held todo) = some (r, s'.receiver))
    (hs' : Steady r s'.toSession) : Goes (t.note s e s') s' := by
  rcases ht with hstuck | ⟨rfl, rfl, hu, hfail⟩
  · -- the thread cannot go on
    cases todo with
    | nil => cases hstuck
    | cons q todo =>
      have hq : q ∈ held := of_decide_eq_true hstuck
      simp only [receiverStep, if_pos hq] at h
      cases h
  · -- the second mutex is the first one
    obtain ⟨rfl, hpc'⟩ := Prod.mk.inj (Option.some.inj h)
    have hu' := hu.note (e := e) hs'
    refine .of_ends (by rw [← hpc']; rfl)
      (Turn.done_of_stuck hu' (by rw [Turn.note_failed hpc, hfail]; rfl) ?_)
    exact decide_eq_false (by rw [← hpc']; simp)

/-- **The timeout check**: one that was due is made. -/
theorem goes_of_sweep {r : Session} (hpc : s.receiver = .looping)
    (hu : Unchecked s.toSession t) (hfail : t.failed = false)
    (h : receiverStep lib s.toSession e .looping = some (r, s'.receiver))
    (hs' : Steady r s'.toSession) : Goes (t.note s e s') s' := by
  obtain ⟨s1, hsweep, h1⟩ := Option.map_eq_some_iff.mp h
  obtain ⟨rfl, hpc'⟩ := Prod.mk.inj h1
  obtain ⟨hexit, -, hlast⟩ := sweep_checks hsweep
  refine .of_telling hpc' rfl ⟨by rw [Turn.note_failed hpc, hfail]; rfl, hu.poll, fun h => ?_,
    fun _ => ?_⟩
  · rw [hs'.exit, hexit]
    exact hu.exit h
  · show (_ || decide (s'.lastcheck.tvSec = _)) = true
    rw [hs'.lastcheck, hlast]
    simp

/-- **The steps after the poll.** -/
theorem goes_of_step {r : Session} (ht : Telling s.toSession t s.receiver)
    (hpoll : s.receiver ≠ .polling) (hwait : s.receiver ≠ .waiting)
    (h : receiverStep lib s.toSession e s.receiver = some (r, s'.receiver))
    (hs' : Steady r s'.toSession) : Goes (t.note s e s') s' := by
  cases hpc : s.receiver with
  | waiting => exact absurd hpc hwait
  | polling => exact absurd hpc hpoll
  | receiving =>
    have hf : (t.note s e s').failed = (t.failed || ReceiverPc.receiving.fails e) :=
      Turn.note_failed hpc
    rw [hpc] at h ht
    obtain ⟨rfl, hpc'⟩ := Prod.mk.inj (Option.some.inj h)
    have hu := ht.1.note (e := e) hs'
    have hf' : (t.note s e s').failed = (recvmsgRead e.recv).isNone := by
      rw [hf, ht.2]
      rfl
    rcases hread : recvmsgRead e.recv with _ | ⟨rc, aseq, msg⟩
    · rw [hread] at hpc' hf'
      exact .of_telling hpc' rfl ⟨hu, hf'⟩
    · rw [hread] at hpc' hf'
      exact .of_telling hpc' rfl ⟨hu, hf'⟩
  | matching rc aseq msg =>
    rw [hpc] at h ht
    exact goes_of_match hpc ht.1 ht.2 h hs'
  | matched k msg =>
    rw [hpc] at h ht
    obtain ⟨hr, hpc'⟩ := Prod.mk.inj (Option.some.inj h)
    have hsteady : Steady s.toSession r := by rw [← hr]; exact ⟨rfl, rfl, rfl⟩
    have hu := ht.1.note (e := e) (hsteady.trans hs')
    exact .of_telling hpc' rfl ⟨hu, by rw [Turn.note_failed hpc, ht.2]; rfl⟩
  | aborting | disconnected =>
    have hf : (t.note s e s').failed = true := by
      rw [hpc] at ht
      rw [Turn.note_failed hpc, ht.2]
      rfl
    rw [hpc] at h ht
    obtain ⟨hr, hpc'⟩ := Prod.mk.inj (Option.some.inj h)
    have hsteady : Steady s.toSession r := by rw [← hr]; exact ⟨rfl, rfl, rfl⟩
    have hu := ht.1.note (e := e) (hsteady.trans hs')
    first
      | exact .of_telling hpc' rfl ⟨hu, hf⟩
      | exact .of_telling hpc' rfl (Or.inr ⟨rfl, rfl, hu, hf⟩)
  | disconnecting =>
    rw [hpc] at h ht
    obtain ⟨rfl, hpc'⟩ := Prod.mk.inj (Option.some.inj h)
    have hu := ht.1.note (e := e) hs'
    have hf : (t.note s e s').failed = true := by rw [Turn.note_failed hpc, ht.2]; rfl
    split_ifs at hpc'
    · exact .of_telling hpc' rfl (Or.inr ⟨rfl, rfl, hu, hf⟩)
    · exact .of_telling hpc' rfl ⟨hu, hf⟩
  | locking held todo =>
    rw [hpc] at h ht
    exact goes_of_lock hpc ht h hs'
  | looping =>
    rw [hpc] at h ht
    exact goes_of_sweep hpc ht.1 ht.2 h hs'
  | swept =>
    rw [hpc] at h ht
    obtain ⟨rfl, hpc'⟩ := Prod.mk.inj (Option.some.inj h)
    obtain ⟨hfail, hp, hexit, hcheck⟩ := ht
    refine .of_ends ?_ (Turn.done_of_swept hp (by rw [Turn.note_failed hpc, hfail]; rfl)
      (fun h => ?_) fun h => ?_)
    · rw [← hpc']
      split_ifs <;> rfl
    · show (t.checked || _) = true
      rw [hcheck h, Bool.true_or]
    · refine decide_eq_true ?_
      rw [← hpc', if_pos (hexit h)]
  | exited =>
    rw [hpc] at h
    cases h

end Note

/-! ### Every iteration ends -/

/-- How many steps of the receiver are left of an iteration at most. -/
def ReceiverPc.toGo : ReceiverPc → ℕ
  | .waiting | .polling | .exited => 0
  | .swept => 1
  | .looping => 2
  | .matched _ _ => 3
  | .locking _ todo => 3 + todo.length
  | .disconnected => 7
  | .disconnecting => 8
  | .aborting => 9
  | .matching _ _ _ => 10
  | .receiving => 11

section Ends
variable {lib : ListLib KioId} {s s' : Session} {e : ReceiverEnv} {pc pc' : ReceiverPc}

/-- **Every step** brings an iteration nearer to its end. -/
theorem toGo_of_step (hpc : pc ≠ .polling) (hwait : pc ≠ .waiting)
    (h : receiverStep lib s e pc = some (s', pc')) : pc'.ends = true ∨ pc'.toGo < pc.toGo := by
  cases pc with
  | waiting => exact absurd rfl hwait
  | polling => exact absurd rfl hpc
  | receiving =>
    obtain ⟨-, rfl⟩ := Prod.mk.inj (Option.some.inj h)
    right
    split <;> simp [ReceiverPc.toGo]
  | matching rc aseq msg =>
    have h1 : receiverMatch lib s rc aseq msg e.alloc = some (s', pc') := h
    unfold receiverMatch at h1
    split_ifs at h1
    obtain ⟨⟨m, s1⟩, -, h2⟩ := Option.map_eq_some_iff.mp h1
    obtain ⟨-, rfl⟩ := Prod.mk.inj h2
    right
    cases m <;> simp [ReceiverPc.toGo]
  | matched | aborting | disconnected =>
    obtain ⟨-, rfl⟩ := Prod.mk.inj (Option.some.inj h)
    exact Or.inr (by simp [ReceiverPc.toGo, recvmsgLocks])
  | disconnecting =>
    obtain ⟨-, rfl⟩ := Prod.mk.inj (Option.some.inj h)
    right
    split_ifs <;> simp [ReceiverPc.toGo, recvmsgLocks]
  | locking held todo =>
    cases todo with
    | nil =>
      obtain ⟨-, rfl⟩ := Prod.mk.inj (Option.some.inj h)
      exact Or.inr (by simp [ReceiverPc.toGo])
    | cons q todo =>
      simp only [receiverStep] at h
      split_ifs at h
      obtain ⟨-, rfl⟩ := Prod.mk.inj (Option.some.inj h)
      right
      simp [ReceiverPc.toGo]
  | looping =>
    obtain ⟨s1, -, h1⟩ := Option.map_eq_some_iff.mp h
    obtain ⟨-, rfl⟩ := Prod.mk.inj h1
    exact Or.inr (by simp [ReceiverPc.toGo])
  | swept =>
    obtain ⟨-, rfl⟩ := Prod.mk.inj (Option.some.inj h)
    left
    split_ifs <;> rfl
  | exited => cases h

/-- **The receiver can go on** until it has left the loop or is stuck, if the match section removes
no null element. -/
theorem receiver_goes_on (hexit : pc ≠ .exited) (hstuck : pc.stuck = false)
    (hmatch : ∀ rc aseq msg, pc = .matching rc aseq msg → MatchOk lib s rc aseq)
    (halloc : e.alloc = none) : ∃ r, receiverStep lib s e pc = some r := by
  cases pc with
  | matching rc aseq msg =>
    cases hm : recvmsgMatch lib s rc aseq none with
    | none => exact absurd (hmatch rc aseq msg rfl) (recvmsgMatch_none hm)
    | some r =>
      simp only [receiverStep, receiverMatch, halloc, hm]
      simp
  | locking held todo =>
    cases todo with
    | nil => exact ⟨_, rfl⟩
    | cons q todo =>
      have hq : q ∉ held := of_decide_eq_false hstuck
      exact ⟨_, if_neg hq⟩
  | looping =>
    obtain ⟨s1, h1⟩ := sweep_some lib s
    exact ⟨_, Option.map_eq_some_iff.mpr ⟨s1, h1, rfl⟩⟩
  | exited => exact absurd rfl hexit
  | _ => exact ⟨_, rfl⟩

end Ends

/-! ### The runs -/

section Runs
variable {lib : ListLib KioId} {l l' : Life} {h : Turns} {a : LifeAct}

/-- Time passes, exit flags are raised, and no check is finished. -/
theorem Told.mono (ht : Told l h) (hpc : l'.receiver = l.receiver)
    (hexit : l.exit .recvq = true → l'.exit .recvq = true) (hlast : l'.lastcheck = l.lastcheck)
    (hnow : l.now ≤ l'.now) : Told l' h where
  clock := by
    rw [hlast]
    exact ht.clock.trans (clockGettime_mono hnow)
  turn := by
    rw [hpc]
    exact ht.turn.mono hexit hlast hnow
  ended := ht.ended

/-- A section of `ktli_close` only raises an exit flag. -/
theorem Told.closing (ht : Told l h) {rc : ℤ} {c : Close} {r : Life × Option Close}
    (hr : closeStep l rc c = some r) : Told r.1 h := by
  have hraise : ∀ q, Told (l.raise q) h := by
    refine fun q => ht.mono rfl (fun hexit => ?_) rfl le_rfl
    show Function.update l.exit q true .recvq = true
    rw [Function.update_apply]
    split_ifs
    · rfl
    · exact hexit
  rcases closeStep_cases hr with h1 | ⟨q, -, h1⟩ | ⟨q, -, h1⟩ | ⟨-, h1⟩ | ⟨-, h1⟩
  · rw [h1]
    exact ht
  · rw [h1]
    exact hraise q
  · rw [h1]
    exact ht.mono rfl id rfl le_rfl
  · rw [h1]
    exact (hraise .compq).mono rfl id rfl le_rfl
  · rw [h1]
    exact ht.mono rfl id rfl le_rfl

/-- **A step of the receiver.** -/
theorem Told.receiver (ht : Told l h) {e : ReceiverEnv} {s : System} {st : SState}
    (hs : step lib l.toSystem (.receiver e) = some s) (hst : st = s.state ∨ st = .unknown)
    (hl : l' = { l with toSystem := { s with state := st } }) :
    Told l' (Turns.record l (.sys (.receiver e)) l' h) := by
  obtain ⟨r, hr, rfl⟩ := Option.map_eq_some_iff.mp hs
  by_cases hwait : l.receiver = .waiting
  · -- the thread is in no iteration yet
    have hrec : Turns.record l (.sys (.receiver e)) l' h = h := if_pos hwait
    rw [hrec]
    rw [hwait] at hr
    obtain rfl := Option.some.inj hr
    rw [hl]
    refine ⟨ht.clock, ?_, ht.ended⟩
    dsimp only
    split_ifs
    · exact trivial
    · exact trivial
  · let t := Turn.note l.toSystem e l'.toSystem
      (if l.receiver = .polling then .begin l.toSession e else h.turn)
    have hgoes : Goes t l'.toSystem := by
      by_cases hpoll : l.receiver = .polling
      · dsimp only [t]
        rw [if_pos hpoll]
        rw [hpoll] at hr
        obtain rfl := Option.some.inj hr
        rw [hl]
        refine goes_of_poll ht.clock hpoll ⟨rfl, rfl, rfl⟩ (fun hconn => ?_) rfl
        rcases hst with rfl | rfl
        · show ¬ (l.state = .aborted ∨ l.state = .draining)
          rw [hconn]
          simp
        · simp
      · dsimp only [t]
        rw [if_neg hpoll, hl]
        exact goes_of_step ht.turn hpoll hwait hr ⟨rfl, rfl, rfl⟩
    have hrec : Turns.record l (.sys (.receiver e)) l' h =
        if l'.receiver.ends then ⟨{}, t :: h.ended⟩ else ⟨t, h.ended⟩ := if_neg hwait
    have hclock : l'.lastcheck.tvSec ≤ (clockGettime l'.now).tvSec := by
      have h1 : r.1.lastcheck.tvSec ≤ (clockGettime r.1.now).tvSec :=
        receiverStep_clock ht.clock hr
      rw [hl]
      exact h1
    unfold Goes at hgoes
    rw [hrec]
    split_ifs at hgoes ⊢ with hends
    · refine ⟨hclock, .of_ends hends, ?_⟩
      intro t' ht'
      rcases List.mem_cons.mp ht' with rfl | ht'
      · exact hgoes
      · exact ht.ended t' ht'
    · exact ⟨hclock, hgoes, ht.ended⟩

theorem told_step (ht : Told l h) (hstep : lifeStep lib l a = some l') :
    Told l' (Turns.record l a l' h) := by
  cases a with
  | close =>
    obtain rfl := Option.some.inj hstep
    exact ht.mono rfl id rfl le_rfl
  | closing c rc =>
    simp only [lifeStep] at hstep
    split_ifs at hstep
    obtain ⟨r, hr, rfl⟩ := Option.map_eq_some_iff.mp hstep
    exact (ht.closing hr).mono rfl id rfl le_rfl
  | sys a =>
    obtain ⟨s, st, hs, hst, hl⟩ := lifeStep_sys hstep
    by_cases ha : ∃ e, a = .receiver e
    · obtain ⟨e, rfl⟩ := ha
      exact ht.receiver hs hst hl
    · have hne : ∀ e, a ≠ .receiver e := fun e he => ha ⟨e, he⟩
      have hrec : Turns.record l (.sys a) l' h = h := by
        cases a with
        | receiver e => exact absurd rfl (hne e)
        | _ => rfl
      obtain ⟨h1, h2, h3⟩ := step_steady hs hne
      have hpc : s.receiver = l.receiver := receiver_of_step hs hne
      rw [hrec, hl]
      exact ht.mono hpc (fun hexit => by rwa [← h1] at hexit) h2 h3

end Runs

/-! ### An iteration that leaves the loop, and one that does nothing -/

/-- A session is connected, and the receiver enters its loop. -/
def enterLoop : List LifeAct :=
  [.sys (.connect 0), .sys (.call .connected true), .sys (.receiver quietEnv)]

/-- The session is disconnected, drained and closed, up to the exit flag of recvq. -/
def closeReceiver : List LifeAct :=
  ([.disconnect 0, .call .disconnected true, .drain, .call (.drainLock [.compq, .recvq, .sendq]) true,
    .call (.drainLock [.recvq, .sendq]) true, .call (.drainLock [.sendq]) true,
    .call (.drainLock []) true] : List Act).map .sys ++
  [.close, .closing (.sizes [.sendq, .recvq, .compq]) 0, .closing (.sizes [.recvq, .compq]) 0,
    .closing (.sizes [.compq]) 0, .closing (.sizes []) 0, .closing .driver 0,
    .closing (.exiting .sendq) 0, .sys (.sender 0 0), .sys (.sender 0 0),
    .closing (.joining .sendq) 0, .closing (.exiting .recvq) 0]

end Libkinetic.Ktli
