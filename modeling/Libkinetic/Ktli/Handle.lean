import Libkinetic.Ktli.Closing

/-! # The driver's handle

`ktli_close` has the driver close and free its handle before it tells the receiver to exit, and the
receiver polls with it. A log beside the session follows the handle and, for the socket driver, its
descriptor. A close that never uses the freed handle frees it between a poll and the receiver's look
at its exit flag (`clean_close_between_polls`). A socket that was shut down reports a hangup at
every poll, and is closed in no other way (`close_after_shutdown`). -/

namespace Libkinetic.Ktli

open Libkinetic.Base.CursorList Libkinetic.Base.Runs

/-! ### The driver's handle -/

/-- What the descriptor of the socket driver's handle is. -/
inductive Fd
  /-- The placeholder of the driver's open. -/
  | fresh
  | connected
  | shut
  | closed
deriving DecidableEq

/-- What became of the handle. -/
structure Handle where
  fd : Fd := .fresh
  /-- Where the receiver stood when the handle was freed. -/
  freedAt : Option ReceiverPc := none
  /-- The driver was called with the freed handle. -/
  misused : Bool := false

/-- The receiver calls the driver before it looks at its exit flag. -/
def ReceiverPc.toCall : ReceiverPc → Bool
  | .waiting | .polling | .receiving => true
  | _ => false

/-- The receiver is in an iteration, done with its calls of the driver. -/
def ReceiverPc.called : ReceiverPc → Bool
  | .matching _ _ _ | .matched _ _ | .looping | .swept => true
  | _ => false

def SenderPc.sending : SenderPc → Bool
  | .timed _ => true
  | _ => false

/-- The driver can be disconnected. -/
def SState.live (st : SState) : Bool := st = .connected ∨ st = .aborted

/-- The step calls the driver with the handle. -/
def LifeAct.drives (l : Life) : LifeAct → Bool
  | .sys (.receiver _) => l.receiver = .polling ∨ l.receiver = .receiving ∨
      (l.receiver = .disconnecting ∧ l.state.live = true)
  | .sys (.sender _ _) => l.sender.sending
  | .sys (.connect _) => l.state = .opened
  | .sys (.disconnect _) => l.state.live
  | .closing .driver _ => true
  | _ => false

/-- The descriptor after a step. -/
def Fd.after (l : Life) (a : LifeAct) (fd : Fd) : Fd :=
  match a with
  | .sys (.connect rc) => if l.state = .opened ∧ rc ≠ -1 then .connected else fd
  | .sys (.disconnect rc) => if l.state.live ∧ rc ≠ -1 then .shut else fd
  | .sys (.receiver e) =>
    if l.receiver = .disconnecting ∧ l.state.live ∧ e.discRc ≠ -1 then .shut else fd
  | .closing .driver rc => if rc = -1 then fd else .closed
  | _ => fd

/-- What a step adds to the log. -/
def Handle.record (l : Life) (a : LifeAct) (_ : Life) (g : Handle) : Handle where
  fd := g.fd.after l a
  freedAt :=
    match a with
    | .closing .driver rc => if rc = -1 then g.freedAt else g.freedAt.or (some l.receiver)
    | _ => g.freedAt
  misused := g.misused || (g.freedAt.isSome && a.drives l)

def InitHandle (p : Life × Handle) : Prop := LifeInit p.1 ∧ p.2 = {}

/-- The section comes after the driver's close. -/
def Close.late : Close → Bool
  | .sizes _ | .driver => false
  | _ => true

/-- On its error path `ktli_recvmsg` has taken no lock twice. -/
def ReceiverPc.lockable : ReceiverPc → Prop
  | .locking held todo => held.Nodup ∧ held.reverse ++ todo = recvmsgLocks
  | _ => True

/-- **The invariant**: no thread is told to exit before the handle is freed. -/
structure Handled (l : Life) (g : Handle) : Prop where
  joined : Joined l
  lockable : l.receiver.lockable
  late : ∀ c ∈ l.closing, c.late = true → g.freedAt.isSome = true
  exit : ∀ q, l.exit q = true → g.freedAt.isSome = true
  exited : l.receiver = .exited → g.freedAt.isSome = true
  /-- A receiver that had to call the driver when the handle was freed has done so or still has
  to, and one on the error path is still there. -/
  fate : ∀ pc ∈ g.freedAt, pc.called = true ∨ g.misused = true ∨ l.receiver.toCall = true ∨
    l.receiver.erring = true

section Handled
variable {lib : ListLib KioId} {l l' : Life} {g : Handle} {a : LifeAct}

/-- Between two polls the receiver is done with the driver, or it is on the error path. -/
theorem receiverStep_lockable {s s' : Session} {e : ReceiverEnv} {pc pc' : ReceiverPc}
    (hpc : pc.lockable) (h : receiverStep lib s e pc = some (s', pc')) : pc'.lockable := by
  cases pc with
  | waiting | polling | swept =>
    obtain ⟨-, rfl⟩ := Prod.mk.inj (Option.some.inj h)
    split_ifs <;> trivial
  | receiving =>
    obtain ⟨-, rfl⟩ := Prod.mk.inj (Option.some.inj h)
    split <;> trivial
  | matching rc aseq msg =>
    have h1 : receiverMatch lib s rc aseq msg e.alloc = some (s', pc') := h
    unfold receiverMatch at h1
    split_ifs at h1
    obtain ⟨⟨m, s1⟩, -, h2⟩ := Option.map_eq_some_iff.mp h1
    obtain ⟨-, rfl⟩ := Prod.mk.inj h2
    cases m <;> trivial
  | matched | aborting =>
    obtain ⟨-, rfl⟩ := Prod.mk.inj (Option.some.inj h)
    trivial
  | disconnecting =>
    obtain ⟨-, rfl⟩ := Prod.mk.inj (Option.some.inj h)
    split_ifs
    · exact ⟨List.nodup_nil, rfl⟩
    · trivial
  | disconnected =>
    obtain ⟨-, rfl⟩ := Prod.mk.inj (Option.some.inj h)
    exact ⟨List.nodup_nil, rfl⟩
  | locking held todo =>
    cases todo with
    | nil =>
      obtain ⟨-, rfl⟩ := Prod.mk.inj (Option.some.inj h)
      trivial
    | cons q todo =>
      simp only [receiverStep] at h
      split_ifs at h with hq
      obtain ⟨-, rfl⟩ := Prod.mk.inj (Option.some.inj h)
      exact ⟨List.nodup_cons.mpr ⟨hq, hpc.1⟩, by simpa using hpc.2⟩
  | looping =>
    obtain ⟨s1, -, h1⟩ := Option.map_eq_some_iff.mp h
    obtain ⟨-, rfl⟩ := Prod.mk.inj h1
    trivial
  | exited => cases h

/-- **The error path is not left**: recvq is to be locked twice. -/
theorem receiverStep_erring {s s' : Session} {e : ReceiverEnv} {pc pc' : ReceiverPc}
    (hpc : pc.lockable) (herr : pc.erring = true) (h : receiverStep lib s e pc = some (s', pc')) :
    pc'.erring = true := by
  cases pc with
  | aborting | disconnected =>
    obtain ⟨-, rfl⟩ := Prod.mk.inj (Option.some.inj h)
    rfl
  | disconnecting =>
    obtain ⟨-, rfl⟩ := Prod.mk.inj (Option.some.inj h)
    split_ifs <;> rfl
  | locking held todo =>
    cases todo with
    | nil =>
      obtain ⟨hnodup, hall⟩ := hpc
      rw [List.append_nil] at hall
      have : recvmsgLocks.Nodup := hall ▸ List.nodup_reverse.mpr hnodup
      exact absurd this (by decide)
    | cons q todo =>
      simp only [receiverStep] at h
      split_ifs at h
      obtain ⟨-, rfl⟩ := Prod.mk.inj (Option.some.inj h)
      rfl
  | waiting | polling | receiving | matching | matched | looping | swept | exited => cases herr

/-- The receiver exits once it has seen its exit flag. -/
theorem receiverStep_exited {s s' : Session} {e : ReceiverEnv} {pc : ReceiverPc}
    (h : receiverStep lib s e pc = some (s', .exited)) : s.exit .recvq = true := by
  cases pc with
  | swept =>
    obtain ⟨-, h1⟩ := Prod.mk.inj (Option.some.inj h)
    split_ifs at h1 with hexit
    exact hexit
  | waiting | polling | disconnecting =>
    obtain ⟨-, h1⟩ := Prod.mk.inj (Option.some.inj h)
    split_ifs at h1
  | receiving =>
    obtain ⟨-, h1⟩ := Prod.mk.inj (Option.some.inj h)
    split at h1 <;> cases h1
  | matching rc aseq msg =>
    have h1 : receiverMatch lib s rc aseq msg e.alloc = some (s', .exited) := h
    unfold receiverMatch at h1
    split_ifs at h1
    obtain ⟨⟨m, s1⟩, -, h2⟩ := Option.map_eq_some_iff.mp h1
    cases m <;> cases (Prod.mk.inj h2).2
  | matched | aborting | disconnected =>
    obtain ⟨-, h1⟩ := Prod.mk.inj (Option.some.inj h)
    cases h1
  | locking held todo =>
    cases todo with
    | nil =>
      obtain ⟨-, h1⟩ := Prod.mk.inj (Option.some.inj h)
      cases h1
    | cons q todo =>
      simp only [receiverStep] at h
      split_ifs at h
      cases (Prod.mk.inj (Option.some.inj h)).2
  | looping =>
    obtain ⟨s1, -, h1⟩ := Option.map_eq_some_iff.mp h
    cases (Prod.mk.inj h1).2
  | exited => cases h

/-- A receiver that has to call the driver does so, or still has to. -/
theorem receiverStep_toCall {e : ReceiverEnv} {r : Session × ReceiverPc}
    (hpc : l.receiver.toCall = true) (h : receiverStep lib l.toSession e l.receiver = some r) :
    (LifeAct.sys (.receiver e)).drives l = true ∨ r.2.toCall = true := by
  cases hr : l.receiver with
  | waiting =>
    rw [hr] at h
    obtain rfl := Option.some.inj h
    right
    dsimp only
    split_ifs <;> rfl
  | polling => exact Or.inl (decide_eq_true (Or.inl hr))
  | receiving => exact Or.inl (decide_eq_true (Or.inr (Or.inl hr)))
  | _ =>
    rw [hr] at hpc
    cases hpc

theorem Handled.init (h : LifeInit l) : Handled l {} := by
  obtain ⟨s, ⟨now, rfl⟩, rfl⟩ := h
  exact ⟨.init ⟨_, ⟨now, rfl⟩, rfl⟩, trivial, fun c hc => (by cases hc), fun q hq => (by cases hq),
    fun hpc => (by cases hpc), fun pc hpc => (by cases hpc)⟩

/-- **The receiver** goes on. -/
theorem Handled.receive (hl : Handled l g) {e : ReceiverEnv}
    (h : lifeStep lib l (.sys (.receiver e)) = some l') :
    Handled l' (g.record l (.sys (.receiver e)) l') := by
  have hjoined := hl.joined.step h
  obtain ⟨s, st, hs, -, rfl⟩ := lifeStep_sys h
  obtain ⟨r, hr, rfl⟩ := Option.map_eq_some_iff.mp hs
  refine ⟨hjoined, receiverStep_lockable hl.lockable hr, hl.late, fun q hq => ?_, fun hpc => ?_,
    fun pc hpc => ?_⟩
  · have hexit : r.1.exit = l.exit := receiverStep_exit hr
    exact hl.exit q (hexit ▸ hq)
  · have hpc1 : r.2 = .exited := hpc
    have hr1 : receiverStep lib l.toSession e l.receiver = some (r.1, .exited) := hpc1 ▸ hr
    exact hl.exit .recvq (receiverStep_exited hr1)
  · rcases hl.fate pc hpc with hcalled | hmis | htocall | herr
    · exact Or.inl hcalled
    · exact Or.inr (Or.inl (Bool.or_eq_true_iff.mpr (Or.inl hmis)))
    · rcases receiverStep_toCall htocall hr with hdrives | htocall'
      · refine Or.inr (Or.inl (Bool.or_eq_true_iff.mpr (Or.inr ?_)))
        exact Bool.and_eq_true_iff.mpr ⟨Option.isSome_iff_exists.mpr ⟨pc, hpc⟩, hdrives⟩
      · exact Or.inr (Or.inr (Or.inl htocall'))
    · exact Or.inr (Or.inr (Or.inr (receiverStep_erring hl.lockable herr hr)))

/-- What a step that is not of the receiver and not a close of the driver keeps. -/
theorem Handled.of_frame (hl : Handled l g) (hjoined : Joined l')
    (hpc : l'.receiver = l.receiver) (hfreed : (g.record l a l').freedAt = g.freedAt)
    (hlate : ∀ c ∈ l'.closing, c.late = true → g.freedAt.isSome = true)
    (hexit : ∀ q, l'.exit q = true → g.freedAt.isSome = true) :
    Handled l' (g.record l a l') := by
  refine ⟨hjoined, hpc ▸ hl.lockable, ?_, ?_, ?_, fun pc hmem => ?_⟩
  · rw [hfreed]
    exact hlate
  · rw [hfreed]
    exact hexit
  · rw [hfreed, hpc]
    exact hl.exited
  · rw [hfreed] at hmem
    rw [hpc]
    rcases hl.fate pc hmem with hcalled | hmis | hrest
    · exact Or.inl hcalled
    · exact Or.inr (Or.inl (Bool.or_eq_true_iff.mpr (Or.inl hmis)))
    · exact Or.inr (Or.inr hrest)

/-- The sections that come after the driver's close lead to such sections. -/
theorem Close.late_next {c c' : Close} (hc : c ≠ .driver) (h : c.next = some c')
    (hlate : c'.late = true) : c.late = true := by
  cases c with
  | sizes todo => cases todo <;> obtain rfl := Option.some.inj h <;> cases hlate
  | driver => exact absurd rfl hc
  | _ => rfl

theorem ReceiverPc.toCall_or (pc : ReceiverPc) :
    pc = .exited ∨ pc.called = true ∨ pc.toCall = true ∨ pc.erring = true := by
  cases pc with
  | exited => exact Or.inl rfl
  | matching | matched | looping | swept => exact Or.inr (Or.inl rfl)
  | waiting | polling | receiving => exact Or.inr (Or.inr (Or.inl rfl))
  | _ => exact Or.inr (Or.inr (Or.inr rfl))

/-- **The driver's close** frees the handle. -/
theorem Handled.driver (hl : Handled l g) {rc : ℤ} (hrc : rc ≠ -1)
    (h : lifeStep lib l (.closing .driver rc) = some l') :
    Handled l' (g.record l (.closing .driver rc) l') := by
  have hjoined := hl.joined.step h
  simp only [lifeStep] at h
  split_ifs at h with hc
  obtain ⟨r, hr, rfl⟩ := Option.map_eq_some_iff.mp h
  obtain rfl := Option.some.inj hr
  have hfreed : ∀ l', (g.record l (.closing .driver rc) l').freedAt =
      g.freedAt.or (some l.receiver) := fun l' => if_neg hrc
  have hsome : ∀ l', (g.record l (.closing .driver rc) l').freedAt.isSome = true := by
    intro l'
    rw [hfreed, Option.isSome_or]
    exact Bool.or_true _
  refine ⟨hjoined, hl.lockable, fun _ _ _ => hsome _, fun _ _ => hsome _, fun _ => hsome _,
    fun pc hpc => ?_⟩
  rw [hfreed] at hpc
  cases hfirst : g.freedAt with
  | some pc0 =>
    rw [hfirst] at hpc
    obtain rfl : pc0 = pc := Option.some.inj hpc
    rcases hl.fate pc0 hfirst with hcalled | hmis | hrest
    · exact Or.inl hcalled
    · exact Or.inr (Or.inl (Bool.or_eq_true_iff.mpr (Or.inl hmis)))
    · exact Or.inr (Or.inr hrest)
  | none =>
    rw [hfirst] at hpc
    obtain rfl : l.receiver = pc := Option.some.inj hpc
    rcases l.receiver.toCall_or with hexited | hcalled | hrest
    · have hno := hl.exited hexited
      rw [hfirst] at hno
      cases hno
    · exact Or.inl hcalled
    · exact Or.inr (Or.inr hrest)

/-- **The other sections of `ktli_close`** come before the handle is freed, or after. -/
theorem Handled.closing (hl : Handled l g) {c : Close} {rc : ℤ} (hdriver : c = .driver → rc = -1)
    (h : lifeStep lib l (.closing c rc) = some l') :
    Handled l' (g.record l (.closing c rc) l') := by
  have hjoined := hl.joined.step h
  have hpc : l'.receiver = l.receiver := receiver_of_lifeStep h fun e he => by cases he
  simp only [lifeStep] at h
  split_ifs at h with hc
  obtain ⟨r, hr, rfl⟩ := Option.map_eq_some_iff.mp h
  refine hl.of_frame hjoined hpc ?_ (fun c' hc' hlate => ?_) fun q hq => ?_
  · cases c with
    | driver => exact if_pos (hdriver rfl)
    | _ => rfl
  · rcases List.mem_append.mp hc' with hc' | hc'
    · have hnext := Option.mem_toList.mp hc'
      by_cases hcd : c = .driver
      · subst hcd
        obtain rfl := hdriver rfl
        obtain rfl := Option.some.inj hr
        cases hnext
      · rcases closeStep_next hr with h1 | h1
        · rw [h1] at hnext
          cases hnext
        · exact hl.late c hc (Close.late_next hcd (h1 ▸ hnext) hlate)
    · exact hl.late c' (List.mem_of_mem_erase hc') hlate
  · rcases closeStep_cases hr with h1 | ⟨q', rfl, -⟩ | ⟨q', rfl, -⟩ | ⟨rfl, -⟩ | ⟨rfl, -⟩
    · have hq1 : l.exit q = true := h1 ▸ hq
      exact hl.exit q hq1
    · exact hl.late _ hc rfl
    · exact hl.late _ hc rfl
    · exact hl.late _ hc rfl
    · exact hl.late _ hc rfl

/-- **Every step** keeps the invariant. -/
theorem Handled.step (hl : Handled l g) (h : lifeStep lib l a = some l') :
    Handled l' (g.record l a l') := by
  cases a with
  | sys a =>
    by_cases ha : ∃ e, a = .receiver e
    · obtain ⟨e, rfl⟩ := ha
      exact hl.receive h
    · have hjoined := hl.joined.step h
      obtain ⟨s, st, hs, -, rfl⟩ := lifeStep_sys h
      have hne : ∀ e, a ≠ .receiver e := fun e he => ha ⟨e, he⟩
      have hpc : s.receiver = l.receiver := receiver_of_step hs hne
      refine hl.of_frame hjoined hpc rfl hl.late fun q hq => ?_
      have hexit : s.exit = l.exit := (step_steady hs hne).1
      exact hl.exit q (hexit ▸ hq)
  | close =>
    have hjoined := hl.joined.step h
    obtain rfl := Option.some.inj h
    refine hl.of_frame hjoined rfl rfl (fun c hc hlate => ?_) hl.exit
    rcases List.mem_append.mp hc with hc | hc
    · unfold closeBegin at hc
      split_ifs at hc
      · obtain rfl := List.mem_singleton.mp hc
        cases hlate
      · cases hc
    · exact hl.late c hc hlate
  | closing c rc =>
    by_cases hdriver : c = .driver ∧ rc ≠ -1
    · obtain ⟨rfl, hrc⟩ := hdriver
      exact hl.driver hrc h
    · exact hl.closing (fun hc => not_not.mp fun hrc => hdriver ⟨hc, hrc⟩) h

theorem handled_of_reach {p : Life × Handle} {ok : Life × Handle → LifeAct → Prop}
    (h : Reach (logged (lifeStep lib) Handle.record) ok InitHandle p) : Handled p.1 p.2 := by
  refine h.invariant (I := fun p => Handled p.1 p.2) ?_ ?_
  · rintro ⟨l, g⟩ ⟨hl, rfl⟩
    exact .init hl
  · rintro ⟨l, g⟩ ⟨l', g'⟩ a hs - hstep
    obtain ⟨h1, h2⟩ := logged_some hstep
    dsimp only at h1 h2
    rw [h2]
    exact hs.step h1

end Handled

/-- **A close that never uses the freed handle** frees it while the receiver is done with a poll and
has not yet looked at its exit flag: in every run that ends a close in any other way, the driver was
called with the freed handle. -/
theorem clean_close_between_polls (lib : ListLib KioId) (p : Life × Handle)
    (h : Reach (logged (lifeStep lib) Handle.record) always InitHandle p)
    (hclosed : p.1.closed = true) (hclean : p.2.misused = false) :
    ∃ pc, p.2.freedAt = some pc ∧ pc.called = true := by
  have hl := handled_of_reach h
  have hpc : p.1.receiver = .exited := hl.joined.closed hclosed
  obtain ⟨pc, hpc1⟩ := Option.isSome_iff_exists.mp (hl.exited hpc)
  refine ⟨pc, hpc1, ?_⟩
  rcases hl.fate pc hpc1 with hcalled | hmis | htocall | herr
  · exact hcalled
  · rw [hclean] at hmis
    cases hmis
  · rw [hpc] at htocall
    cases htocall
  · rw [hpc] at herr
    cases herr

/-- A session is closed between two polls. -/
def cleanClose : List LifeAct :=
  pollAndDrain ++ closeToReceiver ++ toPoll ++ closeRest

theorem cleanClose_between : ∃ p : Life × Handle,
    run (logged (lifeStep (ListLib.next KioId)) Handle.record) ({ now := 5 }, {}) cleanClose =
      some p ∧ p.1.closed = true ∧ p.2.misused = false ∧
      ∃ pc, p.2.freedAt = some pc ∧ pc.called = true := by
  obtain ⟨p, hp, hq⟩ := Option.map_eq_some_iff.mp
    (show (run (logged (lifeStep (ListLib.next KioId)) Handle.record) ({ now := 5 }, {})
      cleanClose).map (fun p => (p.1.closed, p.2.misused)) = some (true, false) by decide)
  have hreach : Reach (logged (lifeStep (ListLib.next KioId)) Handle.record) always InitHandle p :=
    reach_of_run ⟨⟨_, ⟨_, rfl⟩, rfl⟩, rfl⟩ (runOk_always _ _) hp
  obtain ⟨hclosed, hclean⟩ := Prod.mk.inj hq
  exact ⟨p, hp, hclosed, hclean, clean_close_between_polls _ p hreach hclosed hclean⟩

/-! ### The socket driver -/

/-- What `poll` reports of a descriptor. -/
structure Revents where
  hup : Bool := false
  inp : Bool := false

/-- `ktli_socket_poll`, with what `poll` returns and reports. -/
def ktliSocketPoll (rc : ℤ) (rev : Revents) : ℤ :=
  if rc < 0 then -1
  else if rc ≠ 0 ∧ rev.hup then -1
  else if rc ≠ 0 ∧ rev.inp then 1
  -- an event that was not asked for
  else if rc ≠ 0 then -1
  else 0

/-- A socket that was shut down in both directions is reported as hung up. -/
def Fd.Reports (fd : Fd) (rc : ℤ) (rev : Revents) : Prop :=
  fd = .shut → rc < 0 ∨ (0 < rc ∧ rev.hup = true)

/-- What the driver's poll can return. -/
def Fd.Polls (fd : Fd) (r : ℤ) : Prop := ∃ rc rev, fd.Reports rc rev ∧ r = ktliSocketPoll rc rev

theorem Fd.polls_iff (fd : Fd) (r : ℤ) :
    fd.Polls r ↔ r = -1 ∨ (fd ≠ .shut ∧ (r = 0 ∨ r = 1)) := by
  constructor
  · rintro ⟨rc, rev, hrep, rfl⟩
    by_cases hfd : fd = .shut
    · left
      unfold ktliSocketPoll
      rcases hrep hfd with hrc | ⟨hrc, hhup⟩
      · exact if_pos hrc
      · rw [if_neg (by omega), if_pos ⟨by omega, hhup⟩]
    · unfold ktliSocketPoll
      split_ifs <;> simp [hfd]
  · rintro (rfl | ⟨hfd, rfl | rfl⟩)
    · exact ⟨-1, {}, fun _ => Or.inl (by decide), rfl⟩
    · exact ⟨0, {}, fun h => absurd h hfd, rfl⟩
    · exact ⟨1, { inp := true }, fun h => absurd h hfd, rfl⟩

instance (fd : Fd) (r : ℤ) : Decidable (fd.Polls r) := decidable_of_iff' _ (fd.polls_iff r)

/-- The driver is the socket driver, and nobody connects the session again. -/
def SocketPolls (p : Life × Handle) : LifeAct → Prop
  | .sys (.receiver e) => p.1.receiver = .polling → p.2.fd.Polls e.poll
  | .sys (.connect rc) => rc = -1
  | _ => True

instance (p : Life × Handle) : ∀ a, Decidable (SocketPolls p a)
  | .sys (.receiver e) =>
    inferInstanceAs (Decidable (p.1.receiver = .polling → p.2.fd.Polls e.poll))
  | .sys (.connect rc) => inferInstanceAs (Decidable (rc = -1))
  | .sys (.send _ _ _) | .sys (.receive _) | .sys .receiveUnsolicited | .sys .drain
  | .sys (.drainMatch _) | .sys (.disconnect _) | .sys (.call _ _) | .sys (.sender _ _)
  | .sys (.tick _) | .close | .closing _ _ => isTrue trivial

/-- The receiver polls a socket that is shut down, or with a handle that is freed, unless it has
done the latter. -/
def HangsUp (p : Life × Handle) : Prop :=
  p.2.misused = true ∨
    (p.1.receiver = .polling ∧ (p.2.fd = .shut ∨ p.2.freedAt.isSome = true))

section HangsUp
variable {lib : ListLib KioId} {p p' : Life × Handle} {a : LifeAct}

/-- A freed handle stays freed. -/
theorem Handle.freedAt_mono {l : Life} {g : Handle} (l' : Life) (h : g.freedAt.isSome = true) :
    (g.record l a l').freedAt.isSome = true := by
  unfold Handle.record
  dsimp only
  split
  · split_ifs
    · exact h
    · rw [Option.isSome_or, h, Bool.true_or]
  · exact h

/-- A socket that is shut down stays so until it is connected again or its handle is freed. -/
theorem shut_or_freed {l : Life} {g : Handle} (l' : Life) (hfd : g.fd = .shut)
    (ha : ∀ e, a ≠ .sys (.receiver e)) (hok : ∀ rc, a = .sys (.connect rc) → rc = -1) :
    (g.record l a l').fd = .shut ∨ (g.record l a l').freedAt.isSome = true := by
  cases a with
  | close => exact Or.inl hfd
  | closing c rc =>
    cases c with
    | driver =>
      by_cases hrc : rc = -1
      · exact Or.inl ((if_pos hrc).trans hfd)
      · right
        have hfreed : (g.record l (.closing .driver rc) l').freedAt =
            g.freedAt.or (some l.receiver) := if_neg hrc
        rw [hfreed, Option.isSome_or]
        exact Bool.or_true _
    | _ => exact Or.inl hfd
  | sys a =>
    left
    cases a with
    | connect rc =>
      have hno : ¬ (l.state = .opened ∧ rc ≠ -1) := fun h => h.2 (hok rc rfl)
      exact (if_neg hno).trans hfd
    | disconnect rc =>
      show (if l.state.live ∧ rc ≠ -1 then Fd.shut else g.fd) = .shut
      split_ifs
      · rfl
      · exact hfd
    | receiver e => exact absurd rfl (ha e)
    | _ => exact hfd

theorem HangsUp.step (hp : HangsUp p) (hok : SocketPolls p a)
    (h : logged (lifeStep lib) Handle.record p a = some p') : HangsUp p' := by
  obtain ⟨l, g⟩ := p
  obtain ⟨l', g'⟩ := p'
  obtain ⟨h1, h2⟩ := logged_some h
  dsimp only at h1 h2
  subst h2
  rcases hp with hmis | ⟨hpc, hfd⟩
  · exact Or.inl (Bool.or_eq_true_iff.mpr (Or.inl hmis))
  dsimp only at hpc hfd
  by_cases ha : ∃ e, a = .sys (.receiver e)
  · obtain ⟨e, rfl⟩ := ha
    rcases hfd with hshut | hfreed
    · right
      have hpoll : e.poll = -1 := by
        rcases (Fd.polls_iff _ _).mp (hok hpc) with h | ⟨h, -⟩
        · exact h
        · exact absurd hshut h
      obtain ⟨s, st, hs, -, rfl⟩ := lifeStep_sys h1
      obtain ⟨r, hr, rfl⟩ := Option.map_eq_some_iff.mp hs
      rw [hpc] at hr
      obtain rfl := Option.some.inj hr
      refine ⟨if_pos (by rw [hpoll]; decide), Or.inl ?_⟩
      have hno : ¬ (l.receiver = .disconnecting ∧ l.state.live ∧ e.discRc ≠ -1) := by
        rw [hpc]
        exact fun h => by cases h.1
      exact (if_neg hno).trans hshut
    · left
      refine Bool.or_eq_true_iff.mpr (Or.inr (Bool.and_eq_true_iff.mpr ⟨hfreed, ?_⟩))
      exact decide_eq_true (Or.inl hpc)
  · right
    refine ⟨(receiver_of_lifeStep h1 fun e he => ha ⟨e, he⟩).trans hpc, ?_⟩
    rcases hfd with hshut | hfreed
    · exact shut_or_freed l' hshut (fun e he => ha ⟨e, he⟩) fun rc hrc => by subst hrc; exact hok
    · exact Or.inr (Handle.freedAt_mono l' hfreed)

end HangsUp

/-- **Once the socket is shut down** and the receiver back at its poll, which then reports a hangup
every time, a close can only end if the receiver polls with the freed handle. -/
theorem close_after_shutdown (lib : ListLib KioId) (p p' : Life × Handle) (as : List LifeAct)
    (h : Reach (logged (lifeStep lib) Handle.record) always InitHandle p)
    (hpc : p.1.receiver = .polling) (hfd : p.2.fd = .shut)
    (hrun : Leads (logged (lifeStep lib) Handle.record) SocketPolls p as p')
    (hclosed : p'.1.closed = true) : p'.2.misused = true := by
  have hl := handled_of_reach h
  -- the run goes on from `p`
  have hreach : Reach (logged (lifeStep lib) Handle.record) SocketPolls (fun q => q = p) p' :=
    hrun.reach (.start rfl)
  obtain ⟨hjoined, hup⟩ : Joined p'.1 ∧ HangsUp p' := by
    refine hreach.invariant (I := fun q => Joined q.1 ∧ HangsUp q) ?_ ?_
    · rintro q rfl
      exact ⟨hl.joined, Or.inr ⟨hpc, Or.inl hfd⟩⟩
    · rintro q q' a ⟨hq, hup⟩ hok hstep
      exact ⟨hq.step (logged_some hstep).1, hup.step hok hstep⟩
  rcases hup with hmis | ⟨hpc', -⟩
  · exact hmis
  · have hexit := hjoined.closed hclosed
    rw [hpc'] at hexit
    cases hexit

/-- The hangup of a disconnected session is polled, and the session is closed. -/
def closeHungUp : List LifeAct :=
  .sys (.receiver { quietEnv with poll := -1 }) :: closeToReceiver ++
    List.replicate 3 (.sys (.receiver quietEnv)) ++ closeRest

theorem closeHungUp_misuses : ∃ p p' : Life × Handle,
    run (logged (lifeStep (ListLib.next KioId)) Handle.record) ({ now := 5 }, {})
      (pollAndDrain ++ toPoll) = some p ∧
    run (logged (lifeStep (ListLib.next KioId)) Handle.record) p closeHungUp = some p' ∧
    p'.1.closed = true ∧ p'.2.misused = true := by
  obtain ⟨p, hp, hq⟩ := Option.map_eq_some_iff.mp
    (show (run (logged (lifeStep (ListLib.next KioId)) Handle.record) ({ now := 5 }, {})
      (pollAndDrain ++ toPoll)).map (fun p =>
        (p.1.receiver, p.2.fd,
          decide (RunOk (logged (lifeStep (ListLib.next KioId)) Handle.record) SocketPolls p
            closeHungUp),
          (run (logged (lifeStep (ListLib.next KioId)) Handle.record) p closeHungUp).map
            fun p' => p'.1.closed)) = some (.polling, .shut, true, some true) by decide)
  obtain ⟨hpc, hq⟩ := Prod.mk.inj hq
  obtain ⟨hfd, hq⟩ := Prod.mk.inj hq
  obtain ⟨hok, hq⟩ := Prod.mk.inj hq
  obtain ⟨p', hp', hclosed⟩ := Option.map_eq_some_iff.mp hq
  have hreach : Reach (logged (lifeStep (ListLib.next KioId)) Handle.record) always InitHandle p :=
    reach_of_run ⟨⟨_, ⟨_, rfl⟩, rfl⟩, rfl⟩ (runOk_always _ _) hp
  exact ⟨p, p', hp, hp', hclosed, close_after_shutdown _ p p' closeHungUp hreach hpc hfd
    ⟨hp', of_decide_eq_true hok⟩ hclosed⟩

end Libkinetic.Ktli
