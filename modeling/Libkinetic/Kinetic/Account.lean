import Libkinetic.Kinetic.Stat

/-! # Accounting

Runs of operations on a session. They are issued and completed in any order, each with any outcome,
and at every moment the counters of a kind should have grown by the number of operations of that
kind that are over. -/

namespace Libkinetic.Kinetic

open Libkinetic.Base.Runs

/-- An operation whose request was sent. -/
structure Pending where
  op : Op
  sendlen : ℕ
deriving DecidableEq

/-- The statistics of a session and the operations in flight, with the number of operations that are
over. -/
structure StatSys where
  kst : Kop → Kopstat := fun _ => {}
  kios : List Pending := []
  finished : Kop → ℕ := fun _ => 0

/-- A call: to issue an operation, or to complete the one of a kio. -/
inductive StatAct
  | issue (op : Op) (e : IssueEnv)
  | complete (i : ℕ) (a : Arrival) (ts : KioTs)

/-- The entries of a call are added to the counters of a kind. -/
def StatSys.count (s : StatSys) (kop : Kop) (ts : KioTs) (events : List KopEv) : StatSys :=
  { s with kst := Function.update s.kst kop (events.foldl (KopEv.count ts) (s.kst kop)) }

/-- An operation of a kind is over. -/
def StatSys.finish (s : StatSys) (kop : Kop) : StatSys :=
  { s with finished := Function.update s.finished kop (s.finished kop + 1) }

/-- A completion has returned; the kio is gone if it was available. -/
def StatSys.complete (s : StatSys) (i : ℕ) (kop : Kop) (a : Arrival) (ts : KioTs) (krc : KStatus)
    (events : List KopEv) : StatSys :=
  let s := s.count kop ts events
  let s := { s with kios := if a.resp = none then s.kios else s.kios.eraseIdx i }
  if krc = .kEagain then s else s.finish kop

/-- **A call on a session**, which `ktli_config` finds. An operation is over when issuing it fails,
and when its completion returns another status than `K_EAGAIN`. -/
def statStep (ses : Ksession) (s : StatSys) : StatAct → Option StatSys
  | .issue op e =>
    let r := op.issue { e with config := true } ses
    let s := s.count op.kop {} r.events
    some (if r.krc = .kOk then { s with kios := s.kios ++ [⟨op, r.sendlen⟩] }
      else s.finish op.kop)
  | .complete i a ts =>
    s.kios[i]?.map fun p =>
      let (krc, events) := p.op.complete ses p.sendlen a
      s.complete i p.op.kop a ts krc events

/-- The counters of every kind have grown by the number of operations that are over. -/
def Balanced (kst : Kop → Kopstat) (s : StatSys) : Prop :=
  ∀ kop, (s.kst kop).total = (kst kop).total + s.finished kop

/-- The kio that a completion takes did not time out or fail, and the operation does not take the
status `K_EAGAIN` from the server. -/
def Clean (s : StatSys) : StatAct → Prop
  | .issue .. => True
  | .complete i a _ =>
    ∀ p ∈ s.kios[i]?, ∀ r ∈ a.resp, r ≠ .timedout ∧ r ≠ .failed ∧ p.op.again r = false

section Balance
variable {kst : Kop → Kopstat} {s s' : StatSys}

/-- Entries of one kind keep the balance just when they count what is over. -/
theorem balanced_move (h : Balanced kst s) (kop : Kop) (ts : KioTs) {events : List KopEv} {d : ℕ}
    (hkst : s'.kst = (s.count kop ts events).kst)
    (hfin : s'.finished = Function.update s.finished kop (s.finished kop + d)) :
    Balanced kst s' ↔ (growth events : BitVec 32) = d := by
  have hkop := h kop
  constructor
  · intro h'
    have heq := h' kop
    rw [hkst, hfin] at heq
    simp only [StatSys.count, Function.update_self, foldl_count_total, Nat.cast_add] at heq
    rw [hkop, add_assoc] at heq
    exact add_left_cancel (add_left_cancel heq)
  · intro hd kop'
    rw [hkst, hfin]
    rcases eq_or_ne kop' kop with rfl | hne
    · simp only [StatSys.count, Function.update_self, foldl_count_total, Nat.cast_add]
      rw [hkop, hd, add_assoc]
    · simp only [StatSys.count, Function.update_of_ne hne]
      exact h kop'

/-- Issuing an operation keeps the balance. -/
theorem issue_balanced (ses : Ksession) (h : Balanced kst s) (op : Op) (e : IssueEnv) :
    ∀ s' ∈ statStep ses s (.issue op e), Balanced kst s' := by
  intro s' hs'
  simp only [statStep, Option.mem_def, Option.some.injEq] at hs'
  subst hs'
  set r := op.issue { e with config := true } ses with hr
  have honce : r.Once := Op.issue_once ses rfl op
  rcases honce with ⟨hok, hev⟩ | ⟨hne, hev⟩
  · have hiff := @balanced_move kst s
      { s.count op.kop {} r.events with kios := s.kios ++ [⟨op, r.sendlen⟩] } h op.kop {} r.events 0
      rfl (by simp [StatSys.count])
    rw [if_pos hok]
    exact hiff.mpr (by simp [hev, growth])
  · have hiff := @balanced_move kst s ((s.count op.kop {} r.events).finish op.kop) h op.kop {}
      r.events 1 rfl rfl
    rw [if_neg hne]
    exact hiff.mpr (by simp [hev, growth, KopEv.weight])

theorem completed_balanced_iff (h : Balanced kst s) (i : ℕ) (kop : Kop) (a : Arrival) (ts : KioTs)
    (krc : KStatus) (events : List KopEv) :
    Balanced kst (s.complete i kop a ts krc events) ↔
      (growth events : BitVec 32) = ((if krc = .kEagain then 0 else 1 : ℕ) : BitVec 32) := by
  unfold StatSys.complete
  by_cases hk : krc = .kEagain
  · simp only [hk, if_true]
    refine balanced_move h kop ts rfl ?_
    simp [StatSys.count]
  · simp only [hk, if_false]
    exact balanced_move h kop ts rfl rfl

/-- A completion keeps it just when it is clean. -/
theorem complete_balanced_iff (ses : Ksession) (h : Balanced kst s) (i : ℕ) (a : Arrival)
    (ts : KioTs) :
    (∀ s' ∈ statStep ses s (.complete i a ts), Balanced kst s') ↔ Clean s (.complete i a ts) := by
  rcases hp : s.kios[i]? with _ | p
  · simp [statStep, Clean, hp]
  · have hrep := p.op.complete_reports ses p.sendlen a
    have hstep : statStep ses s (.complete i a ts) = some (s.complete i p.op.kop a ts
        (p.op.complete ses p.sendlen a).1 (p.op.complete ses p.sendlen a).2) := by
      simp [statStep, hp]
    rw [hstep]
    simp only [Option.mem_some_iff, forall_eq', completed_balanced_iff h, Clean, hp]
    generalize p.op.complete ses p.sendlen a = r at hrep
    rcases hr : a.resp with _ | _ | _ | _ | _ | _ | m <;> rw [hr] at hrep
    all_goals obtain ⟨hkrc, hgrow⟩ := hrep
    · simp [hkrc, hgrow, growth]
    · have hne : r.1 ≠ .kEagain := by simpa [Op.again] using hkrc
      simp [hne, hgrow, Op.again]
    -- counted twice
    · simp [hkrc, hgrow]
    · simp [hkrc, hgrow]
    · have hne : r.1 ≠ .kEagain := by simpa [Op.again] using hkrc
      simp [hne, hgrow, Op.again]
    · have hne : r.1 ≠ .kEagain := by simpa [Op.again] using hkrc
      simp [hne, hgrow, Op.again]
    · by_cases hag : p.op.again (.msg m) = true
      · simp [hkrc, hgrow, hag]
      · simp [hkrc, hgrow, hag]

theorem step_balanced_iff (ses : Ksession) (s : StatSys) (act : StatAct) (h : Balanced kst s) :
    (∀ s' ∈ statStep ses s act, Balanced kst s') ↔ Clean s act := by
  cases act with
  | issue op e => exact iff_of_true (issue_balanced ses h op e) trivial
  | complete i a ts => exact complete_balanced_iff ses h i a ts

end Balance

/-- The session before the operations, with any counters. -/
def statStart (kst : Kop → Kopstat) : StatSys := { kst }

/-- **In a run of operations** the counters of every kind grow by one for each operation that is
over, at every moment, if and only if no completion takes a kio that timed out or failed, or the
status `K_EAGAIN` from the server. -/
theorem balanced_iff (ses : Ksession) (kst : Kop → Kopstat) (acts : List StatAct) :
    (∀ pre s, pre <+: acts → run (statStep ses) (statStart kst) pre = some s → Balanced kst s) ↔
      RunOk (statStep ses) Clean (statStart kst) acts := by
  refine forall_run_iff (step_balanced_iff ses) acts fun kop => ?_
  simp [statStart]

/-! ### A noop that times out -/

/-- A noop is sent, and its kio comes back timed out. -/
def timedoutNoop : List StatAct :=
  [.issue .noop getEnv, .complete 0 { resp := some .timedout } {}]

/-- **A timeout is counted twice**: one noop is over, and two are counted. -/
theorem timedout_counted_twice :
    ¬ (∀ pre s, pre <+: timedoutNoop →
      run (statStep getSes) (statStart fun _ => {}) pre = some s → Balanced (fun _ => {}) s) := by
  intro h
  have hnoops := h timedoutNoop _ (List.prefix_refl _) rfl .noops
  revert hnoops
  decide

end Libkinetic.Kinetic
