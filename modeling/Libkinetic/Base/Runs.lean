import Mathlib.Tactic

/-! # Runs of a deterministic step function

A system is a function `step : S → A → Option S`: the action says which party moves and what its
environment answers, and `none` that the action is not enabled. `Reach step ok init` are the states
reached from an initial state when every step meets the condition `ok`; with `ok` always true it is
plain reachability. `Reach.invariant` is the induction rule of every invariant, and `run` replays a
list of actions, for concrete executions. -/

namespace Libkinetic.Base.Runs

variable {S A : Type*} {step : S → A → Option S} {ok : S → A → Prop} {init : S → Prop} {s : S}

/-- The states reached from an initial state by enabled steps that all meet `ok`. -/
inductive Reach (step : S → A → Option S) (ok : S → A → Prop) (init : S → Prop) : S → Prop
  | start {s : S} (h : init s) : Reach step ok init s
  | next {s s' : S} (a : A) (h : Reach step ok init s) (hok : ok s a) (hs : step s a = some s') :
      Reach step ok init s'

/-- The condition that excludes nothing. -/
def always (_ : S) (_ : A) : Prop := True

/-- **Invariants**: what holds initially and is kept by every step that meets `ok` holds always. -/
theorem Reach.invariant {I : S → Prop} (h0 : ∀ s, init s → I s)
    (hstep : ∀ s s' a, I s → ok s a → step s a = some s' → I s') {s : S}
    (h : Reach step ok init s) : I s := by
  induction h with
  | start h => exact h0 _ h
  | next a _ hok hs ih => exact hstep _ _ a ih hok hs

/-! ### Replaying a list of actions -/

/-- The state after a list of actions, if all of them are enabled. -/
def run (step : S → A → Option S) : S → List A → Option S
  | s, [] => some s
  | s, a :: as => (step s a).bind fun s' => run step s' as

/-- The states a list of actions passes through all meet `ok`. -/
def RunOk (step : S → A → Option S) (ok : S → A → Prop) : S → List A → Prop
  | _, [] => True
  | s, a :: as => ok s a ∧ ∀ s' ∈ step s a, RunOk step ok s' as

instance [∀ s a, Decidable (ok s a)] : ∀ (s : S) (as : List A), Decidable (RunOk step ok s as)
  | _, [] => isTrue trivial
  | s, a :: as =>
    have : ∀ s', Decidable (RunOk step ok s' as) := fun s' => instDecidableRunOk s' as
    inferInstanceAs (Decidable (ok s a ∧ ∀ s' ∈ step s a, RunOk step ok s' as))

theorem reach_of_run_from : ∀ (as : List A) {s s' : S}, Reach step ok init s →
    RunOk step ok s as → run step s as = some s' → Reach step ok init s'
  | [], s, s', hs, _, h => by
    simp only [run, Option.some.injEq] at h
    exact h ▸ hs
  | a :: as, s, s', hs, hk, h => by
    obtain ⟨s1, h1, h2⟩ := Option.bind_eq_some_iff.mp h
    exact reach_of_run_from as (.next a hs hk.1 h1) (hk.2 s1 h1) h2

/-- The end of a replayed list of actions is reached. -/
theorem reach_of_run {as : List A} {s s' : S} (h0 : init s) (hk : RunOk step ok s as)
    (h : run step s as = some s') : Reach step ok init s' :=
  reach_of_run_from as (.start h0) hk h

/-- Two conditions that agree as long as a property holds, which the first one keeps, hold along the
same runs. -/
theorem runOk_congr {ok' : S → A → Prop} {I : S → Prop} (hiff : ∀ s a, I s → (ok s a ↔ ok' s a))
    (hkeep : ∀ s s' a, I s → ok s a → step s a = some s' → I s') (as : List A) {s : S} (h : I s) :
    RunOk step ok s as ↔ RunOk step ok' s as := by
  induction as generalizing s with
  | nil => exact Iff.rfl
  | cons a as ih =>
    unfold RunOk
    rw [← hiff s a h]
    refine and_congr_right fun hok => forall₂_congr fun s' hs => ?_
    exact ih (hkeep s s' a h hok hs)

/-- **Invariants with an exact condition**: if a step keeps the property just when it meets `ok`,
then all states of a run have it just when all steps do. -/
theorem forall_run_iff {I : S → Prop}
    (h : ∀ s a, I s → ((∀ s' ∈ step s a, I s') ↔ ok s a)) (as : List A) {s : S} (hs : I s) :
    (∀ pre s', pre <+: as → run step s pre = some s' → I s') ↔ RunOk step ok s as := by
  induction as generalizing s with
  | nil =>
    refine iff_of_true (fun pre s' hpre hrun => ?_) trivial
    obtain rfl := List.prefix_nil.mp hpre
    simp only [run, Option.some.injEq] at hrun
    exact hrun ▸ hs
  | cons a as ih =>
    constructor
    · intro hall
      have hkeep : ∀ s' ∈ step s a, I s' := by
        intro s' hs'
        refine hall [a] s' ⟨as, rfl⟩ ?_
        simp [run, Option.mem_def.mp hs']
      refine ⟨(h s a hs).mp hkeep, fun s' hs' => (ih (hkeep s' hs')).mp fun pre t hpre hrun => ?_⟩
      refine hall (a :: pre) t ((List.prefix_cons_inj a).mpr hpre) ?_
      simp [run, Option.mem_def.mp hs', hrun]
    · rintro ⟨hok, hrest⟩ (_ | ⟨b, pre⟩) t hpre hrun
      · simp only [run, Option.some.injEq] at hrun
        exact hrun ▸ hs
      · obtain ⟨rfl, htail⟩ := List.cons_prefix_cons.mp hpre
        obtain ⟨s', hs', hrun⟩ := Option.bind_eq_some_iff.mp hrun
        have hI := (h s b hs).mpr hok s' hs'
        exact (ih hI).mpr (hrest s' hs') pre t htail hrun

/-- The same of a step that may fail: if it succeeds and keeps the property just when it meets `ok`,
then a run goes through and has the property everywhere just when all its steps do. -/
theorem forall_run_exists_iff {I : S → Prop}
    (h : ∀ s a, I s → ((∃ s', step s a = some s' ∧ I s') ↔ ok s a)) (as : List A) {s : S}
    (hs : I s) :
    (∀ pre, pre <+: as → ∃ s', run step s pre = some s' ∧ I s') ↔ RunOk step ok s as := by
  induction as generalizing s with
  | nil =>
    refine iff_of_true (fun pre hpre => ?_) trivial
    obtain rfl := List.prefix_nil.mp hpre
    exact ⟨s, rfl, hs⟩
  | cons a as ih =>
    constructor
    · intro hall
      obtain ⟨s1, hrun, hI⟩ := hall [a] ⟨as, rfl⟩
      have hs1 : step s a = some s1 := by
        obtain ⟨s2, hs2, h2⟩ := Option.bind_eq_some_iff.mp hrun
        exact Option.some.inj h2 ▸ hs2
      refine ⟨(h s a hs).mp ⟨s1, hs1, hI⟩, fun s' hs' => ?_⟩
      obtain rfl : s1 = s' := Option.some.inj (hs1.symm.trans hs')
      refine (ih hI).mp fun pre hpre => ?_
      obtain ⟨s2, hs2, hI2⟩ := hall (a :: pre) ((List.prefix_cons_inj a).mpr hpre)
      refine ⟨s2, ?_, hI2⟩
      simpa [run, hs1] using hs2
    · rintro ⟨hok, hrest⟩ (_ | ⟨b, pre⟩) hpre
      · exact ⟨s, rfl, hs⟩
      · obtain ⟨rfl, htail⟩ := List.cons_prefix_cons.mp hpre
        obtain ⟨s1, hs1, hI⟩ := (h s b hs).mpr hok
        obtain ⟨s2, hs2, hI2⟩ := (ih hI).mpr (hrest s1 hs1) pre htail
        exact ⟨s2, by simpa [run, hs1] using hs2, hI2⟩

/-! ### Runs with a known end -/

/-- A list of actions leads from one state to another, by steps that all meet `ok`. -/
structure Leads (step : S → A → Option S) (ok : S → A → Prop) (s : S) (as : List A) (s' : S) :
    Prop where
  run : run step s as = some s'
  ok : RunOk step ok s as

theorem Leads.nil : Leads step ok s [] s := ⟨rfl, trivial⟩

theorem Leads.cons {a : A} {as : List A} (s1 : S) {s' : S} (hok : ok s a)
    (hs : step s a = some s1) (h : Leads step ok s1 as s') : Leads step ok s (a :: as) s' := by
  refine ⟨?_, hok, fun s2 hs2 => ?_⟩
  · simp [Runs.run, hs, h.run]
  · obtain rfl : s1 = s2 := Option.some.inj (hs.symm.trans hs2)
    exact h.ok

theorem Leads.append {as bs : List A} {s1 s' : S} (h : Leads step ok s as s1)
    (h' : Leads step ok s1 bs s') : Leads step ok s (as ++ bs) s' := by
  induction as generalizing s with
  | nil =>
    obtain rfl := Option.some.inj h.run
    exact h'
  | cons a as ih =>
    obtain ⟨s2, hs2, hrun⟩ := Option.bind_eq_some_iff.mp h.run
    exact .cons s2 h.ok.1 hs2 (ih ⟨hrun, h.ok.2 s2 hs2⟩)

theorem Leads.reach {as : List A} {s' : S} (h : Leads step ok s as s')
    (hs : Reach step ok init s) : Reach step ok init s' :=
  reach_of_run_from as hs h.ok h.run

/-! ### Runs with a log -/

section Logged
variable {L : Type*} {record : S → A → S → L → L} {l0 : L}

/-- The system with a log that every step writes and no step reads. -/
def logged (step : S → A → Option S) (record : S → A → S → L → L) (p : S × L) (a : A) :
    Option (S × L) :=
  (step p.1 a).map fun s' => (s', record p.1 a s' p.2)

theorem logged_some {p p' : S × L} {a : A} (h : logged step record p a = some p') :
    step p.1 a = some p'.1 ∧ p'.2 = record p.1 a p'.1 p.2 := by
  obtain ⟨s', hs, rfl⟩ := Option.map_eq_some_iff.mp h
  exact ⟨hs, rfl⟩

/-- Every run has a log. -/
theorem exists_logged (record : S → A → S → L → L) (l0 : L) (h : Reach step ok init s) :
    ∃ l, Reach (logged step record) (fun p => ok p.1) (fun p => init p.1 ∧ p.2 = l0) (s, l) := by
  induction h with
  | start h => exact ⟨l0, .start ⟨h, rfl⟩⟩
  | @next s s' a _ hok hs ih =>
    obtain ⟨l, hl⟩ := ih
    refine ⟨record s a s' l, .next a hl hok ?_⟩
    unfold logged
    rw [hs, Option.map_some]

end Logged

theorem runOk_always : ∀ (as : List A) (s : S), RunOk step always s as
  | [], _ => trivial
  | _ :: as, _ => ⟨trivial, fun s' _ => runOk_always as s'⟩

end Libkinetic.Base.Runs
