import Libkinetic.Kinetic.Series

/-! # Reading the statistics

`ki_getstats` copies the statistics of the session and finishes the variances in the copy, for four
of the six kinds; `ki_putstats` replaces those of the session with any others. -/

namespace Libkinetic.Kinetic.Stats

/-- `kstats_t` -/
abbrev Kstats := Kop → Kopstat

section Getstats
variable (sqrt : ℚ → ℚ)

/-! ### The calls -/

/-- The variance and the deviation of a series. -/
def tsaFinish (a : Tsa) (n : BitVec 32) : Option Tsa := do
  let var ← quot a.tmeansq n
  some { a with tvar := var, tstddev := sqrt var }

/-- **`s_stat_updatekop`** -/
def sStatUpdatekop (k : Kopstat) : Option Kopstat :=
  if ¬ k.tstat then some k
  else do
    let var ← quot k.kopSmsq (k.kopOk - 1)
    let tot ← tsaFinish sqrt k.kopTot (k.kopOk - 1)
    let req ← tsaFinish sqrt k.kopReq (k.kopOk - 1)
    let resp ← tsaFinish sqrt k.kopResp (k.kopOk - 1)
    some { k with kopSstdev := sqrt var, kopTot := tot, kopReq := req, kopResp := resp }

/-- One kind of the structure. -/
def updatekop (kst : Kstats) (kop : Kop) : Option Kstats :=
  (sStatUpdatekop sqrt (kst kop)).map (Function.update kst kop)

/-- **`ki_getstats`**, with the session's statistics if `ktli_config` finds a session, and the status
with what is in the structure of the caller. -/
def kiGetstats (kst : Bool) (session : Option Kstats) : Option (KStatus × Option Kstats) :=
  if ¬ kst then some (.kEinval, none)
  else
    match session with
    | none => some (.kEbadsess, none)
    | some ksStats => do
      let kst ← updatekop sqrt ksStats .puts
      let kst ← updatekop sqrt kst .gets
      let kst ← updatekop sqrt kst .dels
      let kst ← updatekop sqrt kst .noops
      some (.kOk, some kst)

/-- `ki_putstats`: the status, and the session's statistics after it. -/
def kiPutstats (kst : Option Kstats) (session : Option Kstats) : KStatus × Option Kstats :=
  match kst, session with
  | none, session => (.kEinval, session)
  | some _, none => (.kEbadsess, none)
  | some kst, some _ => (.kOk, some kst)

/-! ### What is reported -/

/-- The sample variances of `k`, that of the sizes as its root. -/
structure Variances (k out : Kopstat) : Prop where
  ssize : out.kopSstdev = sqrt (k.kopSmsq / (k.kopOk.toNat - 1))
  tot : out.kopTot.tvar = k.kopTot.tmeansq / (k.kopOk.toNat - 1)
  req : out.kopReq.tvar = k.kopReq.tmeansq / (k.kopOk.toNat - 1)
  resp : out.kopResp.tvar = k.kopResp.tmeansq / (k.kopOk.toNat - 1)

/-- **No division by zero**, and the variances of every kind with timestamps that counts two
operations or more. -/
def Reports (ksStats : Kstats) : Prop :=
  ∃ out, kiGetstats sqrt true (some ksStats) = some (.kOk, some out) ∧
    ∀ kop, (ksStats kop).tstat = true → 2 ≤ (ksStats kop).kopOk.toNat →
      Variances sqrt (ksStats kop) (out kop)

/-- The kinds that are finished. -/
def finishedKinds : List Kop := [.puts, .gets, .dels, .noops]

/-- One less than the count is not 0, or not divided by. -/
def Divides (k : Kopstat) : Prop := k.tstat = true → k.kopOk ≠ 1

/-- A kind after `s_stat_updatekop`. -/
def finished (k : Kopstat) : Kopstat :=
  if ¬ k.tstat then k
  else
    { k with
      kopSstdev := sqrt (k.kopSmsq / (k.kopOk - 1).toNat)
      kopTot :=
        { k.kopTot with
          tvar := k.kopTot.tmeansq / (k.kopOk - 1).toNat
          tstddev := sqrt (k.kopTot.tmeansq / (k.kopOk - 1).toNat) }
      kopReq :=
        { k.kopReq with
          tvar := k.kopReq.tmeansq / (k.kopOk - 1).toNat
          tstddev := sqrt (k.kopReq.tmeansq / (k.kopOk - 1).toNat) }
      kopResp :=
        { k.kopResp with
          tvar := k.kopResp.tmeansq / (k.kopOk - 1).toNat
          tstddev := sqrt (k.kopResp.tmeansq / (k.kopOk - 1).toNat) } }

/-- The statistics with some kinds finished. -/
def finishedOn (kops : List Kop) (kst : Kstats) : Kstats :=
  fun kop => if kop ∈ kops then finished sqrt (kst kop) else kst kop

section Finish
variable {k : Kopstat} {ksStats : Kstats} {kops : List Kop} {kop : Kop}

theorem finishedOn_of_mem (h : kop ∈ kops) (kst : Kstats) :
    finishedOn sqrt kops kst kop = finished sqrt (kst kop) := if_pos h

theorem finishedOn_of_not_mem (h : kop ∉ kops) (kst : Kstats) :
    finishedOn sqrt kops kst kop = kst kop := if_neg h

theorem sStatUpdatekop_eq_none (h : ¬ Divides k) : sStatUpdatekop sqrt k = none := by
  obtain ⟨ht, h1⟩ : k.tstat = true ∧ k.kopOk = 1 := by
    simpa only [Divides, ne_eq, Classical.not_imp, not_not] using h
  have h0 : k.kopOk - 1 = 0 := sub_eq_zero.mpr h1
  rw [sStatUpdatekop, if_neg (not_not.mpr ht), h0]
  rfl

theorem sStatUpdatekop_eq_some (h : Divides k) :
    sStatUpdatekop sqrt k = some (finished sqrt k) := by
  unfold sStatUpdatekop finished
  by_cases ht : k.tstat = true
  · have h0 : k.kopOk - 1 ≠ 0 := sub_ne_zero.mpr (h ht)
    rw [if_neg (not_not.mpr ht), if_neg (not_not.mpr ht)]
    simp only [tsaFinish, quot, if_neg h0, Option.bind_eq_bind, Option.bind_some]
  · rw [if_pos ht, if_pos ht]

/-- Finishing the first of some kinds leaves the others to be finished. -/
theorem finishedOn_cons (a : Kop) (h : a ∉ kops) (kst : Kstats) :
    finishedOn sqrt kops (Function.update kst a (finished sqrt (kst a))) =
      finishedOn sqrt (a :: kops) kst := by
  funext kop
  by_cases heq : kop = a
  · subst heq
    rw [finishedOn_of_not_mem sqrt h, finishedOn_of_mem sqrt List.mem_cons_self,
      Function.update_self]
  · by_cases hkop : kop ∈ kops
    · rw [finishedOn_of_mem sqrt hkop, finishedOn_of_mem sqrt (List.mem_cons_of_mem a hkop),
        Function.update_of_ne heq]
    · rw [finishedOn_of_not_mem sqrt hkop, finishedOn_of_not_mem sqrt (by simp [heq, hkop]),
        Function.update_of_ne heq]

/-- **Kinds that are finished one after the other** do not meet. -/
theorem foldlM_updatekop (kops : List Kop) (hnodup : kops.Nodup) (kst : Kstats) :
    (∀ kop ∈ kops, Divides (kst kop)) ∧
        kops.foldlM (updatekop sqrt) kst = some (finishedOn sqrt kops kst) ∨
      (¬ ∀ kop ∈ kops, Divides (kst kop)) ∧ kops.foldlM (updatekop sqrt) kst = none := by
  induction kops generalizing kst with
  | nil => exact .inl ⟨by simp, rfl⟩
  | cons a kops ih =>
    obtain ⟨ha, hnodup⟩ := List.nodup_cons.mp hnodup
    by_cases hdiv : Divides (kst a)
    · have hstep : updatekop sqrt kst a = some (Function.update kst a (finished sqrt (kst a))) := by
        rw [updatekop, sStatUpdatekop_eq_some sqrt hdiv]
        rfl
      have hdivs : (∀ kop ∈ kops, Divides (Function.update kst a (finished sqrt (kst a)) kop)) ↔
          ∀ kop ∈ a :: kops, Divides (kst kop) := by
        rw [List.forall_mem_cons, and_iff_right hdiv]
        refine forall₂_congr fun kop hkop => ?_
        have hne : kop ≠ a := fun heq => ha (heq ▸ hkop)
        rw [Function.update_of_ne hne]
      rw [List.foldlM_cons, hstep, Option.bind_eq_bind, Option.bind_some, ← hdivs,
        ← finishedOn_cons sqrt a ha]
      exact ih hnodup _
    · refine .inr ⟨fun hall => hdiv (hall a List.mem_cons_self), ?_⟩
      rw [List.foldlM_cons, updatekop, sStatUpdatekop_eq_none sqrt hdiv]
      rfl

theorem kiGetstats_eq (ksStats : Kstats) : kiGetstats sqrt true (some ksStats) =
    (finishedKinds.foldlM (updatekop sqrt) ksStats).map fun out => (.kOk, some out) := by
  simp only [kiGetstats, finishedKinds, List.foldlM_cons, List.foldlM_nil, Option.bind_eq_bind,
    Option.pure_def, Option.map_bind, Function.comp_def, Option.map_some, not_true_eq_false,
    if_false]

/-- Finished statistics report the variances. -/
theorem finished_variances (ht : k.tstat = true) (h2 : 2 ≤ k.kopOk.toNat) :
    Variances sqrt k (finished sqrt k) := by
  have hsub : ((k.kopOk - 1).toNat : ℚ) = k.kopOk.toNat - 1 := by
    have hle : (1 : BitVec 32) ≤ k.kopOk := by
      rw [BitVec.le_def]
      exact le_trans (by decide) h2
    rw [BitVec.toNat_sub_of_le hle]
    exact Nat.cast_pred (le_trans (by decide) h2)
  unfold finished
  rw [if_neg (not_not.mpr ht)]
  exact ⟨by simp only [hsub], by simp only [hsub], by simp only [hsub], by simp only [hsub]⟩

/-- **When the variances are reported**: none of the four kinds has counted just one operation with
timestamps, and the variances of the flushes and the execs happen to be in the session. -/
theorem reports_iff (ksStats : Kstats) : Reports sqrt ksStats ↔
    (∀ kop ∈ finishedKinds, (ksStats kop).tstat = true → (ksStats kop).kopOk ≠ 1) ∧
      ∀ kop ∉ finishedKinds, (ksStats kop).tstat = true → 2 ≤ (ksStats kop).kopOk.toNat →
        Variances sqrt (ksStats kop) (ksStats kop) := by
  unfold Reports
  rw [kiGetstats_eq]
  obtain ⟨hdiv, heq⟩ | ⟨hdiv, heq⟩ := foldlM_updatekop sqrt finishedKinds (by decide) ksStats
  · rw [heq]
    constructor
    · rintro ⟨out, hout, hvar⟩
      simp only [Option.map_some, Option.some.injEq, Prod.mk.injEq, true_and] at hout
      refine ⟨hdiv, fun kop hkop ht h2 => ?_⟩
      have hkind := hvar kop ht h2
      rwa [← hout, finishedOn_of_not_mem sqrt hkop] at hkind
    · rintro ⟨-, hrest⟩
      refine ⟨_, rfl, fun kop ht h2 => ?_⟩
      by_cases hkop : kop ∈ finishedKinds
      · rw [finishedOn_of_mem sqrt hkop]
        exact finished_variances sqrt ht h2
      · rw [finishedOn_of_not_mem sqrt hkop]
        exact hrest kop hkop ht h2
  · rw [heq]
    refine iff_of_false ?_ fun h => hdiv h.1
    rintro ⟨out, hout, -⟩
    cases hout

end Finish

end Getstats

/-! ### Statistics that are not reported -/

/-- A session that asks for timestamps of some kinds, after one successful operation. -/
def afterOne (kop : Kop) : Kstats :=
  Function.update (fun _ => { kopFlags := kopfTstat }) kop
    ((account kop plainTs (okEvents ⟨40, 40, 0, 0⟩ true) { kopFlags := kopfTstat }).getD {})

/-- The same after two. -/
def afterTwo (kop : Kop) : Kstats :=
  Function.update (fun _ => { kopFlags := kopfTstat }) kop
    ((account kop plainTs
      (okEvents ⟨40, 40, 0, 0⟩ true ++ okEvents ⟨60, 40, 0, 0⟩ true)
        { kopFlags := kopfTstat }).getD {})

/-- The root of a square. -/
def ratSqrt (x : ℚ) : ℚ := Rat.sqrt x

theorem afterTwo_flushs :
    (kiGetstats ratSqrt true (some (afterTwo .flushs))).map
        (fun r => r.2.map fun out => ((out .flushs).kopOk, (out .flushs).kopSstdev)) =
      some (some (2, 0)) := by decide +kernel

/-- **One noop is divided by zero, and two flushes of 40 and 60 bytes are not reported**: their
variance is 200, and the deviation 0 of the cleared statistics is returned. -/
theorem noop_flush_not_reported :
    ¬ Reports ratSqrt (afterOne .noops) ∧ ¬ Reports ratSqrt (afterTwo .flushs) := by
  constructor
  · rintro ⟨out, hout, -⟩
    have hnone : (kiGetstats ratSqrt true (some (afterOne .noops))).isNone := by decide +kernel
    rw [hout] at hnone
    cases hnone
  · rintro ⟨out, hout, hvar⟩
    have heq := afterTwo_flushs
    rw [hout] at heq
    have hzero : (out .flushs).kopSstdev = 0 := by
      simp only [Option.map_some, Option.some.injEq, Prod.mk.injEq] at heq
      exact heq.2
    have hflags : (afterTwo .flushs .flushs).tstat = true ∧
        2 ≤ (afterTwo .flushs .flushs).kopOk.toNat := by decide +kernel
    have hssize := (hvar .flushs hflags.1 hflags.2).ssize
    rw [hzero] at hssize
    revert hssize
    decide +kernel

/-- **Any statistics are reached**, by putting them. -/
theorem kiPutstats_reaches (kst old : Kstats) :
    kiPutstats (some kst) (some old) = (.kOk, some kst) := rfl

end Libkinetic.Kinetic.Stats
