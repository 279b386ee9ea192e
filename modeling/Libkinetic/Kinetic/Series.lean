import Libkinetic.Kinetic.Means

/-! # The time series

Runs of `s_stats_addts` on cleared statistics, each after its caller has counted the operation. A
sample that is dropped is taken back from the count before a series is touched, so that the count
and the series stay in step, as long as the counters of 32 bits do not come round. -/

namespace Libkinetic.Kinetic.Stats

open Libkinetic.Base.Moments Libkinetic.Base.Runs

/-! ### Samples -/

/-- The caller counts the operation, and `s_stats_addts` follows. -/
def sampleStep (k : Kopstat) (ts : KioTs) : Option Kopstat := sStatsAddts ts k.counted

/-- The intervals of the samples that are used. -/
def accepted (l : List KioTs) : List (ℤ × ℤ × ℤ) :=
  (l.filter fun ts => !dropsSample ts).map statsIntervals

/-- The samples that are not. -/
def droppedOnes (l : List KioTs) : List KioTs := l.filter dropsSample

/-- The intervals of one series. -/
def intervals (f : ℤ × ℤ × ℤ → ℤ) (l : List KioTs) : List ℚ := (accepted l).map fun t => (f t : ℚ)

/-- The series is that of some intervals. -/
structure Tsa.Of (a : Tsa) (l : List ℚ) : Prop where
  total : a.ttotal = l.sum
  mean : a.tmean = mean l
  meansq : a.tmeansq = sqdev l

/-- **The counters and the three series are those of the samples**. -/
structure SeriesExact (k : Kopstat) (l : List KioTs) : Prop where
  ok : k.kopOk.toNat = (accepted l).length
  dropped : k.kopDropped.toNat = (droppedOnes l).length
  tot : k.kopTot.Of (intervals (fun t => t.1) l)
  req : k.kopReq.Of (intervals (fun t => t.2.1) l)
  resp : k.kopResp.Of (intervals (fun t => t.2.2) l)

section Accepted
variable {l : List KioTs} {ts : KioTs}

theorem accepted_dropped (hd : dropsSample ts = true) : accepted (l ++ [ts]) = accepted l := by
  simp [accepted, hd]

theorem accepted_used (hd : dropsSample ts = false) :
    accepted (l ++ [ts]) = accepted l ++ [statsIntervals ts] := by
  simp [accepted, hd]

theorem intervals_dropped (hd : dropsSample ts = true) (f : ℤ × ℤ × ℤ → ℤ) :
    intervals f (l ++ [ts]) = intervals f l := by
  rw [intervals, accepted_dropped hd]
  rfl

theorem intervals_used (hd : dropsSample ts = false) (f : ℤ × ℤ × ℤ → ℤ) :
    intervals f (l ++ [ts]) = intervals f l ++ [(f (statsIntervals ts) : ℚ)] := by
  rw [intervals, accepted_used hd, List.map_append]
  rfl

@[simp] theorem length_intervals (f : ℤ × ℤ × ℤ → ℤ) (l : List KioTs) :
    (intervals f l).length = (accepted l).length := List.length_map _

theorem droppedOnes_used (hd : dropsSample ts = false) :
    droppedOnes (l ++ [ts]) = droppedOnes l := by
  simp [droppedOnes, hd]

theorem droppedOnes_dropped (hd : dropsSample ts = true) :
    droppedOnes (l ++ [ts]) = droppedOnes l ++ [ts] := by
  simp [droppedOnes, hd]

/-- More samples only raise the numbers of those used and of those dropped. -/
theorem length_accepted_le (l l' : List KioTs) :
    (accepted l).length ≤ (accepted (l ++ l')).length := by
  simp [accepted]

theorem length_droppedOnes_le (l l' : List KioTs) :
    (droppedOnes l).length ≤ (droppedOnes (l ++ l')).length := by
  simp [droppedOnes]

end Accepted

/-! ### The recurrence -/

section Recurrence
variable {a : Tsa} {k : Kopstat} {l : List KioTs} {ts : KioTs}

theorem Tsa.Of.first (a : Tsa) (t : ℚ) : (tsaFirst a t).Of [t] :=
  ⟨List.sum_singleton.symm, (mean_singleton t).symm, (sqdev_singleton t).symm⟩

/-- **The recurrence of a series**, at the number of the interval. -/
theorem Tsa.Of.next {l : List ℚ} (h : a.Of l) {n : ℕ} (hn : n = l.length + 1) (t : ℚ) :
    ({ a with
      ttotal := a.ttotal + t
      tmean := nextMean a.tmean t n
      tmeansq := nextSqdev a.tmean a.tmeansq t n } : Tsa).Of (l ++ [t]) := by
  refine ⟨?_, ?_, ?_⟩
  · simp only [h.total, List.sum_append, List.sum_singleton]
  · simp only [mean_concat, hn, h.mean]
  · simp only [sqdev_concat, hn, h.mean, h.meansq]

theorem seriesExact_cleared (flags : BitVec 32) : SeriesExact { kopFlags := flags } [] :=
  ⟨rfl, rfl, ⟨rfl, mean_nil.symm, rfl⟩, ⟨rfl, mean_nil.symm, rfl⟩, ⟨rfl, mean_nil.symm, rfl⟩⟩

/-- **A sample**: it is dropped and counted as dropped, or goes into the count and all series. -/
theorem SeriesExact.step (h : SeriesExact k l) (ha : (accepted (l ++ [ts])).length < 2 ^ 32)
    (hd : (droppedOnes (l ++ [ts])).length < 2 ^ 32) :
    ∃ k', sampleStep k ts = some k' ∧ SeriesExact k' (l ++ [ts]) := by
  cases hds : dropsSample ts with
  | true =>
    rw [droppedOnes_dropped hds, List.length_append, List.length_singleton, ← h.dropped] at hd
    refine ⟨_, sStatsAddts_dropped hds _, ?_, ?_, ?_, ?_, ?_⟩
    · rw [accepted_dropped hds, ← h.ok]
      exact congrArg BitVec.toNat (add_sub_cancel_right k.kopOk 1)
    · rw [droppedOnes_dropped hds, List.length_append, List.length_singleton, ← h.dropped]
      exact toNat_succ_of_lt hd
    · rw [intervals_dropped hds]
      exact h.tot
    · rw [intervals_dropped hds]
      exact h.req
    · rw [intervals_dropped hds]
      exact h.resp
  | false =>
    rw [accepted_used hds, List.length_append, List.length_singleton, ← h.ok] at ha
    have hok : k.counted.kopOk.toNat = (accepted l).length + 1 := by
      rw [← h.ok]
      exact toNat_succ_of_lt ha
    have hcount : k.counted.kopOk.toNat = (accepted (l ++ [ts])).length := by
      rw [accepted_used hds, List.length_append, List.length_singleton, hok]
    have hdropped : k.kopDropped.toNat = (droppedOnes (l ++ [ts])).length := by
      rw [droppedOnes_used hds, h.dropped]
    by_cases h1 : k.counted.kopOk = 1
    · -- the count was 0, so that nothing was accepted yet
      have hnil : accepted l = [] := by
        rw [h1] at hok
        exact List.length_eq_zero_iff.mp (Nat.succ.inj hok.symm)
      have hone : ∀ f : ℤ × ℤ × ℤ → ℤ,
          intervals f (l ++ [ts]) = [(f (statsIntervals ts) : ℚ)] := by
        intro f
        rw [intervals_used hds, intervals, hnil]
        rfl
      refine ⟨_, sStatsAddts_first hds h1, hcount, hdropped, ?_, ?_, ?_⟩ <;> rw [hone]
      · exact .first _ _
      · exact .first _ _
      · exact .first _ _
    · have h0 : k.counted.kopOk ≠ 0 := by
        intro h0
        rw [h0] at hok
        cases hok
      have hn : ∀ f, k.counted.kopOk.toNat = (intervals f l).length + 1 := by
        intro f
        rw [length_intervals, hok]
      refine ⟨_, sStatsAddts_next hds h1 h0, hcount, hdropped, ?_, ?_, ?_⟩ <;>
        rw [intervals_used hds]
      · exact h.tot.next (hn _) _
      · exact h.req.next (hn _) _
      · exact h.resp.next (hn _) _

/-- What comes after some samples. -/
theorem SeriesExact.samples (h : SeriesExact k l) (rest : List KioTs)
    (ha : (accepted (l ++ rest)).length < 2 ^ 32)
    (hd : (droppedOnes (l ++ rest)).length < 2 ^ 32) :
    ∃ k', run sampleStep k rest = some k' ∧ SeriesExact k' (l ++ rest) := by
  induction rest generalizing k l with
  | nil => exact ⟨k, rfl, by rwa [List.append_nil]⟩
  | cons ts rest ih =>
    have hassoc : l ++ ts :: rest = (l ++ [ts]) ++ rest := by simp
    rw [hassoc] at ha hd ⊢
    obtain ⟨k1, hk1, h1⟩ := h.step (lt_of_le_of_lt (length_accepted_le _ _) ha)
      (lt_of_le_of_lt (length_droppedOnes_le _ _) hd)
    obtain ⟨k', hk', h'⟩ := ih h1 ha hd
    exact ⟨k', by rw [run, hk1, Option.bind_some, hk'], h'⟩

/-- **In every run** of fewer than 2^32 samples that are used, and as many that are dropped, the
counters are their numbers and the three series have their totals, means and squares. -/
theorem series_exact (flags : BitVec 32) (l : List KioTs) (ha : (accepted l).length < 2 ^ 32)
    (hd : (droppedOnes l).length < 2 ^ 32) :
    ∃ k, run sampleStep { kopFlags := flags } l = some k ∧ SeriesExact k l := by
  obtain ⟨k, hk, hex⟩ := (seriesExact_cleared flags).samples l ha hd
  exact ⟨k, hk, hex⟩

theorem mixedSamples_exact :
    ∃ k, run sampleStep { kopFlags := kopfTstat } [plainTs, borrowedTs, plainTs] = some k ∧
      SeriesExact k [plainTs, borrowedTs, plainTs] :=
  series_exact kopfTstat [plainTs, borrowedTs, plainTs] (by decide) (by decide)

/-- **The count of 32 bits comes round** after 2^32 samples that are used. -/
theorem many_samples_wrap :
    ¬ ∃ k, run sampleStep { kopFlags := kopfTstat } (List.replicate (2 ^ 32) plainTs) =
      some k ∧ SeriesExact k (List.replicate (2 ^ 32) plainTs) := by
  rintro ⟨k, -, hex⟩
  have hplain : dropsSample plainTs = false := by decide
  have hlen : (accepted (List.replicate (2 ^ 32) plainTs)).length = 2 ^ 32 := by
    rw [accepted, List.length_map, List.filter_replicate, if_pos (by rw [hplain]; rfl),
      List.length_replicate]
  have hlt := k.kopOk.isLt
  rw [hex.ok, hlen] at hlt
  exact lt_irrefl _ hlt

end Recurrence

/-! ### The completions -/

/-- The counters of the samples and the series. -/
structure SampleStats where
  ok : BitVec 32
  dropped : BitVec 32
  tot : Tsa
  req : Tsa
  resp : Tsa
deriving DecidableEq

def Kopstat.sampleStats (k : Kopstat) : SampleStats :=
  ⟨k.kopOk, k.kopDropped, k.kopTot, k.kopReq, k.kopResp⟩

section Completions
variable {k k1 k' : Kopstat} {kop : Kop} {ts : KioTs} {z : Sizes}

/-- Whatever the kind, the sizes leave the series alone. -/
theorem sampleStats_kopOk (h : kopOk kop k z = some k1) :
    k1.sampleStats = k.counted.sampleStats := by
  have hrest := congrArg Kopstat.sampleStats (unsized_kopOk h)
  exact hrest

/-- `s_stats_addts` reads its own numbers only. -/
theorem sampleStats_addts (h : k.sampleStats = k1.sampleStats) :
    (sStatsAddts ts k).map Kopstat.sampleStats = (sStatsAddts ts k1).map Kopstat.sampleStats := by
  simp only [Kopstat.sampleStats, SampleStats.mk.injEq] at h
  obtain ⟨hok, hdropped, htot, hreq, hresp⟩ := h
  cases hd : dropsSample ts with
  | true =>
    rw [sStatsAddts_dropped hd, sStatsAddts_dropped hd]
    simp only [Option.map_some, Kopstat.sampleStats, hok, hdropped, htot, hreq, hresp]
  | false =>
    by_cases h1 : k1.kopOk = 1
    · rw [sStatsAddts_first hd h1, sStatsAddts_first hd (hok.trans h1)]
      simp only [Option.map_some, Kopstat.sampleStats, hok, hdropped, htot, hreq, hresp]
    · by_cases h0 : k1.kopOk = 0
      · rw [sStatsAddts_zero hd h0, sStatsAddts_zero hd (hok.trans h0)]
      · rw [sStatsAddts_next hd h1 h0,
          sStatsAddts_next hd (fun h => h1 (hok.symm.trans h)) fun h => h0 (hok.symm.trans h)]
        simp only [Option.map_some, Kopstat.sampleStats, hok, hdropped, htot, hreq, hresp]

/-- **A completion of any kind** that succeeds, with timestamps, does to the series what a sample
does. -/
theorem sampleStats_account (h : account kop ts (okEvents z true) k = some k') :
    (sampleStep k ts).map Kopstat.sampleStats = some k'.sampleStats := by
  rw [account_ok] at h
  obtain ⟨k1, hk1, h⟩ := Option.bind_eq_some_iff.mp h
  have hadd : sStatsAddts ts k1 = some k' := h
  rw [sampleStep, ← sampleStats_addts (sampleStats_kopOk hk1), hadd]
  rfl

end Completions

end Libkinetic.Kinetic.Stats
