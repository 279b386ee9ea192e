import Libkinetic.Kinetic.Stat

/-! # Intervals between timestamps

`s_stats_addts` takes three intervals from the timestamps of a kio, in whole microseconds: the total
time, the time until the request was sent, and the time the response took. `ts_sub` borrows a second
from the minuend in place, and the completion is the minuend of the first interval and of the third. -/

namespace Libkinetic.Kinetic

/-- The intervals `tt`, `st` and `rt` of `s_stats_addts`. -/
def statsIntervals (ts : KioTs) : ℤ × ℤ × ℤ :=
  let (tt, comp) := tsSub ts.kiotComp ts.kiotStart
  let (st, _) := tsSub ts.kiotSent ts.kiotStart
  let (rt, _) := tsSub comp ts.kiotRecvs
  (tt, st, rt)

/-- The sample is not used. -/
def dropsSample (ts : KioTs) : Bool :=
  decide ((statsIntervals ts).1 = 0 ∨ (statsIntervals ts).2.1 = 0 ∨ (statsIntervals ts).2.2 = 0)

theorem sStatsAddts_eq (ts : KioTs) (k : Kopstat) : sStatsAddts ts k =
    if dropsSample ts then { k with kopOk := k.kopOk - 1, kopDropped := k.kopDropped + 1 }
    else k := by
  unfold dropsSample
  simp only [decide_eq_true_eq]
  rfl

/-! ### The true intervals -/

/-- A time in nanoseconds. -/
def Timespec.nanos (t : Timespec) : ℤ := t.tvSec * kopBns + t.tvNsec

/-- The whole microseconds from `se` to `me`. -/
def Timespec.since (me se : Timespec) : ℤ := (me.nanos - se.nanos) / 1000

/-- A time of a clock: the nanoseconds are less than a second, and the seconds in the next 270
years. -/
structure Timespec.Realistic (t : Timespec) : Prop where
  sec_nonneg : 0 ≤ t.tvSec
  sec_lt : t.tvSec < 2 ^ 33
  nsec_nonneg : 0 ≤ t.tvNsec
  nsec_lt : t.tvNsec < kopBns

/-- All four times of a kio are. -/
structure KioTs.Realistic (ts : KioTs) : Prop where
  start : ts.kiotStart.Realistic
  sent : ts.kiotSent.Realistic
  recvs : ts.kiotRecvs.Realistic
  comp : ts.kiotComp.Realistic

/-- An interval in the range that is kept. -/
def Sensible (d : ℤ) : Prop := 1 ≤ d ∧ d ≤ kopMaxintv

instance (d : ℤ) : Decidable (Sensible d) := inferInstanceAs (Decidable (_ ∧ _))

/-- The interval, or 0 out of the range. -/
def clipped (d : ℤ) : ℤ := if Sensible d then d else 0

/-- **The intervals are the true ones**, and the sample is dropped if one of them is out of range. -/
structure IntervalsExact (ts : KioTs) : Prop where
  tt : (statsIntervals ts).1 = clipped (ts.kiotComp.since ts.kiotStart)
  st : (statsIntervals ts).2.1 = clipped (ts.kiotSent.since ts.kiotStart)
  rt : (statsIntervals ts).2.2 = clipped (ts.kiotComp.since ts.kiotRecvs)
  dropped : ∀ k, (sStatsAddts ts k).kopDropped = k.kopDropped + 1 ↔
    ¬ (Sensible (ts.kiotComp.since ts.kiotStart) ∧ Sensible (ts.kiotSent.since ts.kiotStart) ∧
      Sensible (ts.kiotComp.since ts.kiotRecvs))

section Intervals
variable {me se : Timespec} {ts : KioTs}

theorem clipped_eq_zero_iff (d : ℤ) : clipped d = 0 ↔ ¬ Sensible d := by
  unfold clipped
  split_ifs with h
  · exact iff_of_false (by have := h.1; omega) (not_not.mpr h)
  · exact iff_of_true rfl h

/-- The borrow does not show in the interval itself. -/
theorem tsSub_nanos (me se : Timespec) : (tsSub me se).1 =
    (if kopMaxintv < (me.nanos - se.nanos) % 2 ^ 64 / 1000 ∨
        (me.nanos - se.nanos) % 2 ^ 64 / 1000 < 0 ∨ (me.nanos - se.nanos) % 2 ^ 64 / 1000 = 0
      then 0 else (me.nanos - se.nanos) % 2 ^ 64 / 1000) := by
  have hborrow : me.tvNsec - se.tvNsec + kopBns + (me.tvSec - 1 - se.tvSec) * kopBns =
      me.nanos - se.nanos := by
    unfold Timespec.nanos
    ring
  have hplain : me.tvNsec - se.tvNsec + (me.tvSec - se.tvSec) * kopBns = me.nanos - se.nanos := by
    unfold Timespec.nanos
    ring
  unfold tsSub
  by_cases hb : me.tvNsec - se.tvNsec < 0
  · simp only [hb, if_true, hborrow]
  · simp only [hb, if_false, hplain]

/-- `ts_sub` gives the true interval if the nanoseconds between the two times fit 64 bits. -/
theorem tsSub_fst (hlo : -2 ^ 63 ≤ me.nanos - se.nanos) (hhi : me.nanos - se.nanos < 2 ^ 63) :
    (tsSub me se).1 = clipped (me.since se) := by
  rw [tsSub_nanos]
  unfold clipped Timespec.since Sensible kopMaxintv
  rcases lt_or_ge (me.nanos - se.nanos) 0 with hneg | hpos
  · -- a negative interval is far out of the range as an unsigned number
    have hmod : (me.nanos - se.nanos) % 2 ^ 64 = me.nanos - se.nanos + 2 ^ 64 := by omega
    rw [hmod]
    split_ifs <;> omega
  · have hmod : (me.nanos - se.nanos) % 2 ^ 64 = me.nanos - se.nanos := by omega
    rw [hmod]
    split_ifs <;> omega

/-- The minuend is a second early afterwards if a second was borrowed. -/
theorem tsSub_snd (me se : Timespec) : (tsSub me se).2 =
    if me.tvNsec < se.tvNsec then { me with tvSec := me.tvSec - 1 } else me := by
  unfold tsSub
  dsimp only
  split_ifs <;> first | rfl | omega

theorem nanos_sub_bounds (hm : me.Realistic) (hs : se.Realistic) :
    -2 ^ 63 + kopBns ≤ me.nanos - se.nanos ∧ me.nanos - se.nanos < 2 ^ 63 := by
  obtain ⟨m1, m2, m3, m4⟩ := hm
  obtain ⟨s1, s2, s3, s4⟩ := hs
  unfold Timespec.nanos
  unfold kopBns at *
  omega

/-- With a borrow the last interval comes out a second short. -/
theorem statsIntervals_rt (h : ts.Realistic) : (statsIntervals ts).2.2 =
    clipped (if ts.kiotComp.tvNsec < ts.kiotStart.tvNsec then
      ts.kiotComp.since ts.kiotRecvs - kopMaxintv else ts.kiotComp.since ts.kiotRecvs) := by
  obtain ⟨hlo, hhi⟩ := nanos_sub_bounds h.comp h.recvs
  show (tsSub (tsSub ts.kiotComp ts.kiotStart).2 ts.kiotRecvs).1 = _
  rw [tsSub_snd]
  split_ifs with hb
  · have hnanos : ({ ts.kiotComp with tvSec := ts.kiotComp.tvSec - 1 } : Timespec).nanos =
        ts.kiotComp.nanos - kopBns := by
      unfold Timespec.nanos
      ring
    rw [tsSub_fst (by rw [hnanos]; omega) (by rw [hnanos]; unfold kopBns; omega)]
    unfold Timespec.since
    rw [hnanos]
    congr 1
    unfold kopBns kopMaxintv
    omega
  · have hbns : 0 ≤ kopBns := by decide
    rw [tsSub_fst (by omega) hhi]

/-- A second is lost unless the interval is out of the range with it and without. -/
theorem clipped_sub_eq_iff (d : ℤ) :
    clipped (d - kopMaxintv) = clipped d ↔ d < 1 ∨ 2 * kopMaxintv < d := by
  unfold clipped Sensible kopMaxintv
  split_ifs <;> omega

theorem dropped_iff (ts : KioTs) (k : Kopstat) :
    (sStatsAddts ts k).kopDropped = k.kopDropped + 1 ↔ dropsSample ts = true := by
  rw [sStatsAddts_eq]
  split_ifs with hd
  · exact iff_of_true rfl hd
  · refine iff_of_false (fun heq => ?_) hd
    have hone : (1 : BitVec 32) = 0 := left_eq_add.mp heq
    exact absurd hone (by decide)

/-- **When the intervals are exact**: no second is borrowed for the total time, or the time of the
response is neither positive nor up to two seconds. -/
theorem intervals_exact_iff (ts : KioTs) (h : ts.Realistic) :
    IntervalsExact ts ↔ ts.kiotStart.tvNsec ≤ ts.kiotComp.tvNsec ∨
      ts.kiotComp.since ts.kiotRecvs < 1 ∨ 2 * kopMaxintv < ts.kiotComp.since ts.kiotRecvs := by
  obtain ⟨hlo, hhi⟩ := nanos_sub_bounds h.comp h.start
  obtain ⟨hlo', hhi'⟩ := nanos_sub_bounds h.sent h.start
  have hbns : 0 ≤ kopBns := by decide
  have htt : (statsIntervals ts).1 = clipped (ts.kiotComp.since ts.kiotStart) :=
    tsSub_fst (by omega) hhi
  have hst : (statsIntervals ts).2.1 = clipped (ts.kiotSent.since ts.kiotStart) :=
    tsSub_fst (by omega) hhi'
  have hrt : (statsIntervals ts).2.2 = clipped (ts.kiotComp.since ts.kiotRecvs) ↔
      ts.kiotStart.tvNsec ≤ ts.kiotComp.tvNsec ∨
        ts.kiotComp.since ts.kiotRecvs < 1 ∨ 2 * kopMaxintv < ts.kiotComp.since ts.kiotRecvs := by
    rw [statsIntervals_rt h]
    split_ifs with hb
    · rw [clipped_sub_eq_iff, or_iff_right (not_le.mpr hb)]
    · exact iff_of_true rfl (Or.inl (not_lt.mp hb))
  rw [← hrt]
  refine ⟨fun hex => hex.rt, fun hrt => ⟨htt, hst, hrt, fun k => ?_⟩⟩
  rw [dropped_iff, dropsSample, decide_eq_true_eq, htt, hst, hrt, clipped_eq_zero_iff,
    clipped_eq_zero_iff, clipped_eq_zero_iff]
  tauto

/-- A request of half a second that was sent and answered without delay; it began late in a second
and ended early in one. -/
def borrowedTs : KioTs where
  kiotStart := ⟨100, 600000000⟩
  kiotSent := ⟨100, 600010000⟩
  kiotRecvs := ⟨101, 99990000⟩
  kiotComp := ⟨101, 100000000⟩

/-- The same within one second. -/
def plainTs : KioTs where
  kiotStart := ⟨100, 100000000⟩
  kiotSent := ⟨100, 100010000⟩
  kiotRecvs := ⟨100, 599990000⟩
  kiotComp := ⟨100, 600000000⟩

theorem borrowedTs_realistic : borrowedTs.Realistic :=
  ⟨⟨by decide, by decide, by decide, by decide⟩, ⟨by decide, by decide, by decide, by decide⟩,
    ⟨by decide, by decide, by decide, by decide⟩, ⟨by decide, by decide, by decide, by decide⟩⟩

theorem plainTs_realistic : plainTs.Realistic :=
  ⟨⟨by decide, by decide, by decide, by decide⟩, ⟨by decide, by decide, by decide, by decide⟩,
    ⟨by decide, by decide, by decide, by decide⟩, ⟨by decide, by decide, by decide, by decide⟩⟩

theorem plainTs_exact : IntervalsExact plainTs :=
  (intervals_exact_iff plainTs plainTs_realistic).mpr (by decide)

/-- **The borrowed second is missing** from the time of the response, which is 10 microseconds: the
sample is dropped, though its three intervals are in range. -/
theorem borrowedTs_dropped :
    borrowedTs.Realistic ∧
      (statsIntervals borrowedTs = (500000, 10, 0) ∧
        borrowedTs.kiotComp.since borrowedTs.kiotRecvs = 10) ∧
      dropsSample borrowedTs = true ∧ ¬ IntervalsExact borrowedTs := by
  refine ⟨borrowedTs_realistic, by decide, by decide, fun h => ?_⟩
  have hrt := h.rt
  revert hrt
  decide

end Intervals

end Libkinetic.Kinetic
