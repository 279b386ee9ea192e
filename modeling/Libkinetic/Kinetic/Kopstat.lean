import Libkinetic.Base.Moments
import Libkinetic.Kinetic.Intervals

/-! # The numbers of the statistics

`kopstat_t` with its means and sums. A completion that succeeds counts the operation and folds its
sizes in; with timestamps `s_stats_addts` then folds the intervals in, or takes the operation back
from the count and leaves the sizes as they are. Doubles are taken to be exact, and a division by
zero has no result. -/

namespace Libkinetic.Kinetic.Stats

open Libkinetic.Base.Moments

/-! ### The structure -/

/-- A time series: the elements `KOP_TTOTAL` to `KOP_TSTDDEV` of its array. -/
structure Tsa where
  ttotal : ℚ := 0
  tmean : ℚ := 0
  tmeansq : ℚ := 0
  tvar : ℚ := 0
  tstddev : ℚ := 0
deriving DecidableEq

/-- `kopstat_t` -/
structure Kopstat extends Kinetic.Kopstat where
  kopFlags : BitVec 32 := 0
  kopSsize : ℚ := 0
  kopSmsq : ℚ := 0
  kopSstdev : ℚ := 0
  kopRsize : ℚ := 0
  kopKlen : ℚ := 0
  kopVlen : ℚ := 0
  kopTot : Tsa := {}
  kopReq : Tsa := {}
  kopResp : Tsa := {}
deriving DecidableEq

/-- `KOPF_TSTAT` -/
def kopfTstat : BitVec 32 := 0x0001

/-- Timestamps are asked for. -/
def Kopstat.tstat (k : Kopstat) : Bool := k.kopFlags &&& kopfTstat != 0#32

/-- The lengths that a completion has added up, in `uint32_t`. -/
structure Sizes where
  sl : ℕ
  rl : ℕ
  kl : ℕ
  vl : ℕ
deriving DecidableEq

/-! ### The recurrences -/

/-- The quotient of a double and a count. -/
def quot (x : ℚ) (n : BitVec 32) : Option ℚ := if n = 0 then none else some (x / n.toNat)

/-- `_m + (_x - _m) / _n` -/
def runningMean (m x : ℚ) (n : BitVec 32) : Option ℚ := (quot (x - m) n).map fun q => m + q

/-- The operation is counted. -/
def Kopstat.counted (k : Kopstat) : Kopstat := { k with kopOk := k.kopOk + 1 }

/-- The sizes of the first operation. -/
def Kopstat.firstSizes (k : Kopstat) (z : Sizes) : Kopstat :=
  { k with kopSsize := z.sl, kopSmsq := 0, kopRsize := z.rl, kopKlen := z.kl, kopVlen := z.vl }

/-- The mean and the squares of the sizes sent. -/
def Kopstat.nextSsize (k : Kopstat) (sl : ℕ) : Option Kopstat := do
  let nmn ← runningMean k.kopSsize sl k.kopOk
  let nmsq := k.kopSmsq + (sl - k.kopSsize) * (sl - nmn)
  some { k with kopSsize := nmn, kopSmsq := nmsq }

def Kopstat.nextRsize (k : Kopstat) (rl : ℕ) : Option Kopstat := do
  let mean ← runningMean k.kopRsize rl k.kopOk
  some { k with kopRsize := mean }

def Kopstat.nextKlen (k : Kopstat) (kl : ℕ) : Option Kopstat := do
  let mean ← runningMean k.kopKlen kl k.kopOk
  some { k with kopKlen := mean }

def Kopstat.nextVlen (k : Kopstat) (vl : ℕ) : Option Kopstat := do
  let mean ← runningMean k.kopVlen vl k.kopOk
  some { k with kopVlen := mean }

/-- The means that have no squares. -/
def Kopstat.nextLens (k : Kopstat) (z : Sizes) : Option Kopstat := do
  let k ← k.nextRsize z.rl
  let k ← k.nextKlen z.kl
  k.nextVlen z.vl

/-- The sizes of the others. -/
def Kopstat.nextSizes (k : Kopstat) (z : Sizes) : Option Kopstat := do
  let k ← k.nextSsize z.sl
  k.nextLens z

/-- What most completions do with an operation that succeeds. -/
def okSizes (k : Kopstat) (z : Sizes) : Option Kopstat :=
  let k := k.counted
  if k.kopOk = 1 then some (k.firstSizes z) else k.nextSizes z

/-- In `p_put_aio_complete` -/
def putOk : Kopstat → Sizes → Option Kopstat := okSizes

/-- In `d_del_aio_complete` -/
def delOk : Kopstat → Sizes → Option Kopstat := okSizes

/-- In `g_get_aio_complete`: the first size sent is stored to `kop_smsq`, which is cleared next, and
the other means are not set but moved. -/
def getOk (k : Kopstat) (z : Sizes) : Option Kopstat := do
  let k := k.counted
  let k ← if k.kopOk = 1 then some { { k with kopSmsq := z.sl } with kopSmsq := 0 }
    else k.nextSsize z.sl
  k.nextLens z

/-- In `n_noop_aio_complete` -/
def noopOk (k : Kopstat) (z : Sizes) : Option Kopstat := okSizes k { z with kl := 0, vl := 0 }

/-- In `f_flush_aio_complete` -/
def flushOk (k : Kopstat) (z : Sizes) : Option Kopstat := okSizes k { z with kl := 0, vl := 0 }

/-- In `e_exec_aio_complete`: no lengths of keys and values. -/
def execOk (k : Kopstat) (z : Sizes) : Option Kopstat :=
  let k := k.counted
  if k.kopOk = 1 then some { k with kopSsize := z.sl, kopSmsq := 0, kopRsize := z.rl }
  else do
    let k ← k.nextSsize z.sl
    k.nextRsize z.rl

/-- What the completions of a kind do. -/
def kopOk : Kop → Kopstat → Sizes → Option Kopstat
  | .puts => putOk
  | .dels => delOk
  | .gets => getOk
  | .noops => noopOk
  | .flushs => flushOk
  | .execs => execOk

/-- `tsa_first` -/
def tsaFirst (a : Tsa) (t : ℚ) : Tsa := { a with ttotal := t, tmean := t, tmeansq := 0 }

/-- `tsa_next` -/
def tsaNext (a : Tsa) (t : ℚ) (n : BitVec 32) : Option Tsa := do
  let nmn ← runningMean a.tmean t n
  let nsq := a.tmeansq + (t - a.tmean) * (t - nmn)
  some { a with ttotal := a.ttotal + t, tmean := nmn, tmeansq := nsq }

/-- **`s_stats_addts`** -/
def sStatsAddts (ts : KioTs) (k : Kopstat) : Option Kopstat :=
  let (tt, st, rt) := statsIntervals ts
  if dropsSample ts then
    some { k with kopOk := k.kopOk - 1, kopDropped := k.kopDropped + 1 }
  else if k.kopOk = 1 then
    some { k with
      kopTot := tsaFirst k.kopTot tt
      kopReq := tsaFirst k.kopReq st
      kopResp := tsaFirst k.kopResp rt }
  else do
    let tot ← tsaNext k.kopTot tt k.kopOk
    let req ← tsaNext k.kopReq st k.kopOk
    let resp ← tsaNext k.kopResp rt k.kopOk
    some { k with kopTot := tot, kopReq := req, kopResp := resp }

/-- What an entry of the statistics does to the numbers of its kind. -/
def apply (kop : Kop) (ts : KioTs) (k : Kopstat) : KopEv → Option Kopstat
  | .err => some { k with kopErr := k.kopErr + 1 }
  | .ok sl rl kl vl => kopOk kop k { sl, rl, kl, vl }
  | .ts => sStatsAddts ts k

/-- What the entries of a completion do. -/
def account (kop : Kop) (ts : KioTs) (events : List KopEv) (k : Kopstat) : Option Kopstat :=
  events.foldlM (apply kop ts) k

/-! ### The counters -/

section Counters
variable {k k' : Kopstat} {z : Sizes} {m x : ℚ} {n : BitVec 32} {ts : KioTs} {kop : Kop}

theorem runningMean_eq (hn : n ≠ 0) (m x : ℚ) :
    runningMean m x n = some (nextMean m x n.toNat) := by
  rw [runningMean, quot, if_neg hn]
  rfl

theorem nextSsize_eq (hn : k.kopOk ≠ 0) (sl : ℕ) : k.nextSsize sl =
    some { k with
      kopSsize := nextMean k.kopSsize sl k.kopOk.toNat
      kopSmsq := nextSqdev k.kopSsize k.kopSmsq sl k.kopOk.toNat } := by
  rw [Kopstat.nextSsize, runningMean_eq hn]
  rfl

theorem nextLens_eq (hn : k.kopOk ≠ 0) (z : Sizes) : k.nextLens z =
    some { k with
      kopRsize := nextMean k.kopRsize z.rl k.kopOk.toNat
      kopKlen := nextMean k.kopKlen z.kl k.kopOk.toNat
      kopVlen := nextMean k.kopVlen z.vl k.kopOk.toNat } := by
  simp only [Kopstat.nextLens, Kopstat.nextRsize, Kopstat.nextKlen, Kopstat.nextVlen,
    runningMean_eq hn, Option.bind_eq_bind, Option.bind_some]

theorem nextSsize_zero (hn : k.kopOk = 0) (sl : ℕ) : k.nextSsize sl = none := by
  rw [Kopstat.nextSsize, hn]
  rfl

theorem nextSizes_eq (hn : k.kopOk ≠ 0) (z : Sizes) : k.nextSizes z =
    some { k with
      kopSsize := nextMean k.kopSsize z.sl k.kopOk.toNat
      kopSmsq := nextSqdev k.kopSsize k.kopSmsq z.sl k.kopOk.toNat
      kopRsize := nextMean k.kopRsize z.rl k.kopOk.toNat
      kopKlen := nextMean k.kopKlen z.kl k.kopOk.toNat
      kopVlen := nextMean k.kopVlen z.vl k.kopOk.toNat } := by
  rw [Kopstat.nextSizes, nextSsize_eq hn, Option.bind_eq_bind, Option.bind_some]
  exact (nextLens_eq (by exact hn) z).trans rfl

theorem nextSizes_zero (hn : k.kopOk = 0) (z : Sizes) : k.nextSizes z = none := by
  rw [Kopstat.nextSizes, nextSsize_zero hn]
  rfl

theorem tsaNext_eq (hn : n ≠ 0) (a : Tsa) (t : ℚ) : tsaNext a t n =
    some { a with
      ttotal := a.ttotal + t
      tmean := nextMean a.tmean t n.toNat
      tmeansq := nextSqdev a.tmean a.tmeansq t n.toNat } := by
  rw [tsaNext, runningMean_eq hn]
  rfl

theorem tsaNext_zero (a : Tsa) (t : ℚ) : tsaNext a t 0 = none := rfl

theorem okSizes_first (hn : k.kopOk + 1 = 1) (z : Sizes) :
    okSizes k z = some (k.counted.firstSizes z) := if_pos hn

theorem okSizes_next (hn : k.kopOk + 1 ≠ 1) (z : Sizes) :
    okSizes k z = k.counted.nextSizes z := if_neg hn

/-- The statistics without those of the sizes. -/
def Kopstat.unsized (k : Kopstat) : Kopstat :=
  { k with kopSsize := 0, kopSmsq := 0, kopRsize := 0, kopKlen := 0, kopVlen := 0 }

/-- The recurrence of the sizes counts the operation and moves nothing else. -/
theorem unsized_okSizes (h : okSizes k z = some k') : k'.unsized = k.counted.unsized := by
  by_cases h1 : k.kopOk + 1 = 1
  · rw [okSizes_first h1, Option.some.injEq] at h
    rw [← h]
    rfl
  · rw [okSizes_next h1] at h
    by_cases h0 : k.counted.kopOk = 0
    · rw [nextSizes_zero h0] at h
      cases h
    · rw [nextSizes_eq h0, Option.some.injEq] at h
      rw [← h]
      rfl

theorem getOk_first (hn : k.kopOk + 1 = 1) (z : Sizes) : getOk k z =
    some { k.counted with
      kopSmsq := 0
      kopRsize := nextMean k.kopRsize z.rl 1
      kopKlen := nextMean k.kopKlen z.kl 1
      kopVlen := nextMean k.kopVlen z.vl 1 } := by
  have h1 : k.counted.kopOk = 1 := hn
  have h0 : k.counted.kopOk ≠ 0 := by
    rw [h1]
    decide
  have hone : k.counted.kopOk.toNat = 1 := by
    rw [h1]
    rfl
  rw [getOk, if_pos h1]
  refine (nextLens_eq (by exact h0) z).trans ?_
  simp only [hone]
  rfl

/-- After the first operation a get does what the others do. -/
theorem getOk_next (hn : k.kopOk + 1 ≠ 1) (z : Sizes) : getOk k z = k.counted.nextSizes z := by
  have h1 : k.counted.kopOk ≠ 1 := hn
  rw [getOk, if_neg h1]
  rfl

/-- **The sizes of an operation of any kind** are folded in beside the rest. -/
theorem unsized_kopOk (h : kopOk kop k z = some k') : k'.unsized = k.counted.unsized := by
  cases kop with
  | puts | dels | noops | flushs => exact unsized_okSizes h
  | gets =>
    replace h : getOk k z = some k' := h
    by_cases h1 : k.kopOk + 1 = 1
    · rw [getOk_first h1, Option.some.injEq] at h
      rw [← h]
      rfl
    · rw [getOk_next h1, ← okSizes_next h1] at h
      exact unsized_okSizes h
  | execs =>
    replace h : execOk k z = some k' := h
    unfold execOk at h
    dsimp only at h
    split_ifs at h with h1
    · rw [Option.some.injEq] at h
      rw [← h]
      rfl
    · by_cases h0 : k.counted.kopOk = 0
      · rw [nextSsize_zero h0] at h
        cases h
      · rw [nextSsize_eq h0, Option.bind_eq_bind, Option.bind_some, Kopstat.nextRsize,
          runningMean_eq (by exact h0), Option.bind_eq_bind, Option.bind_some,
          Option.some.injEq] at h
        rw [← h]
        rfl

theorem kopOk_counters (h : kopOk kop k z = some k') :
    k'.toKopstat = { k.toKopstat with kopOk := k.kopOk + 1 } :=
  congrArg Kopstat.toKopstat (unsized_kopOk h)

theorem sStatsAddts_dropped (hd : dropsSample ts = true) (k : Kopstat) : sStatsAddts ts k =
    some { k with kopOk := k.kopOk - 1, kopDropped := k.kopDropped + 1 } := if_pos hd

theorem sStatsAddts_first (hd : dropsSample ts = false) (h1 : k.kopOk = 1) : sStatsAddts ts k =
    some { k with
      kopTot := tsaFirst k.kopTot (statsIntervals ts).1
      kopReq := tsaFirst k.kopReq (statsIntervals ts).2.1
      kopResp := tsaFirst k.kopResp (statsIntervals ts).2.2 } := by
  unfold sStatsAddts
  simp only [hd, h1, if_true, Bool.false_eq_true, if_false]

theorem sStatsAddts_next (hd : dropsSample ts = false) (h1 : k.kopOk ≠ 1) (h0 : k.kopOk ≠ 0) :
    sStatsAddts ts k = some { k with
      kopTot := { k.kopTot with
        ttotal := k.kopTot.ttotal + (statsIntervals ts).1
        tmean := nextMean k.kopTot.tmean (statsIntervals ts).1 k.kopOk.toNat
        tmeansq := nextSqdev k.kopTot.tmean k.kopTot.tmeansq (statsIntervals ts).1 k.kopOk.toNat }
      kopReq := { k.kopReq with
        ttotal := k.kopReq.ttotal + (statsIntervals ts).2.1
        tmean := nextMean k.kopReq.tmean (statsIntervals ts).2.1 k.kopOk.toNat
        tmeansq := nextSqdev k.kopReq.tmean k.kopReq.tmeansq (statsIntervals ts).2.1 k.kopOk.toNat }
      kopResp := { k.kopResp with
        ttotal := k.kopResp.ttotal + (statsIntervals ts).2.2
        tmean := nextMean k.kopResp.tmean (statsIntervals ts).2.2 k.kopOk.toNat
        tmeansq :=
          nextSqdev k.kopResp.tmean k.kopResp.tmeansq (statsIntervals ts).2.2 k.kopOk.toNat } } := by
  unfold sStatsAddts
  simp only [hd, h1, Bool.false_eq_true, if_false, tsaNext_eq h0, Option.bind_eq_bind,
    Option.bind_some]

/-- A sample that is used, when the count has come round to 0, is divided by it. -/
theorem sStatsAddts_zero (hd : dropsSample ts = false) (h0 : k.kopOk = 0) :
    sStatsAddts ts k = none := by
  have h1 : ¬ (0 : BitVec 32) = 1 := by decide
  unfold sStatsAddts
  simp only [hd, h0, h1, Bool.false_eq_true, if_false, tsaNext_zero, Option.bind_eq_bind,
    Option.bind_none]

theorem sStatsAddts_counters (h : sStatsAddts ts k = some k') :
    k'.toKopstat = Kinetic.sStatsAddts ts k.toKopstat := by
  rw [Kinetic.sStatsAddts_eq]
  cases hd : dropsSample ts with
  | true =>
    rw [sStatsAddts_dropped hd, Option.some.injEq] at h
    rw [← h]
    rfl
  | false =>
    by_cases h1 : k.kopOk = 1
    · rw [sStatsAddts_first hd h1, Option.some.injEq] at h
      rw [← h]
      rfl
    · by_cases h0 : k.kopOk = 0
      · rw [sStatsAddts_zero hd h0] at h
        cases h
      · rw [sStatsAddts_next hd h1 h0, Option.some.injEq] at h
        rw [← h]
        rfl

/-- **The counters** move as in the model without the numbers. -/
theorem apply_counters {ev : KopEv} (h : apply kop ts k ev = some k') :
    k'.toKopstat = ev.count ts k.toKopstat := by
  cases ev with
  | err =>
    obtain rfl := Option.some.inj h
    rfl
  | ok sl rl kl vl => exact kopOk_counters h
  | ts => exact sStatsAddts_counters h

theorem account_counters {events : List KopEv} (h : account kop ts events k = some k') :
    k'.toKopstat = events.foldl (KopEv.count ts) k.toKopstat := by
  induction events generalizing k with
  | nil =>
    obtain rfl := Option.some.inj h
    rfl
  | cons ev events ih =>
    obtain ⟨k1, h1, h2⟩ := Option.bind_eq_some_iff.mp h
    rw [List.foldl_cons, ← apply_counters h1]
    exact ih h2

end Counters

end Libkinetic.Kinetic.Stats
