import Libkinetic.Kinetic.Kopstat

/-! # The sizes of the operations

Runs of completions that succeed, on cleared statistics. The sizes are folded in before the
timestamps are looked at, so that a sample that is dropped takes its operation out of the count but
not out of the means. The gets do not store the first size they send. -/

namespace Libkinetic.Kinetic.Stats

open Libkinetic.Base.Moments Libkinetic.Base.Runs

/-! ### What a completion enters -/

/-- The entries of a completion that succeeds. -/
def okEvents (z : Sizes) (tstat : Bool) : List KopEv :=
  .ok z.sl z.rl z.kl z.vl :: if tstat then [.ts] else []

/-- The lengths, added up in `uint32_t`. -/
def sizes32 (sl rl : ℕ) (lens : ℕ × ℕ) : Sizes :=
  { sl := uint32 sl, rl := uint32 rl, kl := uint32 lens.1, vl := uint32 lens.2 }

section Events
variable {α β : Type*} {kop : Kop} {ses : Ksession} {sl rl : ℕ} {lens : α → ℕ × ℕ}
  {decode : Resp β → KStatus × α} {caller : α} {c : Completion β}

theorem aioDone_events (h : (aioDone kop ses sl rl lens decode caller c).krc = .kOk) :
    (aioDone kop ses sl rl lens decode caller c).events =
      okEvents (sizes32 sl rl (lens (aioDone kop ses sl rl lens decode caller c).caller))
        (ses.kopTstat kop) := by
  rcases c with _ | _ | _ | _ | _ | _ | _ | m
  · cases h
  · cases h
  · cases h
  · cases h
  · cases h
  all_goals
    simp only [aioDone] at h ⊢
    rw [krcEvents, if_pos h]
    rfl

/-- The bytes received for a put or a delete: none in a batch. -/
def kvRecvlen (a : Answer KprotoKv) (kb : Option Kb) : ℕ := if kb.isSome then 0 else a.recvlen

theorem kvAioComplete_events {extract : RespMsg KprotoKv → Kv → KStatus × Kv}
    {a : Answer KprotoKv} {kv : Kv} {kb : Option Kb}
    (h : (kvAioComplete kop extract a ses sl kv kb).krc = .kOk) :
    (kvAioComplete kop extract a ses sl kv kb).events =
      okEvents (sizes32 sl (kvRecvlen a kb)
        (kvLens (kvAioComplete kop extract a ses sl kv kb).caller)) (ses.kopTstat kop) := by
  cases kb with
  | none => exact aioDone_events h
  | some kb => exact aioDone_events h

/-- A get that succeeds enters its sizes in the same way. -/
theorem gGetAioComplete_events {a : GetAnswer} {kio : GetKio} {kv : Kv} {altkv : Option Kv}
    (h : (gGetAioComplete a ses kio kv altkv).krc = .kOk) :
    ∃ z, (gGetAioComplete a ses kio kv altkv).events = okEvents z (ses.kopTstat .gets) := by
  obtain ⟨c, msglen, val⟩ := a
  rcases c with _ | _ | _ | _ | _ | _ | _ | m
  · cases h
  · cases h
  · cases h
  · cases h
  · cases h
  · cases h
  · cases h
  · simp only [gGetAioComplete, getFinish] at h ⊢
    rw [if_pos h]
    exact ⟨⟨_, _, _, _⟩, rfl⟩

end Events

section Numbers
variable {k k1 k' : Kopstat} {l : List Sizes} {z : Sizes} {ts : KioTs} {kop : Kop}

theorem toNat_succ_of_lt {n : BitVec 32} (h : n.toNat + 1 < 2 ^ 32) :
    (n + 1).toNat = n.toNat + 1 := by
  rw [BitVec.toNat_add]
  exact Nat.mod_eq_of_lt h

/-- The count goes up by one, unless it comes round to 0. -/
theorem toNat_succ {n : BitVec 32} (h : n + 1 ≠ 0) : (n + 1).toNat = n.toNat + 1 := by
  have hne : n.toNat + 1 ≠ 2 ^ 32 := by
    intro hn
    refine h (BitVec.eq_of_toNat_eq ?_)
    rw [BitVec.toNat_add]
    show (n.toNat + 1) % 2 ^ 32 = 0
    rw [hn, Nat.mod_self]
  have hlt := n.isLt
  exact toNat_succ_of_lt (by omega)

theorem succ_eq_one_iff {n : BitVec 32} : n + 1 = 1 ↔ n = 0 := by
  constructor
  · intro h
    exact add_eq_right.mp h
  · rintro rfl
    rfl

theorem account_ok (kop : Kop) (ts : KioTs) (z : Sizes) (tstat : Bool) (k : Kopstat) :
    account kop ts (okEvents z tstat) k =
      (kopOk kop k z).bind fun k1 => if tstat then sStatsAddts ts k1 else some k1 := by
  cases tstat with
  | false => rfl
  | true =>
    unfold account okEvents
    simp only [if_true, List.foldlM_cons, List.foldlM_nil, Option.bind_eq_bind, Option.pure_def,
      Option.bind_fun_some]
    rfl

/-! ### The means of the operations that count -/

/-- One of the four lengths of some operations. -/
def column (f : Sizes → ℕ) (l : List Sizes) : List ℚ := l.map fun z => (f z : ℚ)

theorem column_concat (f : Sizes → ℕ) (l : List Sizes) (z : Sizes) :
    column f (l ++ [z]) = column f l ++ [(f z : ℚ)] := by
  simp [column]

@[simp] theorem length_column (f : Sizes → ℕ) (l : List Sizes) : (column f l).length = l.length :=
  List.length_map _

/-- **The size statistics are those of the operations `l`**, if there is any. -/
structure Means (k : Kopstat) (l : List Sizes) : Prop where
  ok : k.kopOk.toNat = l.length
  ssize : l ≠ [] → k.kopSsize = mean (column Sizes.sl l)
  smsq : l ≠ [] → k.kopSmsq = sqdev (column Sizes.sl l)
  rsize : l ≠ [] → k.kopRsize = mean (column Sizes.rl l)
  klen : l ≠ [] → k.kopKlen = mean (column Sizes.kl l)
  vlen : l ≠ [] → k.kopVlen = mean (column Sizes.vl l)

/-- The four sizes are the means already. -/
structure AtMeans (k : Kopstat) (z : Sizes) : Prop where
  ssize : (z.sl : ℚ) = k.kopSsize
  rsize : (z.rl : ℚ) = k.kopRsize
  klen : (z.kl : ℚ) = k.kopKlen
  vlen : (z.vl : ℚ) = k.kopVlen

theorem means_cleared (flags : BitVec 32) : Means { kopFlags := flags } [] :=
  ⟨rfl, fun h => absurd rfl h, fun h => absurd rfl h, fun h => absurd rfl h, fun h => absurd rfl h,
    fun h => absurd rfl h⟩

/-- The count is 0 just if no operation counts. -/
theorem Means.kopOk_eq_zero_iff (h : Means k l) : k.kopOk = 0 ↔ l = [] := by
  rw [← List.length_eq_zero_iff, ← h.ok]
  exact ⟨fun h0 => by rw [h0]; rfl, fun h0 => BitVec.eq_of_toNat_eq h0⟩

/-- **An operation that counts.** -/
theorem Means.okSizes (h : Means k l) (h0 : k.kopOk + 1 ≠ 0) (z : Sizes) :
    ∃ k1, Stats.okSizes k z = some k1 ∧ Means k1 (l ++ [z]) := by
  have hlen : (k.kopOk + 1).toNat = l.length + 1 := by rw [toNat_succ h0, h.ok]
  have hok : (k.kopOk + 1).toNat = (l ++ [z]).length := by
    rw [hlen, List.length_append, List.length_singleton]
  by_cases hl : l = []
  · subst hl
    have h1 : k.kopOk + 1 = 1 := succ_eq_one_iff.mpr (h.kopOk_eq_zero_iff.mpr rfl)
    refine ⟨_, okSizes_first h1 z, hok, ?_, ?_, ?_, ?_, ?_⟩ <;> intro _
    · exact (mean_singleton _).symm
    · exact (sqdev_singleton _).symm
    · exact (mean_singleton _).symm
    · exact (mean_singleton _).symm
    · exact (mean_singleton _).symm
  · have h1 : k.kopOk + 1 ≠ 1 := fun h1 => hl (h.kopOk_eq_zero_iff.mp (succ_eq_one_iff.mp h1))
    refine ⟨_, (okSizes_next h1 z).trans (nextSizes_eq (by exact h0) z), hok, ?_, ?_, ?_, ?_, ?_⟩ <;>
      intro _ <;> rw [column_concat]
    · rw [mean_concat, length_column, ← hlen, ← h.ssize hl]
      rfl
    · rw [sqdev_concat, length_column, ← hlen, ← h.ssize hl, ← h.smsq hl]
      rfl
    · rw [mean_concat, length_column, ← hlen, ← h.rsize hl]
      rfl
    · rw [mean_concat, length_column, ← hlen, ← h.klen hl]
      rfl
    · rw [mean_concat, length_column, ← hlen, ← h.vlen hl]
      rfl

/-- The intervals leave the sizes alone. -/
theorem Means.addts (h : Means k l) (h0 : k.kopOk ≠ 0) (hd : dropsSample ts = false) :
    ∃ k1, sStatsAddts ts k = some k1 ∧ Means k1 l := by
  by_cases h1 : k.kopOk = 1
  · exact ⟨_, sStatsAddts_first hd h1, h.ok, h.ssize, h.smsq, h.rsize, h.klen, h.vlen⟩
  · exact ⟨_, sStatsAddts_next hd h1 h0, h.ok, h.ssize, h.smsq, h.rsize, h.klen, h.vlen⟩

/-- A mean with one more value is the mean without it just if the value is the mean. -/
theorem mean_concat_eq_iff (f : Sizes → ℕ) (l : List Sizes) (z : Sizes) :
    mean (column f (l ++ [z])) = mean (column f l) ↔ (f z : ℚ) = mean (column f l) := by
  rw [column_concat, mean_concat]
  exact nextMean_eq_iff (Nat.succ_ne_zero _)

/-- **An operation that is taken back** from the count only leaves the statistics of the others if
there are no others, or its sizes are their means. -/
theorem Means.dropped_iff (h : Means k l) (h1 : Means k1 (l ++ [z]))
    (hok : k1.kopOk = k.kopOk + 1) :
    Means { k1 with kopOk := k1.kopOk - 1, kopDropped := k1.kopDropped + 1 } l ↔
      k.kopOk = 0 ∨ AtMeans k z := by
  have hcount : (k1.kopOk - 1).toNat = l.length := by rw [hok, add_sub_cancel_right, h.ok]
  have hne : l ++ [z] ≠ [] := by simp
  rw [h.kopOk_eq_zero_iff]
  constructor
  · intro hm
    refine or_iff_not_imp_left.mpr fun hl => ⟨?_, ?_, ?_, ?_⟩
    · rw [h.ssize hl, ← mean_concat_eq_iff, ← h1.ssize hne]
      exact hm.ssize hl
    · rw [h.rsize hl, ← mean_concat_eq_iff, ← h1.rsize hne]
      exact hm.rsize hl
    · rw [h.klen hl, ← mean_concat_eq_iff, ← h1.klen hne]
      exact hm.klen hl
    · rw [h.vlen hl, ← mean_concat_eq_iff, ← h1.vlen hne]
      exact hm.vlen hl
  · rintro (rfl | hat)
    · exact ⟨hcount, fun hl => absurd rfl hl, fun hl => absurd rfl hl, fun hl => absurd rfl hl,
        fun hl => absurd rfl hl, fun hl => absurd rfl hl⟩
    · refine ⟨hcount, fun hl => ?_, fun hl => ?_, fun hl => ?_, fun hl => ?_, fun hl => ?_⟩
      · exact (h1.ssize hne).trans ((mean_concat_eq_iff _ _ _).mpr (hat.ssize.trans (h.ssize hl)))
      · refine (h1.smsq hne).trans ?_
        rw [column_concat, sqdev_concat, hat.ssize, h.ssize hl, nextSqdev_self]
      · exact (h1.rsize hne).trans ((mean_concat_eq_iff _ _ _).mpr (hat.rsize.trans (h.rsize hl)))
      · exact (h1.klen hne).trans ((mean_concat_eq_iff _ _ _).mpr (hat.klen.trans (h.klen hl)))
      · exact (h1.vlen hne).trans ((mean_concat_eq_iff _ _ _).mpr (hat.vlen.trans (h.vlen hl)))

end Numbers

/-! ### Runs of puts -/

/-- A completion of a put that succeeds, with the timestamps of its kio. -/
structure PutDone where
  ses : Ksession
  answer : Answer KprotoKv
  sendlen : ℕ
  kv : Kv
  kb : Option Kb
  ts : KioTs
  success : (pPutAioComplete answer ses sendlen kv kb).krc = .kOk

namespace PutDone
variable (p : PutDone)

def done : Done Kv := pPutAioComplete p.answer p.ses p.sendlen p.kv p.kb

/-- The lengths that it adds up. -/
def sizes : Sizes := sizes32 p.sendlen (kvRecvlen p.answer p.kb) (kvLens p.done.caller)

/-- Timestamps are taken, and their sample is not used. -/
def dropped : Bool := p.ses.kopTstat .puts && dropsSample p.ts

theorem done_events : p.done.events = okEvents p.sizes (p.ses.kopTstat .puts) :=
  kvAioComplete_events p.success

end PutDone

/-- The statistics after a completion. -/
def putStep (k : Kopstat) (p : PutDone) : Option Kopstat := account .puts p.ts p.done.events k

/-- The operations that count. -/
def putLog (_ : Kopstat) (p : PutDone) (_ : Kopstat) (l : List Sizes) : List Sizes :=
  if p.dropped then l else l ++ [p.sizes]

/-- The count does not come round to 0, and an operation with a sample that is dropped is the first
one or has the mean sizes. -/
def PutKeeps (s : Kopstat × List Sizes) (p : PutDone) : Prop :=
  s.1.kopOk + 1 ≠ 0 ∧ (p.dropped = true → s.1.kopOk = 0 ∨ AtMeans s.1 p.sizes)

theorem putStep_means_iff (s : Kopstat × List Sizes) (p : PutDone) (h : Means s.1 s.2) :
    (∃ s', logged putStep putLog s p = some s' ∧ Means s'.1 s'.2) ↔ PutKeeps s p := by
  obtain ⟨k, l⟩ := s
  have hstep : putStep k p = (okSizes k p.sizes).bind fun k1 =>
      if p.ses.kopTstat .puts then sStatsAddts p.ts k1 else some k1 := by
    rw [putStep, p.done_events, account_ok]
    rfl
  unfold PutKeeps logged
  dsimp only at h ⊢
  by_cases h0 : k.kopOk + 1 = 0
  · -- a division by the count
    have h1 : k.kopOk + 1 ≠ 1 := by
      rw [h0]
      decide
    rw [hstep, okSizes_next h1, nextSizes_zero (by exact h0)]
    refine iff_of_false ?_ fun hk => hk.1 h0
    rintro ⟨s', hs', -⟩
    cases hs'
  obtain ⟨k1, hk1, hm1⟩ := h.okSizes h0 p.sizes
  have hok : k1.kopOk = k.kopOk + 1 :=
    congrArg (fun k => k.kopOk) (unsized_okSizes hk1)
  rw [hstep, hk1, Option.bind_some]
  cases hd : p.dropped with
  | false =>
    refine iff_of_true ?_ ⟨h0, fun hd => by cases hd⟩
    unfold putLog
    rw [hd]
    by_cases ht : p.ses.kopTstat .puts = true
    · have hsample : dropsSample p.ts = false := by
        simpa [PutDone.dropped, ht] using hd
      obtain ⟨k2, hk2, hm2⟩ := hm1.addts (by rw [hok]; exact h0) hsample
      rw [if_pos ht, hk2]
      exact ⟨_, rfl, hm2⟩
    · rw [if_neg ht]
      exact ⟨_, rfl, hm1⟩
  | true =>
    obtain ⟨ht, hsample⟩ : p.ses.kopTstat .puts = true ∧ dropsSample p.ts = true := by
      simpa [PutDone.dropped] using hd
    rw [if_pos ht, sStatsAddts_dropped hsample]
    unfold putLog
    rw [hd, if_pos rfl]
    simp only [Option.map_some, Option.some.injEq, exists_eq_left']
    rw [h.dropped_iff hm1 hok]
    exact ⟨fun hor => ⟨h0, fun _ => hor⟩, fun hand => hand.2 trivial⟩

/-- **In a run of puts** the size statistics are those of the operations that count, at every
moment, if and only if no operation but the first is dropped with other sizes than the means, and
the count does not come round. -/
theorem put_means_iff (flags : BitVec 32) (ps : List PutDone) :
    (∀ pre, pre <+: ps → ∃ s, run (logged putStep putLog) ({ kopFlags := flags }, []) pre = some s ∧
        Means s.1 s.2) ↔
      RunOk (logged putStep putLog) PutKeeps ({ kopFlags := flags }, []) ps :=
  forall_run_exists_iff putStep_means_iff ps (means_cleared flags)

def okAnswer : Answer KprotoKv :=
  { completion := .resp (.msg (.cmd ⟨some .kOk, some {}⟩)) }

/-- A put with timestamps that sends `sl` bytes. -/
def putOf (sl : ℕ) (ts : KioTs) : PutDone where
  ses := { getSes with kopTstat := fun _ => true }
  answer := okAnswer
  sendlen := sl
  kv := firstKv
  kb := none
  ts := ts
  success := rfl

/-- A put of 50 bytes that counts, and one of 60 bytes with a sample that is dropped. -/
def droppedPuts : List PutDone := [putOf 50 plainTs, putOf 60 borrowedTs]

theorem run_droppedPuts :
    (run (logged putStep putLog) ({ kopFlags := kopfTstat }, []) droppedPuts).map
        (fun s => (s.1.kopOk, s.1.kopDropped, s.1.kopSsize, s.2.map Sizes.sl)) =
      some (1, 1, 55, [50]) := by decide +kernel

/-- **A dropped put stays in the means**: one operation of 50 bytes counts, and the mean is 55. -/
theorem droppedPuts_mean :
    ¬ ∀ pre, pre <+: droppedPuts →
      ∃ s, run (logged putStep putLog) ({ kopFlags := kopfTstat }, []) pre = some s ∧
        Means s.1 s.2 := by
  intro hall
  obtain ⟨s, hrun, hmeans⟩ := hall _ List.prefix_rfl
  have hs := run_droppedPuts
  rw [hrun, Option.map_some, Option.some.injEq] at hs
  obtain ⟨-, -, hssize, hlog⟩ : s.1.kopOk = 1 ∧ s.1.kopDropped = 1 ∧ s.1.kopSsize = 55 ∧
      s.2.map Sizes.sl = [50] := by simpa only [Prod.mk.injEq] using hs
  have hcol : column Sizes.sl s.2 = [50] := by
    have hmap : column Sizes.sl s.2 = (s.2.map Sizes.sl).map fun n : ℕ => (n : ℚ) := by
      simp [column]
    rw [hmap, hlog]
    rfl
  have hne : s.2 ≠ [] := by
    intro hnil
    rw [hnil] at hlog
    cases hlog
  have hmean := hmeans.ssize hne
  rw [hcol, mean_singleton, hssize] at hmean
  norm_num at hmean

/-! ### Gets, puts and deletes of the same sizes -/

/-- The statistics of the sizes, with the count that the recurrence divides by. -/
structure SizeStats where
  ok : BitVec 32
  ssize : ℚ
  smsq : ℚ
  rsize : ℚ
  klen : ℚ
  vlen : ℚ
deriving DecidableEq

def Kopstat.sizeStats (k : Kopstat) : SizeStats :=
  ⟨k.kopOk, k.kopSsize, k.kopSmsq, k.kopRsize, k.kopKlen, k.kopVlen⟩

/-- An operation that succeeds, of some sizes. -/
structure SameOp where
  z : Sizes
  tstat : Bool
  ts : KioTs

/-- The statistics of three kinds of operations. -/
structure GetPutDel where
  gets : Kopstat
  puts : Kopstat
  dels : Kopstat

/-- The same operation of each kind. -/
def GetPutDel.step (s : GetPutDel) (o : SameOp) : Option GetPutDel := do
  let gets ← account .gets o.ts (okEvents o.z o.tstat) s.gets
  let puts ← account .puts o.ts (okEvents o.z o.tstat) s.puts
  let dels ← account .dels o.ts (okEvents o.z o.tstat) s.dels
  some { gets, puts, dels }

/-- The three kinds have the same statistics of their sizes. -/
structure GetPutDel.Same (s : GetPutDel) : Prop where
  gets : s.gets.sizeStats = s.puts.sizeStats
  dels : s.dels.sizeStats = s.puts.sizeStats

/-- The first operation that counts has the mean size of the gets already. -/
def FirstAgrees (s : GetPutDel) (o : SameOp) : Prop :=
  s.puts.kopOk = 0 → s.gets.kopSsize = o.z.sl

instance (s : GetPutDel) (o : SameOp) : Decidable (FirstAgrees s o) :=
  inferInstanceAs (Decidable (_ → _))

section Sizes
variable {k k' g p g' p' : Kopstat} {z : Sizes} {ts : KioTs} {tstat : Bool} {kop kop' : Kop}

/-- What the intervals do to the statistics of the sizes. -/
def SizeStats.withIntervals (tstat : Bool) (ts : KioTs) (s : SizeStats) : Option SizeStats :=
  if ¬ tstat then some s
  else if dropsSample ts then some { s with ok := s.ok - 1 }
  else if s.ok = 0 then none
  else some s

theorem sizeStats_addts (ts : KioTs) (k : Kopstat) :
    (sStatsAddts ts k).map Kopstat.sizeStats = k.sizeStats.withIntervals true ts := by
  unfold SizeStats.withIntervals
  rw [if_neg (by simp)]
  cases hd : dropsSample ts with
  | true =>
    rw [sStatsAddts_dropped hd]
    rfl
  | false =>
    rw [if_neg Bool.false_ne_true]
    by_cases h0 : k.kopOk = 0
    · rw [sStatsAddts_zero hd h0, if_pos (by exact h0)]
      rfl
    · rw [if_neg (by exact h0)]
      by_cases h1 : k.kopOk = 1
      · rw [sStatsAddts_first hd h1]
        rfl
      · rw [sStatsAddts_next hd h1 h0]
        rfl

/-- **The statistics of the sizes** after an operation are those after its sizes and its
intervals. -/
theorem sizeStats_account (kop : Kop) (ts : KioTs) (z : Sizes) (tstat : Bool) (k : Kopstat) :
    (account kop ts (okEvents z tstat) k).map Kopstat.sizeStats =
      ((kopOk kop k z).map Kopstat.sizeStats).bind (SizeStats.withIntervals tstat ts) := by
  rw [account_ok]
  cases kopOk kop k z with
  | none => rfl
  | some k1 =>
    cases tstat with
    | false => rfl
    | true => exact sizeStats_addts ts k1

/-- The count of the first operation is not divided by before there is one. -/
theorem withIntervals_first {s : SizeStats} (h1 : s.ok = 1) (tstat : Bool) (ts : KioTs) :
    ∃ s', s.withIntervals tstat ts = some s' ∧ s'.ssize = s.ssize := by
  have h0 : s.ok ≠ 0 := by
    rw [h1]
    decide
  unfold SizeStats.withIntervals
  rw [if_neg h0]
  split_ifs
  · exact ⟨_, rfl, rfl⟩
  · exact ⟨_, rfl, rfl⟩
  · exact ⟨_, rfl, rfl⟩

theorem sizeStats_okSizes (h : g.sizeStats = p.sizeStats) :
    (okSizes g z).map Kopstat.sizeStats = (okSizes p z).map Kopstat.sizeStats := by
  simp only [Kopstat.sizeStats, SizeStats.mk.injEq] at h
  obtain ⟨hok, hs, hq, hr, hk, hv⟩ := h
  by_cases h1 : p.kopOk + 1 = 1
  · rw [okSizes_first h1, okSizes_first (by rw [hok]; exact h1)]
    simp only [Option.map_some, Kopstat.sizeStats, Kopstat.firstSizes, Kopstat.counted, hok]
  · rw [okSizes_next h1, okSizes_next (by rw [hok]; exact h1)]
    by_cases h0 : p.kopOk + 1 = 0
    · have hg0 : g.counted.kopOk = 0 := (congrArg (· + 1) hok).trans h0
      rw [nextSizes_zero hg0, nextSizes_zero (by exact h0)]
    · have hg0 : g.counted.kopOk ≠ 0 := fun h => h0 ((congrArg (· + 1) hok).symm.trans h)
      rw [nextSizes_eq hg0, nextSizes_eq (by exact h0)]
      simp only [Option.map_some, Kopstat.sizeStats, Kopstat.counted, hok, hs, hq, hr, hk, hv]

/-- After the first operation that counts, a get folds its sizes in as the others do. -/
theorem sizeStats_getOk_next (h : g.sizeStats = p.sizeStats) (h1 : p.kopOk ≠ 0) :
    (getOk g z).map Kopstat.sizeStats = (okSizes p z).map Kopstat.sizeStats := by
  have hok : g.kopOk = p.kopOk := congrArg SizeStats.ok h
  have hne : g.kopOk + 1 ≠ 1 := fun h => h1 (hok ▸ succ_eq_one_iff.mp h)
  rw [getOk_next hne, ← okSizes_next hne]
  exact sizeStats_okSizes h

/-- **The first get** leaves the mean of the sizes sent where it was. -/
theorem sizeStats_getOk_first (h1 : g.kopOk = 0) : (getOk g z).map Kopstat.sizeStats =
    some ⟨1, g.kopSsize, 0, z.rl, z.kl, z.vl⟩ := by
  have h : g.kopOk + 1 = 1 := succ_eq_one_iff.mpr h1
  rw [getOk_first h]
  simp only [Option.map_some, Kopstat.sizeStats, Kopstat.counted, nextMean_one, h]

theorem sizeStats_okSizes_first (h1 : p.kopOk = 0) : (okSizes p z).map Kopstat.sizeStats =
    some ⟨1, z.sl, 0, z.rl, z.kl, z.vl⟩ := by
  have h : p.kopOk + 1 = 1 := succ_eq_one_iff.mpr h1
  rw [okSizes_first h]
  simp only [Option.map_some, Kopstat.sizeStats, Kopstat.firstSizes, Kopstat.counted, h]

end Sizes

theorem GetPutDel.step_some {s s' : GetPutDel} {o : SameOp} (h : s.step o = some s') :
    account .gets o.ts (okEvents o.z o.tstat) s.gets = some s'.gets ∧
      account .puts o.ts (okEvents o.z o.tstat) s.puts = some s'.puts ∧
      account .dels o.ts (okEvents o.z o.tstat) s.dels = some s'.dels := by
  obtain ⟨gets, hg, h⟩ := Option.bind_eq_some_iff.mp h
  obtain ⟨puts, hp, h⟩ := Option.bind_eq_some_iff.mp h
  obtain ⟨dels, hd, h⟩ := Option.bind_eq_some_iff.mp h
  obtain rfl := Option.some.inj h
  exact ⟨hg, hp, hd⟩

section Step
variable {s s' : GetPutDel} {o : SameOp}

theorem same_step (h : s.Same) (hs : s.step o = some s')
    (hfirst : (getOk s.gets o.z).map Kopstat.sizeStats =
      (okSizes s.puts o.z).map Kopstat.sizeStats) : s'.Same := by
  obtain ⟨hg, hp, hd⟩ := GetPutDel.step_some hs
  have hmap := fun kop k => sizeStats_account kop o.ts o.z o.tstat k
  have hgets := hmap .gets s.gets
  have hputs := hmap .puts s.puts
  have hdels := hmap .dels s.dels
  rw [hg, show kopOk .gets s.gets o.z = getOk s.gets o.z from rfl, hfirst] at hgets
  rw [hp] at hputs
  rw [hd, show kopOk .dels s.dels o.z = okSizes s.dels o.z from rfl,
    sizeStats_okSizes h.dels] at hdels
  exact ⟨Option.some.inj (hgets.trans hputs.symm), Option.some.inj (hdels.trans hputs.symm)⟩

/-- The first operation goes through for each kind, and leaves the sizes sent as they came in. -/
theorem step_first (h : s.Same) (h0 : s.puts.kopOk = 0) (o : SameOp) :
    ∃ s', s.step o = some s' ∧ s'.gets.kopSsize = s.gets.kopSsize ∧
      s'.puts.kopSsize = o.z.sl := by
  have hg0 : s.gets.kopOk = 0 := (congrArg SizeStats.ok h.gets).trans h0
  have hd0 : s.dels.kopOk = 0 := (congrArg SizeStats.ok h.dels).trans h0
  have hone : ∀ kop k st, (kopOk kop k o.z).map Kopstat.sizeStats = some st → st.ok = 1 →
      ∃ k', account kop o.ts (okEvents o.z o.tstat) k = some k' ∧ k'.kopSsize = st.ssize := by
    intro kop k st hst h1
    obtain ⟨st', hst', hssize⟩ := withIntervals_first h1 o.tstat o.ts
    have hmap := sizeStats_account kop o.ts o.z o.tstat k
    rw [hst, Option.bind_some, hst', Option.map_eq_some_iff] at hmap
    obtain ⟨k', hk', rfl⟩ := hmap
    exact ⟨k', hk', hssize⟩
  obtain ⟨gets, hg, hgs⟩ := hone .gets s.gets _ (sizeStats_getOk_first hg0) rfl
  obtain ⟨puts, hp, hps⟩ := hone .puts s.puts _ (sizeStats_okSizes_first h0) rfl
  obtain ⟨dels, hd, -⟩ := hone .dels s.dels _ (sizeStats_okSizes_first hd0) rfl
  refine ⟨⟨gets, puts, dels⟩, ?_, hgs, hps⟩
  rw [GetPutDel.step, hg, hp, hd]
  rfl

theorem step_same_iff (s : GetPutDel) (o : SameOp) (h : s.Same) :
    (∀ s' ∈ s.step o, s'.Same) ↔ FirstAgrees s o := by
  by_cases h0 : s.puts.kopOk = 0
  · have hg0 : s.gets.kopOk = 0 := (congrArg SizeStats.ok h.gets).trans h0
    constructor
    · intro hall _
      obtain ⟨s', hs', hgets, hputs⟩ := step_first h h0 o
      have hsame : s'.gets.kopSsize = s'.puts.kopSsize :=
        congrArg SizeStats.ssize (hall s' hs').gets
      exact hgets.symm.trans (hsame.trans hputs)
    · intro hagrees s' hs'
      refine same_step h hs' ?_
      rw [sizeStats_getOk_first hg0, sizeStats_okSizes_first h0, hagrees h0]
  · refine iff_of_true (fun s' hs' => same_step h hs' ?_) fun h => absurd h h0
    exact sizeStats_getOk_next h.gets h0

/-- **In a run of the same gets, puts and deletes** the statistics of the sizes are the same at
every moment, if and only if each operation that counts as the first one sends as many bytes as the
mean of the gets is already. -/
theorem gets_same_iff (flags : BitVec 32) (os : List SameOp) :
    (∀ pre s, pre <+: os → run GetPutDel.step ⟨{ kopFlags := flags }, { kopFlags := flags },
        { kopFlags := flags }⟩ pre = some s → s.Same) ↔
      RunOk GetPutDel.step FirstAgrees ⟨{ kopFlags := flags }, { kopFlags := flags },
        { kopFlags := flags }⟩ os :=
  forall_run_iff step_same_iff os ⟨rfl, rfl⟩

end Step

/-- An operation of 50 bytes, and one of 60. -/
def twoSizes : List SameOp := [⟨⟨50, 40, 1, 0⟩, false, plainTs⟩, ⟨⟨60, 40, 1, 0⟩, false, plainTs⟩]

theorem run_twoSizes :
    (run GetPutDel.step ⟨{}, {}, {}⟩ twoSizes).map
        (fun s => (s.gets.kopSsize, s.puts.kopSsize, s.dels.kopSsize)) =
      some (30, 55, 55) := by decide +kernel

/-- **The first get is not in its mean**: of 50 bytes and 60 it is 30, where that of the puts and the
deletes is 55. -/
theorem twoSizes_differ :
    ¬ ∀ pre s, pre <+: twoSizes → run GetPutDel.step ⟨{}, {}, {}⟩ pre = some s → s.Same := by
  intro hall
  obtain ⟨s, hrun, heq⟩ := Option.map_eq_some_iff.mp run_twoSizes
  obtain ⟨hgets, hputs, -⟩ : s.gets.kopSsize = 30 ∧ s.puts.kopSsize = 55 ∧
      s.dels.kopSsize = 55 := by simpa only [Prod.mk.injEq] using heq
  have hsame : s.gets.kopSsize = s.puts.kopSsize :=
    congrArg SizeStats.ssize (hall _ s List.prefix_rfl hrun).gets
  rw [hgets, hputs] at hsame
  norm_num at hsame

end Libkinetic.Kinetic.Stats
