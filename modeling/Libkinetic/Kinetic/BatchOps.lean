import Libkinetic.Kinetic.Batch
import Libkinetic.Kinetic.Put
import Libkinetic.Kinetic.Del

/-! # The operations of a batch

Puts and deletes are queued for a batch one after the other, and the request that submits the batch
carries `kb_ops`. An operation that exceeds a limit, or that cannot be sent, was counted before: the
count is the number of the operations that are queued if and only if no operation that gets as far
as the accounting fails after it. -/

namespace Libkinetic.Kinetic

open Libkinetic.Base.Runs

/-! ### Runs -/

/-- A batch, and how many operations and deletes were issued with success. -/
structure OpSys where
  kb : Kb
  okOps : ℕ := 0
  okDels : ℕ := 0
deriving DecidableEq

inductive BatchOp
  | put (kv : Kv) (verck : Bool) (e : IssueEnv)
  | del (kv : Kv) (verck : Bool) (e : IssueEnv)

/-- An operation on the batch. -/
def opStep (ses : Ksession) (s : OpSys) : BatchOp → Option OpSys
  | .put kv verck e =>
    let r := pPutAioGeneric e ses kv (some s.kb) verck
    some
      { kb := r.kb.getD s.kb
        okOps := if r.krc = .kOk then s.okOps + 1 else s.okOps
        okDels := s.okDels }
  | .del kv verck e =>
    let r := dDelAioGeneric e ses kv (some s.kb) verck
    some
      { kb := r.kb.getD s.kb
        okOps := if r.krc = .kOk then s.okOps + 1 else s.okOps
        okDels := if r.krc = .kOk then s.okDels + 1 else s.okDels }

/-- A batch that was just started. -/
def Started (s : OpSys) : Prop :=
  s.kb.kbOps = 0 ∧ s.kb.kbDels = 0 ∧ s.kb.kbBytes = 0 ∧ s.okOps = 0 ∧ s.okDels = 0

instance (s : OpSys) : Decidable (Started s) := inferInstanceAs (Decidable (_ ∧ _))

/-- **The counts are right**, and so is the one that a submit would send. -/
def Counted (ses : Ksession) (s : OpSys) : Prop :=
  s.kb.kbOps = s.okOps ∧ s.kb.kbDels = s.okDels ∧
    ∀ e cmd, (bBatchAioGeneric e ses s.kb .kmtEndbat).req = some (some cmd) →
      cmd.body = some s.okOps

/-- The operation leaves right counts. -/
def KeepsCounts (ses : Ksession) (s : OpSys) (op : BatchOp) : Prop :=
  ∀ s' ∈ opStep ses s op, Counted ses s'

/-! ### What an operation does -/

/-- The length of the message of an operation that gets as far as the accounting. -/
def BatchOp.accounted (ses : Ksession) (kb : Kb) : BatchOp → Option ℕ
  | .put kv verck e => (putMessage e ses kv (some kb) verck).toOption.map Prod.snd
  | .del kv verck e => (delMessage e ses kv (some kb) verck).toOption.map Prod.snd

/-- The batch with the operation counted. -/
def BatchOp.count (kb : Kb) (msglen : ℕ) : BatchOp → Kb
  | .put kv _ _ => countPut kb msglen (kv.kvVal.getD [])
  | .del _ _ _ => countDel kb msglen

/-- The batch with the operation counted is in the limits, and the request can be sent. -/
def BatchOp.goesOut (lim : Klimits) (kb : Kb) : BatchOp → Bool
  | .put _ _ e => putFits lim kb && e.send
  | .del _ _ e => delFits lim kb && e.send

def BatchOp.isDel : BatchOp → Bool
  | .put .. => false
  | .del .. => true

/-- **The condition**: if the operation gets as far as the accounting, then it is in the limits, it
is sent, and there was room to count it. -/
def Passes (ses : Ksession) (s : OpSys) (op : BatchOp) : Prop :=
  ∀ msglen ∈ op.accounted ses s.kb,
    op.goesOut ses.ksL (op.count s.kb msglen) = true ∧ s.kb.kbOps + 1 < 2 ^ 32

section Ops
variable {ses : Ksession} {s s' : OpSys} {op : BatchOp}

/-- An operation that stops in front of the accounting changes nothing. -/
theorem opStep_stopped (h : op.accounted ses s.kb = none) : opStep ses s op = some s := by
  cases op with
  | put kv verck e =>
    rcases hm : putMessage e ses kv (some s.kb) verck with ⟨krc, events⟩ | ⟨cmd, msglen⟩
    · have hne : krc ≠ .kOk := kvMessage_ne_ok hm
      simp [opStep, pPutAioGeneric, hm, hne]
    · simp [BatchOp.accounted, hm, Except.toOption] at h
  | del kv verck e =>
    rcases hm : delMessage e ses kv (some s.kb) verck with ⟨krc, events⟩ | ⟨cmd, msglen⟩
    · have hne : krc ≠ .kOk := kvMessage_ne_ok hm
      simp [opStep, dDelAioGeneric, hm, hne]
    · simp [BatchOp.accounted, hm, Except.toOption] at h

/-- An operation that gets there is counted, and succeeds if it goes out. -/
theorem opStep_accounted {msglen : ℕ} (h : op.accounted ses s.kb = some msglen) :
    opStep ses s op = some
      { kb := op.count s.kb msglen
        okOps := s.okOps + (op.goesOut ses.ksL (op.count s.kb msglen)).toNat
        okDels :=
          s.okDels + (op.isDel && op.goesOut ses.ksL (op.count s.kb msglen)).toNat } := by
  cases op with
  | put kv verck e =>
    rcases hm : putMessage e ses kv (some s.kb) verck with ⟨krc, events⟩ | ⟨cmd, msglen'⟩
    · simp [BatchOp.accounted, hm, Except.toOption] at h
    · obtain rfl : msglen' = msglen := by
        simpa [BatchOp.accounted, hm, Except.toOption] using h
      by_cases hf : putFits ses.ksL (countPut s.kb msglen' (kv.kvVal.getD [])) = true <;>
        by_cases hs : e.send = true <;>
          simp [opStep, pPutAioGeneric, hm, BatchOp.count, BatchOp.goesOut, BatchOp.isDel, hf, hs]
  | del kv verck e =>
    rcases hm : delMessage e ses kv (some s.kb) verck with ⟨krc, events⟩ | ⟨cmd, msglen'⟩
    · simp [BatchOp.accounted, hm, Except.toOption] at h
    · obtain rfl : msglen' = msglen := by
        simpa [BatchOp.accounted, hm, Except.toOption] using h
      by_cases hf : delFits ses.ksL (countDel s.kb msglen') = true <;>
        by_cases hs : e.send = true <;>
          simp [opStep, dDelAioGeneric, hm, BatchOp.count, BatchOp.goesOut, BatchOp.isDel, hf, hs]

theorem count_kbOps (kb : Kb) (msglen : ℕ) :
    (op.count kb msglen).kbOps = uint32 (kb.kbOps + 1) := by
  cases op <;> rfl

theorem count_kbDels (kb : Kb) (msglen : ℕ) :
    (op.count kb msglen).kbDels = if op.isDel then uint32 (kb.kbDels + 1) else kb.kbDels := by
  cases op <;> rfl

/-- A submit that is sent carries the count of the batch. -/
theorem endBatch_body {e : IssueEnv} {kb : Kb} {cmd : Request (Option ℕ)}
    (h : (bBatchAioGeneric e ses kb .kmtEndbat).req = some (some cmd)) :
    cmd.body = some kb.kbOps := by
  have hreq : (sendBatch e ses kb .kmtEndbat).req = some (some cmd) := by
    rcases bBatchAioGeneric_cases e ses kb .kmtEndbat with ⟨krc, -, hr⟩ | ⟨ht, -⟩ | ⟨-, hr⟩
    · rw [hr] at h
      cases h
    · cases ht
    · rw [hr] at h
      exact h
  simp only [sendBatch] at hreq
  rcases hb : buildKio e (createBatchMessage e.message (batchHdr ses kb .kmtEndbat) kb.kbOps)
    .kEinternal with krc | ⟨kmreq, msglen⟩
  · simp [hb, bexKb] at hreq
  · have hkmreq : createBatchMessage e.message (batchHdr ses kb .kmtEndbat) kb.kbOps = some kmreq :=
      buildKio_ok hb
    by_cases hs : e.send = true
    · simp only [hb, hs, not_true_eq_false, if_false, Option.some.injEq] at hreq
      subst hreq
      unfold createBatchMessage at hkmreq
      split_ifs at hkmreq
      · cases hkmreq
        rfl
      · cases hkmreq
    · simp [hb, hs, bexKb] at hreq

theorem counted_iff :
    Counted ses s ↔ s.kb.kbOps = s.okOps ∧ s.kb.kbDels = s.okDels := by
  constructor
  · rintro ⟨hops, hdels, -⟩
    exact ⟨hops, hdels⟩
  · rintro ⟨hops, hdels⟩
    refine ⟨hops, hdels, fun e cmd hreq => ?_⟩
    rw [endBatch_body hreq, hops]

instance : Decidable (Counted ses s) := decidable_of_iff' _ counted_iff

instance (op : BatchOp) : Decidable (KeepsCounts ses s op) :=
  inferInstanceAs (Decidable (∀ s' ∈ opStep ses s op, Counted ses s'))

instance (op : BatchOp) : Decidable (Passes ses s op) :=
  inferInstanceAs (Decidable (∀ msglen ∈ op.accounted ses s.kb, _))

/-- The counts are right, and no more deletes than operations were issued with success. -/
def Queued (ses : Ksession) (s : OpSys) : Prop := Counted ses s ∧ s.okDels ≤ s.okOps

theorem Queued.step (h : Queued ses s) (hok : KeepsCounts ses s op)
    (hs : opStep ses s op = some s') : Queued ses s' := by
  refine ⟨hok s' hs, ?_⟩
  have hle := h.2
  cases ha : op.accounted ses s.kb with
  | none =>
    rw [opStep_stopped ha] at hs
    cases hs
    exact hle
  | some msglen =>
    rw [opStep_accounted ha] at hs
    cases hs
    cases op.isDel <;> simp <;> omega

/-- **One operation** keeps right counts if and only if it meets the condition. -/
theorem keepsCounts_iff (h : Queued ses s) : KeepsCounts ses s op ↔ Passes ses s op := by
  obtain ⟨hc, hle⟩ := h
  obtain ⟨hops, hdels⟩ := counted_iff.mp hc
  cases ha : op.accounted ses s.kb with
  | none =>
    have hkeeps : KeepsCounts ses s op := by
      rintro s' hs
      rw [opStep_stopped ha] at hs
      cases hs
      exact hc
    have hpasses : Passes ses s op := by
      rintro msglen hm
      rw [ha] at hm
      cases hm
    exact iff_of_true hkeeps hpasses
  | some msglen =>
    unfold KeepsCounts Passes
    rw [opStep_accounted ha, ha]
    simp only [Option.mem_some_iff, forall_eq', counted_iff, count_kbOps, count_kbDels]
    cases hg : op.goesOut ses.ksL (op.count s.kb msglen) with
    | false =>
      -- it is counted and not queued
      have hne : uint32 ((s.kb.kbOps : ℤ) + 1) ≠ s.okOps := by
        unfold uint32
        omega
      simp [hne]
    | true =>
      have hsucc : uint32 ((s.kb.kbOps : ℤ) + 1) = s.okOps + 1 ↔ s.kb.kbOps + 1 < 2 ^ 32 := by
        unfold uint32
        omega
      have hdel : s.kb.kbOps + 1 < 2 ^ 32 →
          (if op.isDel then uint32 ((s.kb.kbDels : ℤ) + 1) else s.kb.kbDels) =
            s.okDels + (op.isDel && true).toNat := by
        intro hroom
        unfold uint32
        cases op.isDel <;> simp <;> omega
      simp only [Bool.toNat_true, hsucc, true_and]
      exact and_iff_left_of_imp hdel

/-- **The operations of a batch.** Over any sequence of puts and deletes on a batch that was just
started, `kb_ops` and `kb_dels` are the numbers of the operations and deletes that were issued with
success after each of them, and with them the count of a submit, if and only if each meets the
condition. -/
theorem ops_counted_iff (ses : Ksession) (s : OpSys) (hs : Started s) (ops : List BatchOp) :
    RunOk (opStep ses) (KeepsCounts ses) s ops ↔ RunOk (opStep ses) (Passes ses) s ops := by
  obtain ⟨hops, hdels, -, hok, hokd⟩ := hs
  have hqueued : Queued ses s := by
    refine ⟨counted_iff.mpr ?_, ?_⟩
    · rw [hops, hdels, hok, hokd]
      exact ⟨rfl, rfl⟩
    · rw [hok, hokd]
  exact @runOk_congr _ _ _ _ _ (Queued ses) (fun s op h => keepsCounts_iff h)
    (fun s s' op h hk hst => h.step hk hst) ops s hqueued

end Ops

/-! ### An operation that is counted and not queued -/

/-- A new session with a small server. -/
def opSes : Ksession := { ksL := smallLimits }

/-- The batch as a start leaves it. -/
def startedBatch : OpSys := { kb := { kbBid := kfirstbid } }

/-- The key `[7]` and its value. -/
def someKv : Kv := { kvKey := some [some [7]], kvVal := some [{ bytes := [1, 2] }] }

/-- The session is gone when the message is built. -/
def notSent : IssueEnv := { sends with send := false }

theorem putDel_counted : Started startedBatch ∧
    RunOk (opStep opSes) (KeepsCounts opSes) startedBatch
      [.put someKv false sends, .del someKv false sends, .put {} false sends] :=
  ⟨by decide, (ops_counted_iff opSes startedBatch (by decide) _).mpr (by decide)⟩

/-- **An operation that is not sent** stays counted: the submit carries 2 for one operation. So does
one that exceeds a limit of the batch, here the third delete. -/
theorem counted_not_queued :
    ¬ RunOk (opStep opSes) (KeepsCounts opSes) startedBatch
        [.put someKv false sends, .put someKv false notSent] ∧
    ¬ RunOk (opStep opSes) (KeepsCounts opSes) startedBatch
        [.del someKv false sends, .del someKv false sends, .del someKv false sends] := by
  decide

end Libkinetic.Kinetic
