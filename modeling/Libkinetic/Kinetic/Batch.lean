import Libkinetic.Base.Runs
import Libkinetic.Kinetic.Request

/-! # Batches of a session

Starting, submitting and aborting batches: `b_batch_aio_generic` sends the request,
`b_batch_aio_complete` takes the response. The session counts the batches in `ks_bats`, up when a
start is issued and down when it cannot be sent, and down when a submit or an abort has succeeded. A
start that was sent and then fails stays counted, and the limit is compared with the count before
the increment. -/

namespace Libkinetic.Kinetic

open Libkinetic.Base.Runs

/-! ### The counters -/

structure AtomInc where
  rc : ℤ
  /-- The counter. -/
  p : ℕ
  /-- What is left in `*v`. -/
  v : ℕ
deriving DecidableEq

/-- The loop of `b_atom_inc`; `lost` are the values that other threads put into the counter, one for
each race that is lost. -/
def bAtomIncLoop (i : ℤ) : List ℕ → ℕ → ℕ → AtomInc
  | [], retries, v => ⟨if retries = 0 then -1 else 0, uint32 (v + i), v⟩
  | q :: lost, retries, v =>
    -- the test fails, and `retries--` leaves -1
    if retries = 0 then ⟨0, q, v⟩ else bAtomIncLoop i lost (retries - 1) q

/-- `b_atom_inc` -/
def bAtomInc (p : ℕ) (i : ℤ) (lost : List ℕ) : AtomInc := bAtomIncLoop i lost 1000 p

/-- Without a race the counter is changed, and its old value is left in `*v`. -/
theorem bAtomInc_nil (p : ℕ) (i : ℤ) : bAtomInc p i [] = ⟨0, uint32 (p + i), p⟩ := rfl

/-! ### Issuing a request -/

/-- The count of operations is used for starts and submits only. -/
def batchCommand (hdr : Kcmdhdr) (ops : ℕ) : Request (Option ℕ) where
  hdr := hdr
  body :=
    match hdr.kchType with
    | .kmtStartbat | .kmtEndbat => some ops
    | _ => none

/-- `create_batch_message`: without command bytes the message is created, with no command. -/
def createBatchMessage (m : MsgEnv) (hdr : Kcmdhdr) (ops : ℕ) :
    Option (Option (Request (Option ℕ))) :=
  if ¬ m.message then none
  else if ¬ m.command then some none
  else some (some (batchCommand hdr ops))

structure BatchIssue where
  krc : KStatus
  ses : Ksession
  kb : Kb
  /-- The message that was sent, with the command in it. -/
  req : Option (Option (Request (Option ℕ))) := none

/-- The error exit: a start takes the count back. -/
def bexKb (krc : KStatus) (ses : Ksession) (kb : Kb) (msgType : Kmtype) : BatchIssue :=
  if msgType = .kmtStartbat then
    let a := bAtomInc ses.ksBats (-1) []
    { krc := if a.rc < 0 then .kEbatch else krc, ses := { ses with ksBats := a.p }, kb }
  else { krc, ses, kb }

/-- The header of a request for a batch. -/
def batchHdr (ses : Ksession) (kb : Kb) (msgType : Kmtype) : Kcmdhdr :=
  { ses.ksCh with kchType := msgType, kchBid := kb.kbBid }

def sendBatch (e : IssueEnv) (ses : Ksession) (kb : Kb) (msgType : Kmtype) : BatchIssue :=
  let kmreq := createBatchMessage e.message (batchHdr ses kb msgType) kb.kbOps
  match buildKio e kmreq .kEinternal with
  | .error krc => bexKb krc ses kb msgType
  | .ok (kmreq, _) =>
    if ¬ e.send then bexKb .kEinternal ses kb msgType
    else { krc := .kOk, ses, kb, req := some kmreq }

/-- The batch gets an id and is counted, and its own counters are reset. -/
def startBatch (e : IssueEnv) (ses : Ksession) (kb : Kb) : BatchIssue :=
  let a := bAtomInc ses.ksBid 1 []
  let ses := { ses with ksBid := a.p }
  let kb := { kb with kbBid := a.v }
  if a.rc < 0 then { krc := .kEbatch, ses, kb }
  else
    let b := bAtomInc ses.ksBats 1 []
    let ses := { ses with ksBats := b.p }
    if b.rc < 0 then { krc := .kEbatch, ses, kb }
    else if 0 < ses.ksL.klDevbatcnt ∧ ses.ksL.klDevbatcnt < b.v then
      bexKb .kEbatch ses kb .kmtStartbat
    else sendBatch e ses { kb with kbOps := 0, kbDels := 0, kbBytes := 0 } .kmtStartbat

/-- **`b_batch_aio_generic`**; no other thread changes the counters during the call. -/
def bBatchAioGeneric (e : IssueEnv) (ses : Ksession) (kb : Kb) (msgType : Kmtype) : BatchIssue :=
  if ¬ e.config then { krc := .kEbadsess, ses, kb }
  else if ¬ kiValidateKb kb msgType then { krc := .kEinval, ses, kb }
  else
    match msgType with
    | .kmtStartbat => startBatch e ses kb
    | .kmtEndbat | .kmtAbortbat => sendBatch e ses kb msgType
    | _ => { krc := .kErejected, ses, kb }

/-! ### Completing it -/

/-- `extract_status` -/
def extractStatus : RespMsg Unit → KStatus
  | .nocmd => .kEinternal
  | .badcmd => .kEinternal
  | .cmd c => extractCmdstatusCode c

def completionStatus : Completion Unit → KStatus
  | .noConfig => .kEbadsess
  | .notYet => .kEagain
  | .resp .lost => .kEinternal
  | .resp .timedout | .resp .failed => .kEinternal
  | .resp .badpdu | .resp .badmsg => .kEinternal
  | .resp (.msg m) => extractStatus m

/-- **`b_batch_aio_complete`** -/
def bBatchAioComplete (c : Completion Unit) (ses : Ksession) (kioCmd : Kmtype) :
    KStatus × Ksession :=
  let krc := completionStatus c
  if krc = .kOk ∧ (kioCmd = .kmtEndbat ∨ kioCmd = .kmtAbortbat) then
    let a := bAtomInc ses.ksBats (-1) []
    (if a.rc < 0 then .kEbatch else krc, { ses with ksBats := a.p })
  else (krc, ses)

/-! ### Runs -/

/-- A session with its batches, named by numbers (addresses), and the requests in flight. -/
structure BatchSys where
  ses : Ksession
  kb : ℕ → Kb := fun _ => {}
  inflight : List (Kmtype × ℕ) := []
  /-- The batches started successfully and not yet submitted or aborted successfully. -/
  active : List ℕ := []

inductive BatchAct
  | issue (msgType : Kmtype) (k : ℕ) (e : IssueEnv)
  /-- `again` says if the caller keeps a kio whose completion failed before the response was looked
  at. -/
  | complete (msgType : Kmtype) (k : ℕ) (c : Completion Unit) (again : Bool)

/-- The kio can be completed again. -/
def Completion.keeps {β : Type*} (again : Bool) : Completion β → Bool
  | .notYet => true
  | .noConfig | .resp .lost => again
  | _ => false

/-- The batches that are active after a successful completion. -/
def activeAfter (msgType : Kmtype) (k : ℕ) (active : List ℕ) : List ℕ :=
  match msgType with
  | .kmtStartbat => k :: active
  | .kmtEndbat | .kmtAbortbat => active.erase k
  | _ => active

def batchStep (s : BatchSys) : BatchAct → Option BatchSys
  | .issue msgType k e =>
    let r := bBatchAioGeneric e s.ses (s.kb k) msgType
    some { s with
      ses := r.ses
      kb := Function.update s.kb k r.kb
      inflight := if r.krc = .kOk then (msgType, k) :: s.inflight else s.inflight }
  | .complete msgType k c again =>
    if (msgType, k) ∈ s.inflight then
      let (krc, ses) := bBatchAioComplete c s.ses msgType
      some { s with
        ses
        inflight := if c.keeps again then s.inflight else s.inflight.erase (msgType, k)
        active := if krc = .kOk then activeAfter msgType k s.active else s.active }
    else none

/-- The starts in flight. -/
def BatchSys.starts (s : BatchSys) : ℕ := s.inflight.countP fun r => r.1 == .kmtStartbat

/-- A session as `ki_open` leaves it. -/
def BatchInit (lim : Klimits) (s : BatchSys) : Prop := s = { ses := { ksL := lim } }

/-! ### What the functions do to the counter -/

section Counter
variable {e : IssueEnv} {ses : Ksession} {kb : Kb} {msgType : Kmtype} {c : Completion Unit}
  {krc : KStatus}

/-- Taking back the increment gives the old count. -/
theorem uint32_succ_pred {n : ℕ} (h : n < 2 ^ 32) :
    uint32 ((uint32 ((n : ℤ) + 1) : ℕ) + (-1)) = n := by
  unfold uint32
  omega

theorem uint32_succ {n : ℕ} (h : n + 1 < 2 ^ 32) : uint32 ((n : ℤ) + 1) = n + 1 :=
  uint32_of_lt h

theorem uint32_pred {n : ℕ} (hpos : 0 < n) (h : n < 2 ^ 32) : uint32 ((n : ℤ) + (-1)) = n - 1 := by
  unfold uint32
  omega

theorem bexKb_of_ne (h : msgType ≠ .kmtStartbat) :
    bexKb krc ses kb msgType = { krc, ses, kb } := by
  simp [bexKb, h]

theorem bexKb_start :
    bexKb krc ses kb .kmtStartbat =
      { krc, ses := { ses with ksBats := uint32 (ses.ksBats + (-1)) }, kb } := by
  simp [bexKb, bAtomInc_nil]

/-- A request that is not sent leaves by the error exit. -/
theorem sendBatch_cases (e : IssueEnv) (ses : Ksession) (kb : Kb) (msgType : Kmtype) :
    (∃ krc, krc ≠ .kOk ∧ sendBatch e ses kb msgType = bexKb krc ses kb msgType) ∨
      ((sendBatch e ses kb msgType).krc = .kOk ∧ (sendBatch e ses kb msgType).ses = ses) := by
  rcases hb : buildKio e (createBatchMessage e.message (batchHdr ses kb msgType) kb.kbOps)
    .kEinternal with krc | kmreq
  · exact .inl ⟨krc, buildKio_ne_ok (by decide) hb, by simp only [sendBatch, hb]⟩
  · by_cases he : e.send
    · exact .inr (by simp [sendBatch, hb, he])
    · exact .inl ⟨.kEinternal, by decide, by simp [sendBatch, hb, he]⟩

/-- The session between the two parts of a start. -/
def counted (ses : Ksession) : Ksession :=
  { ses with ksBid := uint32 (ses.ksBid + 1), ksBats := uint32 (ses.ksBats + 1) }

/-- **A start** is either taken back by the error exit, or it passes the limit and is sent. -/
theorem startBatch_cases (e : IssueEnv) (ses : Ksession) (kb : Kb) :
    (∃ krc kb', krc ≠ .kOk ∧
        startBatch e ses kb = bexKb krc (counted ses) kb' .kmtStartbat) ∨
      (¬ (0 < ses.ksL.klDevbatcnt ∧ ses.ksL.klDevbatcnt < ses.ksBats) ∧
        (startBatch e ses kb).krc = .kOk ∧ (startBatch e ses kb).ses = counted ses) := by
  by_cases hl : 0 < ses.ksL.klDevbatcnt ∧ ses.ksL.klDevbatcnt < ses.ksBats
  · exact .inl ⟨.kEbatch, { kb with kbBid := ses.ksBid }, by decide,
      by simp [startBatch, bAtomInc_nil, hl, counted]⟩
  · have hs : startBatch e ses kb = sendBatch e (counted ses)
        { kbBid := ses.ksBid, kbOps := 0, kbDels := 0, kbBytes := 0 } .kmtStartbat := by
      simp [startBatch, bAtomInc_nil, hl, counted]
    rw [hs]
    rcases sendBatch_cases e (counted ses)
        { kbBid := ses.ksBid, kbOps := 0, kbDels := 0, kbBytes := 0 } .kmtStartbat with
      ⟨krc, hk, h⟩ | ⟨hk, h⟩
    · exact .inl ⟨krc, _, hk, h⟩
    · exact .inr ⟨hl, hk, h⟩

/-- What issuing a request does to the count of batches: `krc` and `ses'` are what it returns. -/
inductive Issued (ses : Ksession) (msgType : Kmtype) (krc : KStatus) (ses' : Ksession) : Prop
  | refused (hk : krc ≠ .kOk) (hb : ses'.ksBats = ses.ksBats)
  | started (hk : krc = .kOk) (ht : msgType = .kmtStartbat)
      (hl : ¬ (0 < ses.ksL.klDevbatcnt ∧ ses.ksL.klDevbatcnt < ses.ksBats))
      (hb : ses'.ksBats = uint32 (ses.ksBats + 1))
  | sent (hk : krc = .kOk) (ht : msgType ≠ .kmtStartbat) (hb : ses'.ksBats = ses.ksBats)

theorem issued_start (h : ses.ksBats < 2 ^ 32) :
    Issued ses .kmtStartbat (startBatch e ses kb).krc (startBatch e ses kb).ses := by
  rcases startBatch_cases e ses kb with ⟨krc, kb', hk, hs⟩ | ⟨hl, hk, hs⟩
  · rw [hs, bexKb_start]
    exact .refused hk (uint32_succ_pred h)
  · exact .started hk rfl hl (by rw [hs]; rfl)

theorem issued_send (ht : msgType ≠ .kmtStartbat) :
    Issued ses msgType (sendBatch e ses kb msgType).krc (sendBatch e ses kb msgType).ses := by
  rcases sendBatch_cases e ses kb msgType with
    ⟨krc, hk, hs⟩ | ⟨hk, hs⟩
  · rw [hs, bexKb_of_ne ht]
    exact .refused hk rfl
  · exact .sent hk ht (by rw [hs])

/-- The three ways through the function. -/
theorem bBatchAioGeneric_cases (e : IssueEnv) (ses : Ksession) (kb : Kb) (msgType : Kmtype) :
    (∃ krc, krc ≠ .kOk ∧ bBatchAioGeneric e ses kb msgType = { krc, ses, kb }) ∨
      (msgType = .kmtStartbat ∧ bBatchAioGeneric e ses kb msgType = startBatch e ses kb) ∨
      (msgType ≠ .kmtStartbat ∧
        bBatchAioGeneric e ses kb msgType = sendBatch e ses kb msgType) := by
  by_cases hc : e.config
  · by_cases hv : kiValidateKb kb msgType
    · simp only [bBatchAioGeneric, hc, hv, not_true, if_false]
      cases msgType
      case kmtStartbat => exact .inr (.inl ⟨rfl, rfl⟩)
      case kmtEndbat | kmtAbortbat => exact .inr (.inr ⟨by simp, rfl⟩)
      all_goals exact .inl ⟨.kErejected, by simp, rfl⟩
    · exact .inl ⟨.kEinval, by simp, by simp [bBatchAioGeneric, hc, hv]⟩
  · exact .inl ⟨.kEbadsess, by simp, by simp [bBatchAioGeneric, hc]⟩

/-- **Issuing a request** counts a start that is sent, and nothing else. -/
theorem issued (e : IssueEnv) (kb : Kb) (msgType : Kmtype) (h : ses.ksBats < 2 ^ 32) :
    Issued ses msgType (bBatchAioGeneric e ses kb msgType).krc
      (bBatchAioGeneric e ses kb msgType).ses := by
  rcases bBatchAioGeneric_cases e ses kb msgType with
    ⟨krc, hk, hr⟩ | ⟨rfl, hr⟩ | ⟨ht, hr⟩
  · rw [hr]
    exact .refused hk rfl
  · rw [hr]
    exact issued_start h
  · rw [hr]
    exact issued_send ht

theorem bexKb_ksL : (bexKb krc ses kb msgType).ses.ksL = ses.ksL := by
  unfold bexKb
  split <;> rfl

theorem sendBatch_ksL : (sendBatch e ses kb msgType).ses.ksL = ses.ksL := by
  rcases sendBatch_cases e ses kb msgType with
    ⟨krc, -, hs⟩ | ⟨-, hs⟩
  · rw [hs, bexKb_ksL]
  · rw [hs]

theorem startBatch_ksL : (startBatch e ses kb).ses.ksL = ses.ksL := by
  rcases startBatch_cases e ses kb with ⟨krc, kb', -, hs⟩ | ⟨-, -, hs⟩
  · rw [hs, bexKb_ksL]
    rfl
  · rw [hs]
    rfl

/-- No call changes the limits of the session. -/
theorem bBatchAioGeneric_ksL : (bBatchAioGeneric e ses kb msgType).ses.ksL = ses.ksL := by
  rcases bBatchAioGeneric_cases e ses kb msgType with
    ⟨krc, hk, hr⟩ | ⟨-, hr⟩ | ⟨-, hr⟩
  · rw [hr]
  · rw [hr, startBatch_ksL]
  · rw [hr, sendBatch_ksL]

/-- **Completing a request** takes back the count of a batch that ends, and nothing else. -/
theorem bBatchAioComplete_eq :
    bBatchAioComplete c ses msgType =
      (completionStatus c,
        if completionStatus c = .kOk ∧ (msgType = .kmtEndbat ∨ msgType = .kmtAbortbat) then
          { ses with ksBats := uint32 (ses.ksBats + (-1)) }
        else ses) := by
  unfold bBatchAioComplete
  by_cases h : completionStatus c = .kOk ∧ (msgType = .kmtEndbat ∨ msgType = .kmtAbortbat)
  · simp [h, bAtomInc_nil]
  · simp [h]

end Counter

/-! ### What a step does -/

/-- The answer reports the success of the request. -/
def Completion.isOk {β : Type*} : Completion β → Bool
  | .resp (.msg (.cmd c)) => decide (c.status = some .kOk)
  | _ => false

theorem completionStatus_ok_iff (c : Completion Unit) :
    completionStatus c = .kOk ↔ c.isOk = true := by
  rcases c with _ | _ | (_ | _ | _ | _ | _ | (_ | _ | ⟨_ | krc, body⟩)) <;>
    simp [completionStatus, Completion.isOk, extractStatus, extractCmdstatusCode]

/-- A completion that succeeds uses the kio up. -/
theorem Completion.not_keeps {β : Type*} {c : Completion β} (h : c.isOk = true) (again : Bool) :
    c.keeps again = false := by
  rcases c with _ | _ | (_ | _ | _ | _ | _ | m) <;> first | rfl | cases h

/-- What a step does to the count, to the active batches and to the starts in flight. -/
inductive Moved (s s' : BatchSys) : BatchAct → Prop
  | stays {a : BatchAct} (hb : s'.ses.ksBats = s.ses.ksBats) (ha : s'.active = s.active)
      (ht : s'.starts = s.starts) : Moved s s' a
  | started {k : ℕ} {e : IssueEnv}
      (hl : ¬ (0 < s.ses.ksL.klDevbatcnt ∧ s.ses.ksL.klDevbatcnt < s.ses.ksBats))
      (hb : s'.ses.ksBats = uint32 (s.ses.ksBats + 1)) (ha : s'.active = s.active)
      (ht : s'.starts = s.starts + 1) : Moved s s' (.issue .kmtStartbat k e)
  | answered {k : ℕ} {c : Completion Unit} {again : Bool} (hc : c.isOk = true)
      (hb : s'.ses.ksBats = s.ses.ksBats) (ha : s'.active = k :: s.active)
      (ht : s'.starts + 1 = s.starts) : Moved s s' (.complete .kmtStartbat k c again)
  | failed {k : ℕ} {c : Completion Unit} {again : Bool} (hc : c.isOk = false)
      (hk : c.keeps again = false)
      (hb : s'.ses.ksBats = s.ses.ksBats) (ha : s'.active = s.active)
      (ht : s'.starts + 1 = s.starts) : Moved s s' (.complete .kmtStartbat k c again)
  | ended {msgType : Kmtype} {k : ℕ} {c : Completion Unit} {again : Bool} (hc : c.isOk = true)
      (hm : msgType = .kmtEndbat ∨ msgType = .kmtAbortbat)
      (hb : s'.ses.ksBats = uint32 (s.ses.ksBats + (-1))) (ha : s'.active = s.active.erase k)
      (ht : s'.starts = s.starts) : Moved s s' (.complete msgType k c again)

section Step
variable {s s' : BatchSys} {msgType : Kmtype} {k : ℕ}

theorem moved_issue {e : IssueEnv} (h : s.ses.ksBats < 2 ^ 32)
    (hs : batchStep s (.issue msgType k e) = some s') : Moved s s' (.issue msgType k e) := by
  simp only [batchStep, Option.some.injEq] at hs
  subst hs
  rcases issued e (s.kb k) msgType h with
    ⟨hk, hb⟩ | ⟨hk, rfl, hl, hb⟩ | ⟨hk, ht, hb⟩
  · exact .stays hb rfl (by simp [BatchSys.starts, hk])
  · exact .started hl hb rfl (by simp [BatchSys.starts, hk])
  · exact .stays hb rfl (by simp [BatchSys.starts, hk, ht])

/-- One request less in flight. -/
theorem starts_erase (hmem : (msgType, k) ∈ s.inflight) :
    ((s.inflight.erase (msgType, k)).countP fun r => r.1 == .kmtStartbat) +
      (if msgType = .kmtStartbat then 1 else 0) = s.starts := by
  rw [List.countP_erase]
  by_cases ht : msgType = .kmtStartbat
  · subst ht
    have hpos : 0 < s.starts := List.countP_pos_iff.mpr ⟨_, hmem, by simp⟩
    simp only [hmem, beq_self_eq_true, and_self, if_true]
    exact Nat.sub_add_cancel hpos
  · simp [ht, BatchSys.starts]

theorem moved_complete {c : Completion Unit} {again : Bool}
    (hs : batchStep s (.complete msgType k c again) = some s') :
    Moved s s' (.complete msgType k c again) := by
  by_cases hmem : (msgType, k) ∈ s.inflight
  · have hst := starts_erase hmem
    simp only [batchStep, hmem, if_true, bBatchAioComplete_eq, completionStatus_ok_iff,
      Option.some.injEq] at hs
    subst hs
    by_cases hc : c.isOk = true
    · simp only [hc, Completion.not_keeps hc again, true_and, if_true] at hst ⊢
      by_cases hm : msgType = .kmtEndbat ∨ msgType = .kmtAbortbat
      · refine .ended hc hm ?_ ?_ ?_
        · simp [hm]
        · rcases hm with rfl | rfl <;> rfl
        · rcases hm with rfl | rfl <;> simpa [BatchSys.starts] using hst
      · simp only [hm, if_false]
        by_cases ht : msgType = .kmtStartbat
        · subst ht
          exact .answered hc rfl rfl (by simpa [BatchSys.starts] using hst)
        · refine .stays rfl ?_ ?_
          · cases msgType <;> simp_all [activeAfter]
          · simpa [BatchSys.starts, ht] using hst
    · simp only [Bool.not_eq_true] at hc
      simp only [hc, Bool.false_eq_true, false_and, if_false]
      by_cases hk : c.keeps again = true
      · exact .stays rfl rfl (by simp [BatchSys.starts, hk])
      · simp only [Bool.not_eq_true] at hk
        by_cases ht : msgType = .kmtStartbat
        · subst ht
          exact .failed hc hk rfl rfl (by simpa [BatchSys.starts, hk] using hst)
        · exact .stays rfl rfl (by simpa [BatchSys.starts, hk, ht] using hst)
  · simp [batchStep, hmem] at hs

/-- **Every step** is one of these moves. -/
theorem batchStep_moved {a : BatchAct} (h : s.ses.ksBats < 2 ^ 32)
    (hs : batchStep s a = some s') : Moved s s' a := by
  cases a with
  | issue msgType k e => exact moved_issue h hs
  | complete msgType k c again => exact moved_complete hs

/-- The limits of the session stay. -/
theorem batchStep_ksL {a : BatchAct} (hs : batchStep s a = some s') : s'.ses.ksL = s.ses.ksL := by
  cases a with
  | issue msgType k e =>
    simp only [batchStep, Option.some.injEq] at hs
    subst hs
    exact bBatchAioGeneric_ksL
  | complete msgType k c again =>
    by_cases hmem : (msgType, k) ∈ s.inflight
    · simp only [batchStep, hmem, if_true, bBatchAioComplete_eq, Option.some.injEq] at hs
      subst hs
      dsimp only
      split <;> rfl
    · simp [batchStep, hmem] at hs

end Step

/-! ### The count over a run -/

/-- **The condition of the count**: there is room to count a start, a start that was sent succeeds,
and only an active batch is submitted or aborted with success. -/
def Answered (s : BatchSys) : BatchAct → Prop
  | .issue msgType _ _ => msgType = .kmtStartbat → s.ses.ksBats + 1 < 2 ^ 32
  | .complete msgType k c again =>
    (msgType = .kmtStartbat → c.isOk = true ∨ c.keeps again = true) ∧
      (msgType = .kmtEndbat ∨ msgType = .kmtAbortbat → c.isOk = true → k ∈ s.active)

instance (s : BatchSys) : ∀ a : BatchAct, Decidable (Answered s a)
  | .issue _ _ _ => inferInstanceAs (Decidable (_ → _))
  | .complete _ _ _ _ => inferInstanceAs (Decidable ((_ → _) ∧ (_ → _ → _)))

/-- The session counts the active batches and the starts in flight. -/
def Tallied (s : BatchSys) : Prop :=
  s.ses.ksBats = s.active.length + s.starts ∧ s.ses.ksBats < 2 ^ 32

theorem Tallied.step {s s' : BatchSys} {a : BatchAct} (h : Tallied s) (hok : Answered s a)
    (hs : batchStep s a = some s') : Tallied s' := by
  obtain ⟨hn, hlt⟩ := h
  unfold Tallied
  cases batchStep_moved hlt hs with
  | stays hb ha ht =>
    rw [hb, ha, ht]
    exact ⟨hn, hlt⟩
  | started hl hb ha ht =>
    have hroom := hok rfl
    rw [hb, ha, ht, uint32_succ hroom]
    omega
  | answered hc hb ha ht =>
    rw [hb, ha, List.length_cons]
    omega
  | failed hc hk hb ha ht =>
    rcases hok.1 rfl with h | h
    · rw [hc] at h
      cases h
    · rw [hk] at h
      cases h
  | @ended msgType k c again hc hm hb ha ht =>
    have hk := hok.2 hm hc
    have hpos := List.length_pos_of_mem hk
    rw [hb, ha, ht, uint32_pred (by omega) hlt, List.length_erase_of_mem hk]
    omega

/-- **The count of batches.** In every run whose steps meet the condition the session counts the
batches that were started and not yet submitted or aborted, with the starts in flight, and a start
that is refused leaves the count as it was. -/
theorem batches_counted {lim : Klimits} {s : BatchSys}
    (h : Reach batchStep Answered (BatchInit lim) s) :
    s.ses.ksBats = s.active.length + s.starts ∧
      ∀ k e, (bBatchAioGeneric e s.ses (s.kb k) .kmtStartbat).krc ≠ .kOk →
        (bBatchAioGeneric e s.ses (s.kb k) .kmtStartbat).ses.ksBats = s.ses.ksBats := by
  have ht : Tallied s := by
    refine h.invariant (fun s hs => ?_) fun s s' a hI hok hs => hI.step hok hs
    rw [show s = _ from hs]
    exact ⟨rfl, Nat.two_pow_pos 32⟩
  refine ⟨ht.1, fun k e hk => ?_⟩
  rcases issued e (s.kb k) .kmtStartbat ht.2 with
    ⟨-, hb⟩ | ⟨hok, -, -, -⟩ | ⟨-, hne, -⟩
  · exact hb
  · exact absurd hok hk
  · exact absurd rfl hne

/-! ### A start that fails -/

/-- A new session with a server that allows one batch. -/
def oneBatchSes : BatchSys := { ses := { ksL := smallLimits } }

/-- Every allocation succeeds, and the send does. -/
def sends : IssueEnv := { pack := some 40 }

def succeeds : Completion Unit := .resp (.msg (.cmd ⟨some .kOk, none⟩))

/-- The server rejects the batch. -/
def rejects : Completion Unit := .resp (.msg (.cmd ⟨some .kEinvalbat, none⟩))

/-- A batch is started and submitted, and one more start is in flight. -/
def goodBatches : List BatchAct :=
  [.issue .kmtStartbat 0 sends, .complete .kmtStartbat 0 .notYet true,
    .complete .kmtStartbat 0 succeeds false, .issue .kmtEndbat 0 sends,
    .complete .kmtEndbat 0 succeeds false, .issue .kmtStartbat 1 sends]

theorem goodBatches_counted : ∃ s, run batchStep oneBatchSes goodBatches = some s ∧
    s.active = [] ∧ s.starts = 1 ∧ s.ses.ksBats = s.active.length + s.starts := by
  obtain ⟨s, hs, hq⟩ := Option.map_eq_some_iff.mp
    (show (run batchStep oneBatchSes goodBatches).map (fun s => (s.active, s.starts)) =
      some ([], 1) by decide)
  obtain ⟨h1, h2⟩ := Prod.mk.inj hq
  have hreach : Reach batchStep Answered (BatchInit smallLimits) s :=
    reach_of_run rfl (by decide) hs
  exact ⟨s, hs, h1, h2, (batches_counted hreach).1⟩

/-- **A start that was sent and fails** stays counted: no batch is active and no request is in
flight, and the count is 1. -/
theorem failed_start_stays :
    (run batchStep oneBatchSes
        [.issue .kmtStartbat 0 sends, .complete .kmtStartbat 0 rejects false]).map
      (fun s => (s.ses.ksBats, s.active, s.inflight)) = some (1, [], []) := by
  decide

/-! ### The limit -/

/-- **The condition of the limit**: no start is issued while the count is at the limit, and only an
active batch is submitted or aborted with success. -/
def BelowLimit (s : BatchSys) : BatchAct → Prop
  | .issue msgType _ _ => msgType = .kmtStartbat → s.ses.ksBats ≠ s.ses.ksL.klDevbatcnt
  | .complete msgType k c _ =>
    msgType = .kmtEndbat ∨ msgType = .kmtAbortbat → c.isOk = true → k ∈ s.active

instance (s : BatchSys) : ∀ a : BatchAct, Decidable (BelowLimit s a)
  | .issue _ _ _ => inferInstanceAs (Decidable (_ → _))
  | .complete _ _ _ _ => inferInstanceAs (Decidable (_ → _ → _))

/-- The count covers the batches that are active or being started, and has a bound. -/
structure Bounded (lim : Klimits) (bound : ℕ) (s : BatchSys) : Prop where
  ksL : s.ses.ksL = lim
  covers : s.active.length + s.starts ≤ s.ses.ksBats
  le : s.ses.ksBats ≤ bound

/-- A bound is kept by the steps that do not count one more start at the bound. -/
theorem Bounded.step {lim : Klimits} {bound : ℕ} (hbound : bound < 2 ^ 32) {s s' : BatchSys}
    {a : BatchAct} (h : Bounded lim bound s)
    (hstart : ∀ k e, a = .issue .kmtStartbat k e →
      ¬ (0 < lim.klDevbatcnt ∧ lim.klDevbatcnt < s.ses.ksBats) → s.ses.ksBats < bound)
    (hend : ∀ msgType k c again, a = .complete msgType k c again →
      (msgType = .kmtEndbat ∨ msgType = .kmtAbortbat) → c.isOk = true → k ∈ s.active)
    (hs : batchStep s a = some s') : Bounded lim bound s' := by
  have hlt : s.ses.ksBats < 2 ^ 32 := lt_of_le_of_lt h.le hbound
  have hcovers := h.covers
  have hle := h.le
  refine ⟨(batchStep_ksL hs).trans h.ksL, ?_, ?_⟩
  all_goals
    cases batchStep_moved hlt hs with
    | stays hb ha ht => simp only [hb, ha, ht]; omega
    | @started k e hl hb ha ht =>
      have hroom := hstart k e rfl (h.ksL ▸ hl)
      have hsucc : s.ses.ksBats + 1 < 2 ^ 32 := by omega
      simp only [hb, ha, ht, uint32_succ hsucc]
      omega
    | answered hc hb ha ht => simp only [hb, ha, List.length_cons]; omega
    | failed hc hk hb ha ht => simp only [hb, ha]; omega
    | @ended msgType k c again hc hm hb ha ht =>
      have hk := hend msgType k c again rfl hm hc
      have hpos := List.length_pos_of_mem hk
      have hn : 0 < s.ses.ksBats := by omega
      simp only [hb, ha, ht, uint32_pred hn hlt, List.length_erase_of_mem hk]
      omega

theorem Bounded.init {lim : Klimits} {bound : ℕ} {s : BatchSys} (h : BatchInit lim s) :
    Bounded lim bound s := by
  rw [show s = _ from h]
  exact ⟨rfl, le_rfl, Nat.zero_le _⟩

/-- **The limit of batches.** In every run whose steps meet the condition, no more batches are
active than the server allows. -/
theorem active_le_limit {lim : Klimits} (hlim : lim.klDevbatcnt < 2 ^ 32) {s : BatchSys}
    (h : Reach batchStep BelowLimit (BatchInit lim) s) : s.active.length ≤ lim.klDevbatcnt := by
  have hB : Bounded lim lim.klDevbatcnt s := by
    refine h.invariant (fun s hs => .init hs) fun s s' a hI hok hs => hI.step hlim ?_ ?_ hs
    · rintro k e rfl hl
      have hne := hok rfl
      rw [hI.ksL] at hne
      have := hI.le
      omega
    · rintro msgType k c again rfl
      exact hok
  have := hB.covers
  have := hB.le
  omega

/-- A batch is started, submitted, and only then the next one started. -/
def oneAtATime : List BatchAct := goodBatches ++ [.complete .kmtStartbat 1 succeeds false]

theorem oneAtATime_limit : ∃ s, run batchStep oneBatchSes oneAtATime = some s ∧
    s.active = [1] ∧ s.active.length ≤ 1 := by
  obtain ⟨s, hs, hq⟩ := Option.map_eq_some_iff.mp
    (show (run batchStep oneBatchSes oneAtATime).map (fun s => s.active) = some [1] by decide)
  have hreach : Reach batchStep BelowLimit (BatchInit smallLimits) s :=
    reach_of_run rfl (by decide) hs
  exact ⟨s, hs, hq, active_le_limit (by decide) hreach⟩

/-- **One batch too many**: the second start compares the limit with the count before it. -/
theorem one_too_many :
    (run batchStep oneBatchSes
        [.issue .kmtStartbat 0 sends, .complete .kmtStartbat 0 succeeds false,
          .issue .kmtStartbat 1 sends, .complete .kmtStartbat 1 succeeds false]).map
      (fun s => s.active) = some [1, 0] ∧ smallLimits.klDevbatcnt = 1 := by
  decide

/-- Without the condition the limit is exceeded by one batch at most, if only active batches are
submitted or aborted with success. -/
theorem active_le_succ_limit {lim : Klimits} (hpos : 0 < lim.klDevbatcnt)
    (hlim : lim.klDevbatcnt + 1 < 2 ^ 32) {ok : BatchSys → BatchAct → Prop}
    (hend : ∀ s msgType k c again, ok s (.complete msgType k c again) →
      (msgType = .kmtEndbat ∨ msgType = .kmtAbortbat) → c.isOk = true → k ∈ s.active)
    {s : BatchSys} (h : Reach batchStep ok (BatchInit lim) s) :
    s.active.length ≤ lim.klDevbatcnt + 1 := by
  have hB : Bounded lim (lim.klDevbatcnt + 1) s := by
    refine h.invariant (fun s hs => .init hs) fun s s' a hI hok hs => hI.step hlim ?_ ?_ hs
    · rintro k e rfl hl
      omega
    · rintro msgType k c again rfl
      exact hend s msgType k c again hok
  have := hB.covers
  have := hB.le
  omega

end Libkinetic.Kinetic
