import Libkinetic.Base.Runs
import Libkinetic.Kinetic.Put
import Libkinetic.Kinetic.Del
import Libkinetic.Kinetic.Noop
import Libkinetic.Kinetic.Exec
import Mathlib.Data.BitVec

/-! # Statistics

The session counts, for each kind of operation, how many were completed, failed, or were completed
with timestamps that make no sense. An operation moves the counts when its issuing fails and when it
is completed; this module runs operations of all kinds, in any order, and compares the counts with
the number of operations that are over. -/

namespace Libkinetic.Kinetic

open Libkinetic.Base.Runs

/-! ### Counters -/

/-- `kopstat_t`, without the running means. -/
structure Kopstat where
  kopOk : BitVec 32 := 0
  kopErr : BitVec 32 := 0
  kopDropped : BitVec 32 := 0
deriving DecidableEq

/-- The operations that are accounted for. -/
def Kopstat.total (k : Kopstat) : BitVec 32 := k.kopOk + k.kopErr + k.kopDropped

/-- `struct timespec` -/
structure Timespec where
  tvSec : ℤ := 0
  tvNsec : ℤ := 0
deriving DecidableEq

/-- The timestamps of a kio. -/
structure KioTs where
  kiotStart : Timespec := {}
  kiotSent : Timespec := {}
  kiotRecvs : Timespec := {}
  kiotComp : Timespec := {}
deriving DecidableEq

/-- `KOP_BNS` -/
def kopBns : ℤ := 1000000000

/-- `KOP_MAXINTV` -/
def kopMaxintv : ℤ := 1000000

/-- `ts_sub`: the interval in microseconds, 0 if it is not a sensible one, and the minuend, from
which a second is borrowed in place. The division is one of unsigned numbers. -/
def tsSub (me se : Timespec) : ℤ × Timespec :=
  let d := me.tvNsec - se.tvNsec
  let (d, me) := if d < 0 then (d + kopBns, { me with tvSec := me.tvSec - 1 }) else (d, me)
  let d := d + (me.tvSec - se.tvSec) * kopBns
  let d := d % 2 ^ 64 / 1000
  (if kopMaxintv < d ∨ d < 0 ∨ d = 0 then 0 else d, me)

/-- `s_stats_addts`; the third interval starts from what the first one has left of the minuend. -/
def sStatsAddts (ts : KioTs) (k : Kopstat) : Kopstat :=
  let (tt, comp) := tsSub ts.kiotComp ts.kiotStart
  let (st, _) := tsSub ts.kiotSent ts.kiotStart
  let (rt, _) := tsSub comp ts.kiotRecvs
  if tt = 0 ∨ st = 0 ∨ rt = 0 then
    { k with kopOk := k.kopOk - 1, kopDropped := k.kopDropped + 1 }
  else k

/-- What an operation does to the counters of its kind. -/
def KopEv.count (ts : KioTs) (k : Kopstat) : KopEv → Kopstat
  | .err => { k with kopErr := k.kopErr + 1 }
  | .ok .. => { k with kopOk := k.kopOk + 1 }
  | .ts => sStatsAddts ts k

/-- How many operations an entry of the statistics accounts for. -/
def KopEv.weight : KopEv → ℕ
  | .err => 1
  | .ok .. => 1
  | .ts => 0

theorem KopEv.count_total (ts : KioTs) (k : Kopstat) (ev : KopEv) :
    (ev.count ts k).total = k.total + ev.weight := by
  cases ev with
  | err => simp only [count, weight, Kopstat.total]; push_cast; ring
  | ok sl rl kl vl => simp only [count, weight, Kopstat.total]; push_cast; ring
  | ts =>
    -- dropped timestamps move an operation from one counter to another
    simp only [count, weight, sStatsAddts, Kopstat.total, Nat.cast_zero, add_zero]
    split_ifs
    · ring
    · rfl

/-- The operations that a list of entries accounts for. -/
def growth (events : List KopEv) : ℕ := (events.map KopEv.weight).sum

theorem foldl_count_total (ts : KioTs) (events : List KopEv) (k : Kopstat) :
    (events.foldl (KopEv.count ts) k).total = k.total + growth events := by
  induction events generalizing k with
  | nil => simp [growth]
  | cons ev events ih =>
    rw [List.foldl_cons, ih, KopEv.count_total]
    simp only [growth, List.map_cons, List.sum_cons]
    push_cast
    ring

/-- The accounting counts once, with or without timestamps. -/
theorem growth_krcEvents (kop : Kop) (ses : Ksession) (krc : KStatus) (sl rl kl vl : ℕ) :
    growth (krcEvents kop ses krc sl rl kl vl) = 1 := by
  unfold krcEvents growth
  split_ifs <;> rfl

/-! ### Operations -/

/-- The slots of a response that the operations read. -/
structure RespBody where
  keyvalue : Option KprotoKv := none
  execStatus : Option ExecStatus := none
deriving DecidableEq

/-- One slot of the body. -/
def RespMsg.slot {β γ : Type*} (f : β → Option γ) : RespMsg β → RespMsg γ
  | .nocmd => .nocmd
  | .badcmd => .badcmd
  | .cmd c => .cmd { status := c.status, body := c.body.bind f }

def Resp.slot {β γ : Type*} (f : β → Option γ) : Resp β → Resp γ
  | .lost => .lost
  | .timedout => .timedout
  | .failed => .failed
  | .badpdu => .badpdu
  | .badmsg => .badmsg
  | .msg m => .msg (m.slot f)

/-- What `ktli_receive` gives for a kio, `none` if it is not available; the session is there. -/
structure Arrival where
  resp : Option (Resp RespBody)
  msglen : ℕ := 0
  val : Option (List Byte) := none
deriving DecidableEq

/-- What a completion sees of it. -/
def Arrival.completion {γ : Type*} (a : Arrival) (f : RespBody → Option γ) : Completion γ :=
  match a.resp with
  | none => .notYet
  | some r => .resp (r.slot f)

def Arrival.answer {γ : Type*} (a : Arrival) (f : RespBody → Option γ) : Answer γ :=
  { completion := a.completion f, msglen := a.msglen, val := a.val }

/-- An operation with the structures of the caller. -/
inductive Op
  | put (kv : Kv) (kb : Option Kb) (verck : Bool)
  | del (kv : Kv) (kb : Option Kb) (verck : Bool)
  | get (kv : Kv) (altkv : Option Kv) (msgType : Kmtype)
  | noop
  | flush
  | exec (app : Option Kapplet)
deriving DecidableEq

/-- The statistics that it belongs to. -/
def Op.kop : Op → Kop
  | .put .. => .puts
  | .del .. => .dels
  | .get .. => .gets
  | .noop => .noops
  | .flush => .flushs
  | .exec _ => .execs

/-- What issuing an operation returns and does to the statistics, with the bytes that are sent if
the status is `K_OK`. -/
structure IssueDone where
  krc : KStatus
  events : List KopEv := []
  sendlen : ℕ := 0
deriving DecidableEq

def IssueDone.ofExcept {ρ : Type*} (sendlen : ρ → ℕ) : Except (KStatus × List KopEv) ρ → IssueDone
  | .error (krc, events) => { krc, events }
  | .ok r => { krc := .kOk, sendlen := sendlen r }

/-- The message and the value of a put or a delete. -/
def IssueDone.ofKv (e : IssueEnv) (i : KvIssue) : IssueDone where
  krc := i.krc
  events := i.events
  sendlen := kpPlength + uint32 (e.pack.getD 0) + (i.req.map fun r => valLen r.val).getD 0

/-- The `…_aio_generic` function of the operation. -/
def Op.issue (e : IssueEnv) (ses : Ksession) : Op → IssueDone
  | .put kv kb verck => .ofKv e (pPutAioGeneric e ses kv kb verck)
  | .del kv kb verck => .ofKv e (dDelAioGeneric e ses kv kb verck)
  | .get kv altkv msgType =>
    .ofExcept (fun r => r.2.sendlen) (gGetAioGeneric e ses kv altkv msgType none)
  | .noop => .ofExcept Prod.snd (nNoopAioGeneric e ses)
  | .flush => .ofExcept Prod.snd (fFlushAioGeneric e ses)
  | .exec app => .ofExcept Prod.snd (eExecAioGeneric e ses app)

/-- The `…_aio_complete` function of the operation. -/
def Op.complete (ses : Ksession) (sendlen : ℕ) (a : Arrival) : Op → KStatus × List KopEv
  | .put kv kb _ =>
    let r := pPutAioComplete (a.answer RespBody.keyvalue) ses sendlen kv kb
    (r.krc, r.events)
  | .del kv kb _ =>
    let r := dDelAioComplete (a.answer RespBody.keyvalue) ses sendlen kv kb
    (r.krc, r.events)
  | .get kv altkv msgType =>
    let answer := { completion := a.completion RespBody.keyvalue, msglen := a.msglen, val := a.val }
    let r := gGetAioComplete answer ses { kioCmd := msgType, sendlen, kioCctx := none } kv altkv
    (r.krc, r.events)
  | .noop =>
    let r := nNoopAioComplete (a.answer fun _ => none) ses sendlen
    (r.krc, r.events)
  | .flush =>
    let r := fFlushAioComplete (a.answer fun _ => none) ses sendlen
    (r.krc, r.events)
  | .exec app =>
    let r := eExecAioComplete (a.answer RespBody.execStatus) ses sendlen (app.getD {})
    (r.krc, r.events)

/-! ### What an operation adds to the counters -/

/-- An operation that is not sent is counted as an error, one that is sent is not counted yet. -/
def IssueDone.Once (i : IssueDone) : Prop :=
  (i.krc = .kOk ∧ i.events = []) ∨ (i.krc ≠ .kOk ∧ i.events = [.err])

section Issuing
variable {e : IssueEnv} (ses : Ksession)

theorem kvMessage_error {create : MsgEnv → Kcmdhdr → Kv → Bool → Option (Request KprotoKv)}
    {msgType : Kmtype} {kv : Kv} {kb : Option Kb} {verck : Bool} {krc : KStatus}
    {events : List KopEv} (he : e.config = true)
    (h : kvMessage create msgType e ses kv kb verck = .error (krc, events)) :
    krc ≠ .kOk ∧ events = [.err] := by
  refine ⟨kvMessage_ne_ok h, ?_⟩
  simp only [kvMessage, he, not_true, if_false] at h
  split_ifs at h
  · split at h
    · cases h; rfl
    · cases h
  · cases h; rfl
  · cases h; rfl

/-- The last steps of a put or a delete, after its message was built. -/
theorem IssueDone.once_kv (e : IssueEnv) (kb : Option Kb) (req : KvReq) (fits : Bool) :
    (IssueDone.ofKv e
      (if ¬ fits then { krc := .kEbatch, kb, events := [.err] }
        else if ¬ e.send then { krc := .kEinternal, kb, events := [.err] }
        else { krc := .kOk, kb, req := some req })).Once := by
  split_ifs
  · exact .inl ⟨rfl, rfl⟩
  · exact .inr ⟨by simp [IssueDone.ofKv], rfl⟩
  · exact .inr ⟨by simp [IssueDone.ofKv], rfl⟩

theorem pPutAioGeneric_once (he : e.config = true) (kv : Kv) (kb : Option Kb) (verck : Bool) :
    (IssueDone.ofKv e (pPutAioGeneric e ses kv kb verck)).Once := by
  unfold pPutAioGeneric
  rcases h : putMessage e ses kv kb verck with ⟨krc, events⟩ | ⟨cmd, msglen⟩
  · exact .inr (kvMessage_error ses he h)
  · exact IssueDone.once_kv e _ _ _

theorem dDelAioGeneric_once (he : e.config = true) (kv : Kv) (kb : Option Kb) (verck : Bool) :
    (IssueDone.ofKv e (dDelAioGeneric e ses kv kb verck)).Once := by
  unfold dDelAioGeneric
  rcases h : delMessage e ses kv kb verck with ⟨krc, events⟩ | ⟨cmd, msglen⟩
  · exact .inr (kvMessage_error ses he h)
  · exact IssueDone.once_kv e _ _ _

theorem IssueDone.once_error {ρ : Type*} (sendlen : ρ → ℕ) {krc : KStatus} (h : krc ≠ .kOk) :
    (IssueDone.ofExcept sendlen (.error (krc, [.err]))).Once :=
  .inr ⟨h, rfl⟩

/-- The last step of the functions that build a request and send it. -/
theorem IssueDone.once_send {ρ : Type*} (sendlen : ρ → ℕ) (e : IssueEnv) (r : ρ) :
    (IssueDone.ofExcept sendlen
      (if ¬ e.send then .error (.kEinternal, [.err]) else .ok r)).Once := by
  by_cases hs : e.send = true
  · rw [if_neg (not_not.mpr hs)]
    exact .inl ⟨rfl, rfl⟩
  · rw [if_pos hs]
    exact IssueDone.once_error sendlen (by decide)

theorem gGetAioGeneric_once (he : e.config = true) (kv : Kv) (altkv : Option Kv)
    (msgType : Kmtype) (sendlen : Request KprotoKv × GetKio → ℕ) :
    (IssueDone.ofExcept sendlen (gGetAioGeneric e ses kv altkv msgType none)).Once := by
  have hinval := IssueDone.once_error sendlen (show KStatus.kEinval ≠ .kOk by decide)
  unfold gGetAioGeneric
  rw [if_neg (not_not.mpr he)]
  by_cases hhas : getHasKvs altkv msgType = true
  · rw [if_neg (not_not.mpr hhas)]
    by_cases hkv : kiValidateKv kv false true ses.ksL = true
    · rw [if_neg (not_not.mpr hkv)]
      by_cases halt : altkv.all (fun altkv => kiValidateKv altkv false true ses.ksL) = true
      · rw [if_neg (not_not.mpr halt)]
        dsimp only
        split
        case _ krc h => exact IssueDone.once_error sendlen (buildKio_ne_ok (by decide) h)
        case _ cmd msglen h => exact IssueDone.once_send sendlen e _
      · rwa [if_pos halt]
    · rwa [if_pos hkv]
  · rwa [if_pos hhas]

theorem plainAioGeneric_once (he : e.config = true)
    (create : MsgEnv → Kcmdhdr → Option (Request Unit)) (msgType : Kmtype) :
    (IssueDone.ofExcept Prod.snd (plainAioGeneric create msgType e ses)).Once := by
  unfold plainAioGeneric
  rw [if_neg (not_not.mpr he)]
  split
  case _ krc h => exact IssueDone.once_error _ (buildKio_ne_ok (by decide) h)
  case _ cmd msglen h => exact IssueDone.once_send _ e _

theorem eExecAioGeneric_once (he : e.config = true) (app : Option Kapplet) :
    (IssueDone.ofExcept Prod.snd (eExecAioGeneric e ses app)).Once := by
  unfold eExecAioGeneric
  rw [if_neg (not_not.mpr he)]
  by_cases happ : kiValidateKapplet app ses.ksL = true
  · rw [if_neg (not_not.mpr happ)]
    dsimp only
    split
    case _ krc h => exact IssueDone.once_error _ (buildKio_ne_ok (by decide) h)
    case _ cmd msglen h => exact IssueDone.once_send _ e _
  · rw [if_pos happ]
    exact IssueDone.once_error _ (by decide)

theorem Op.issue_once (he : e.config = true) (op : Op) : (op.issue e ses).Once := by
  cases op with
  | put kv kb verck => exact pPutAioGeneric_once ses he kv kb verck
  | del kv kb verck => exact dDelAioGeneric_once ses he kv kb verck
  | get kv altkv msgType => exact gGetAioGeneric_once ses he kv altkv msgType _
  | noop => exact plainAioGeneric_once ses he _ _
  | flush => exact plainAioGeneric_once ses he _ _
  | exec app => exact eExecAioGeneric_once ses he app

end Issuing

/-! ### What a completion adds -/

/-- The status of the response is `K_EAGAIN`. -/
def RespMsg.again {β : Type*} : RespMsg β → Bool
  | .cmd c => c.status == some .kEagain
  | _ => false

/-- The texts that an exec needs are there. -/
def RespMsg.hasDetail : RespMsg RespBody → Bool
  | .cmd c =>
    match c.body.bind RespBody.execStatus with
    | some ⟨_, .full ..⟩ => true
    | _ => false
  | _ => false

/-- The operation takes the status of the message for its own, and it is `K_EAGAIN`. -/
def Op.msgAgain (m : RespMsg RespBody) : Op → Bool
  | .put _ kb _ => kb.isNone && m.again
  | .del _ kb _ => kb.isNone && m.again
  | .get _ altkv msgType => getHasKvs altkv msgType && m.again
  | .noop => m.again
  | .flush => m.again
  | .exec _ => m.again && m.hasDetail

def Op.again (op : Op) : Resp RespBody → Bool
  | .msg m => op.msgAgain m
  | _ => false

/-- **What a completion reports**: nothing if the kio is not available, two errors if it timed out
or failed, and one result otherwise. -/
def Reports (again : Resp RespBody → Bool) (krc : KStatus) (events : List KopEv) :
    Option (Resp RespBody) → Prop
  | none => krc = .kEagain ∧ events = []
  | some .timedout => krc ≠ .kEagain ∧ growth events = 2
  | some .failed => krc ≠ .kEagain ∧ growth events = 2
  | some r => (krc = .kEagain ↔ again r = true) ∧ growth events = 1

section Reporting
variable {β : Type*}

theorem slot_again {γ : Type*} (f : β → Option γ) (m : RespMsg β) :
    (m.slot f).again = m.again := by
  cases m <;> rfl

theorem extractCmdstatusCode_again (c : RespCmd β) :
    extractCmdstatusCode c = .kEagain ↔ (RespMsg.cmd c).again = true := by
  rcases c with ⟨_ | krc, body⟩ <;> simp [extractCmdstatusCode, RespMsg.again]

theorem extractEcho_again (m : RespMsg KprotoKv) (kv : Kv) :
    (extractEcho m kv).1 = .kEagain ↔ m.again = true := by
  cases m with
  | nocmd => simp [extractEcho, RespMsg.again]
  | badcmd => simp [extractEcho, RespMsg.again]
  | cmd c =>
    rw [← extractCmdstatusCode_again]
    by_cases hk : extractCmdstatusCode c = .kOk
    · rcases hb : c.body with _ | response <;> simp [extractEcho, hk, hb]
    · simp [extractEcho, hk]

theorem extractGetkey_again (m : RespMsg KprotoKv) (kv : Kv) :
    (extractGetkey m kv).1 = .kEagain ↔ m.again = true := by
  cases m with
  | nocmd => simp [extractGetkey, RespMsg.again]
  | badcmd => simp [extractGetkey, RespMsg.again]
  | cmd c =>
    rw [← extractCmdstatusCode_again]
    by_cases hk : extractCmdstatusCode c = .kOk
    · rcases hb : c.body with _ | response <;> simp [extractGetkey, hk, hb]
    · simp [extractGetkey, hk]

theorem extractPlain_again (m : RespMsg Unit) :
    extractPlain m = .kEagain ↔ m.again = true := by
  cases m with
  | nocmd => simp [extractPlain, RespMsg.again]
  | badcmd => simp [extractPlain, RespMsg.again]
  | cmd c => exact extractCmdstatusCode_again c

theorem execExtract_krc (val : Option (List Byte)) (m : RespMsg ExecStatus) (app : Kapplet) :
    (execExtract val m app).1 =
      (extractExecResponse m { app with kaOutkey := app.kaOutkey.map (hangVal val) }).1 := by
  simp only [execExtract]
  split_ifs <;> rfl

theorem extractExecResponse_again (m : RespMsg RespBody) (app : Kapplet) :
    (extractExecResponse (m.slot RespBody.execStatus) app).1 = .kEagain ↔
      (m.again && m.hasDetail) = true := by
  cases m with
  | nocmd => simp [extractExecResponse, RespMsg.slot, RespMsg.again]
  | badcmd => simp [extractExecResponse, RespMsg.slot, RespMsg.again]
  | cmd c =>
    simp only [extractExecResponse, RespMsg.slot, RespMsg.again, RespMsg.hasDetail]
    rcases c.status with _ | krc <;> rcases c.body.bind RespBody.execStatus with
      _ | ⟨text, _ | rc | ⟨rc, sig, out⟩⟩ <;> simp

/-- The status of a get is that of the message, if the type is one of the family. -/
theorem getExtract_again (m : RespMsg KprotoKv) (val : Option (List Byte)) (kv : Kv)
    (altkv : Option Kv) (msgType : Kmtype) :
    (getExtract m val kv altkv msgType).1 = .kEagain ↔
      (getHasKvs altkv msgType && m.again) = true := by
  cases msgType <;> cases altkv <;> simp [getExtract, getHasKvs, extractGetkey_again]

/-- A completion reports what it should if its decoding gives `K_EAGAIN` for the messages that the
operation takes it from, and for nothing else. -/
theorem aioDone_reports {α : Type*} (op : Op) (kop : Kop) (ses : Ksession) (sl rl : ℕ)
    (lens : α → ℕ × ℕ) {decode : Resp β → KStatus × α} (caller : α) (a : Arrival)
    (f : RespBody → Option β) (hpdu : (decode .badpdu).1 ≠ .kEagain)
    (hmsg : (decode .badmsg).1 ≠ .kEagain)
    (h : ∀ m, (decode (.msg (m.slot f))).1 = .kEagain ↔ op.msgAgain m = true) :
    Reports op.again (aioDone kop ses sl rl lens decode caller (a.completion f)).krc
      (aioDone kop ses sl rl lens decode caller (a.completion f)).events a.resp := by
  unfold Arrival.completion
  rcases a.resp with _ | _ | _ | _ | _ | _ | m
  · exact ⟨rfl, rfl⟩
  · exact ⟨by simp [aioDone, Resp.slot, Op.again], rfl⟩
  · exact ⟨by simp [aioDone, Resp.slot], rfl⟩
  · exact ⟨by simp [aioDone, Resp.slot], rfl⟩
  · exact ⟨by simp [aioDone, Resp.slot, Op.again, hpdu], growth_krcEvents ..⟩
  · exact ⟨by simp [aioDone, Resp.slot, Op.again, hmsg], growth_krcEvents ..⟩
  · exact ⟨h m, growth_krcEvents ..⟩

theorem kvAioComplete_reports (op : Op) (kop : Kop) {extract : RespMsg KprotoKv → Kv → KStatus × Kv}
    (a : Arrival) (ses : Ksession) (sendlen : ℕ) (kv : Kv) (kb : Option Kb)
    (hop : ∀ m, op.msgAgain m = (kb.isNone && m.again))
    (h : ∀ m kv, (extract m kv).1 = .kEagain ↔ m.again = true) :
    Reports op.again (kvAioComplete kop extract (a.answer RespBody.keyvalue) ses sendlen kv kb).krc
      (kvAioComplete kop extract (a.answer RespBody.keyvalue) ses sendlen kv kb).events a.resp := by
  unfold kvAioComplete
  cases kb with
  | some kb =>
    refine aioDone_reports op kop ses _ _ _ kv a _ (by simp) (by simp) (fun m => ?_)
    simp [hop]
  | none =>
    refine aioDone_reports op kop ses _ _ _ kv a _ (by simp [readResponse])
      (by simp [readResponse]) (fun m => ?_)
    simp [readResponse, h, hop, slot_again]

theorem gGetAioComplete_reports (a : Arrival) (ses : Ksession) (kio : GetKio) (kv : Kv)
    (altkv : Option Kv) (val : Option (List Byte)) (msglen : ℕ) :
    Reports (Op.get kv altkv kio.kioCmd).again
      (gGetAioComplete ⟨a.completion RespBody.keyvalue, msglen, val⟩ ses kio kv altkv).krc
      (gGetAioComplete ⟨a.completion RespBody.keyvalue, msglen, val⟩ ses kio kv altkv).events
      a.resp := by
  unfold Arrival.completion
  rcases a.resp with _ | _ | _ | _ | _ | _ | m
  · exact ⟨rfl, rfl⟩
  · exact ⟨by simp [gGetAioComplete, Resp.slot, Op.again], rfl⟩
  · exact ⟨by simp [gGetAioComplete, Resp.slot], rfl⟩
  · exact ⟨by simp [gGetAioComplete, Resp.slot], rfl⟩
  · exact ⟨by simp [gGetAioComplete, Resp.slot, Op.again], rfl⟩
  · exact ⟨by simp [gGetAioComplete, Resp.slot, Op.again], rfl⟩
  · refine ⟨?_, growth_krcEvents .gets ses _ _ _ _ _⟩
    refine (getExtract_again (m.slot RespBody.keyvalue) val kv altkv kio.kioCmd).trans ?_
    simp [Op.again, Op.msgAgain, slot_again]

theorem plainAioComplete_reports (op : Op) (kop : Kop) {extract : RespMsg Unit → KStatus}
    (a : Arrival) (ses : Ksession) (sendlen : ℕ) (hop : ∀ m, op.msgAgain m = m.again)
    (h : ∀ m, extract m = .kEagain ↔ m.again = true) :
    Reports op.again (plainAioComplete kop extract (a.answer fun _ => none) ses sendlen).krc
      (plainAioComplete kop extract (a.answer fun _ => none) ses sendlen).events a.resp := by
  unfold plainAioComplete
  refine aioDone_reports op kop ses _ _ _ () a _ (by simp [readResponse])
    (by simp [readResponse]) (fun m => ?_)
  simp [readResponse, h, hop, slot_again]

theorem eExecAioComplete_reports (a : Arrival) (ses : Ksession) (sendlen : ℕ)
    (app : Option Kapplet) (caller : Kapplet) :
    Reports (Op.exec app).again
      (eExecAioComplete (a.answer RespBody.execStatus) ses sendlen caller).krc
      (eExecAioComplete (a.answer RespBody.execStatus) ses sendlen caller).events a.resp := by
  unfold eExecAioComplete
  refine aioDone_reports (.exec app) .execs ses _ _ _ caller a _ (by simp [readResponse])
    (by simp [readResponse]) (fun m => ?_)
  simp only [readResponse, execExtract_krc]
  exact extractExecResponse_again m _

/-- Every kind of operation reports in the same way. -/
theorem Op.complete_reports (op : Op) (ses : Ksession) (sendlen : ℕ) (a : Arrival) :
    Reports op.again (op.complete ses sendlen a).1 (op.complete ses sendlen a).2 a.resp := by
  cases op with
  | put kv kb verck =>
    exact kvAioComplete_reports (.put kv kb verck) .puts a ses sendlen kv kb (fun _ => rfl)
      extractEcho_again
  | del kv kb verck =>
    exact kvAioComplete_reports (.del kv kb verck) .dels a ses sendlen kv kb (fun _ => rfl)
      extractEcho_again
  | get kv altkv msgType =>
    exact gGetAioComplete_reports a ses ⟨msgType, sendlen, none⟩ kv altkv a.val a.msglen
  | noop => exact plainAioComplete_reports .noop .noops a ses sendlen (fun _ => rfl) extractPlain_again
  | flush =>
    exact plainAioComplete_reports .flush .flushs a ses sendlen (fun _ => rfl) extractPlain_again
  | exec app => exact eExecAioComplete_reports a ses sendlen app _

end Reporting

end Libkinetic.Kinetic
