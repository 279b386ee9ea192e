import Libkinetic.Kinetic.Basickv
import Libkinetic.Kinetic.Iteration

/-! # Deleting a range with a comparison

`kctl del -c` on a range asks for the version of every key of the range and deletes the key with
`ki_cad`, which sends the version that is in the structure and does not force the delete; all of
this with one structure. A request for a version fills the version of the structure only if there is
none, and nothing takes it away again: every key is deleted with the version of the first. The
server keeps a map from keys to entries and lists the keys in order; a delete that is not forced
needs the version that the key is stored with. In a batch the deletes are sent and the store stays
as it is. -/

namespace Libkinetic.Toolbox.Delrange

open Libkinetic.Kinetic

/-! ### The server -/

/-- What comes in for a request for a version. -/
def serveGetversion (t : Turn) (st : Store) (r : Request KprotoKv) : List GetAnswer :=
  let m : RespMsg KprotoKv :=
    match r.body.key with
    | none => refused .kEinval
    | some key =>
      match st key with
      | none => refused .kEnotfound
      | some entry => accepted (t.tells.response key entry)
  List.replicate t.early { completion := .notYet } ++
    [{ completion := t.completion m, val := t.fault.bind Fault.val }]

/-- The server deletes a key if it is forced to, or if the version is the one of the key. -/
def serveDelete (t : Turn) (st : Store) (r : KvReq) : Store × RespMsg KprotoKv :=
  match r.cmd.body.key with
  | none => (st, refused .kEinval)
  | some key =>
    match st key with
    | none => (st, refused .kEnotfound)
    | some entry =>
      if r.cmd.body.force = some true ∨ entry.version = r.cmd.body.dbversion then
        (Function.update st key none, accepted (t.tells.response key entry))
      else (st, refused .kEversion)

/-! ### The command -/

/-- `ki_del` without and `ki_cad` with a check of the version: in a batch there is no response. -/
def kiDelete (t : Turn) (ses : Ksession) (st : Store) (kv : Kv) (kb : Option Kb) (verck : Bool) :
    KvOutcome :=
  let i := dDelAioGeneric t.env ses kv kb verck
  kvCall i (fun a kv => dDelAioComplete a ses (IssueDone.ofKv t.env i).sendlen kv kb)
    (fun r => t.serve st (match kb with
      | none => serveDelete t st r
      | some _ => (st, accepted {}))) st kv

/-- The session, whether `-c` is given, and what the environment decides: the calls for the
versions and the deletes, the order of the keys, and the answers to the requests for a range, of the
keys that are there. -/
structure DelConf where
  ses : Ksession
  cmpdel : Bool
  getTurn : ℕ → Turn
  delTurn : ℕ → Turn
  keys : List Key
  answer : ℕ → List Key → RangeReq → Resp (List Key)

/-- The structure, the batch, the store and the deletes that were sent. -/
structure DelState where
  kv : Kv
  kb : Option Kb
  store : Store
  sent : List KvReq

/-- What the command returns, unless a call still waits, and what it leaves behind. -/
structure DelRun where
  rc : Option ℤ
  store : Store
  sent : List KvReq

section Command
variable (c : DelConf)

/-- The key is set. -/
def hangKey (k : Key) (kv : Kv) : Kv :=
  { kv with kvKey := kv.kvKey.map fun key => key.set 0 (some k) }

/-- The request for the version, with `-c`. -/
def askVersion (m : ℕ) (st : Store) (kv : Kv) : Option KStatus × Kv :=
  if c.cmpdel then
    let g := kiGetversion (c.getTurn m).env c.ses (serveGetversion (c.getTurn m) st) kv
    (g.krc, g.kv)
  else (some .kOk, kv)

/-- The body of the loop, for the key number `m`. -/
def delRound (m : ℕ) (k : Key) (s : DelState) : Except (Option ℤ × DelState) DelState :=
  if s.kb.isSome ∧ c.ses.ksL.klBatdelcnt < m + 1 then .error (some (-1), s)
  else
    let (krc, kv) := askVersion c m s.store (hangKey k s.kv)
    if krc ≠ some .kOk then .error (krc.map fun _ => -1, { s with kv })
    else
      let t := c.delTurn m
      let i := dDelAioGeneric t.env c.ses kv s.kb c.cmpdel
      let d := kiDelete t c.ses s.store kv s.kb c.cmpdel
      let s := { kv := d.kv, kb := i.kb, store := d.store, sent := s.sent ++ i.req.toList }
      if d.krc = some .kOk then .ok s else .error (d.krc.map fun _ => -1, s)

/-- The keys that the server has. -/
def currentKeys (st : Store) : List Key := c.keys.filter fun k => (st k).isSome

/-- `for (k = ki_start(kit, kr); k; k = ki_next(kit))`, from the key number `m` on. -/
def delLoop : ℕ → ℕ → Kiter × Option ℕ → DelState → DelRun
  | 0, _, _, s => { rc := none, store := s.store, sent := s.sent }
  | fuel + 1, m, (kit, ret), s =>
    match ret with
    | none => { rc := some 0, store := s.store, sent := s.sent }
    | some i =>
      match kit.keyAt i with
      | none => { rc := none, store := s.store, sent := s.sent }
      | some k =>
        match delRound c m k s with
        | .error (rc, s) => { rc, store := s.store, sent := s.sent }
        | .ok s =>
          match kiNext (c.answer (m + 1) (currentKeys c s.store)) c.ses.ksL kit with
          | none => { rc := none, store := s.store, sent := s.sent }
          | some r => delLoop fuel (m + 1) r s

end Command

/-- The range of the command line; a count that is not given is less than 0. -/
structure RangeArgs where
  start : Option Key := none
  starti : Bool := false
  stop : Option Key := none
  endi : Bool := false
  count : ℤ := -1

def RangeArgs.krange (a : RangeArgs) : Krange where
  krFlags := (if a.starti then krfIstart else 0) ||| (if a.endi then krfIend else 0)
  krStart := a.start.map fun k => [k]
  krEnd := a.stop.map fun k => [k]
  krCount := if a.count < 0 then kvrCountInf else a.count

/-- The structure before the first key. -/
def delKv (cpolicy : Kcachepolicy) : Kv :=
  { kvKey := some [none], kvVal := some [{}], kvCpolicy := cpolicy }

/-- **`kctl_del`** on a range, up to the flush that `-F` asks for; `kb` is the batch with `-b`. -/
def kctlDel (c : DelConf) (fuel : ℕ) (a : RangeArgs) (cpolicy : Kcachepolicy) (st : Store)
    (kb : Option Kb) : DelRun :=
  let kit : Kiter := { kiMaxkeyreq := c.ses.ksL.klRangekeycnt }
  delLoop c fuel 0 (kiStart (c.answer 0 (currentKeys c st)) c.ses.ksL kit a.krange)
    { kv := delKv cpolicy, kb, store := st, sent := [] }

/-! ### What is asked of it -/

def version (st : Store) (k : Key) : Option (List Byte) := (st k).bind Entry.version

/-- **Every key of a list is deleted**, with the version that the server has for it. -/
structure Deletes (st : Store) (kb : Option Kb) (ks : List Key) (r : DelRun) : Prop where
  returns : r.rc = some 0
  all : r.sent.map (fun req => req.cmd.body.key) = ks.map some
  carries : r.sent.map (fun req => req.cmd.body.dbversion) = ks.map (version st)
  gone : kb = none → ∀ k, r.store k = if k ∈ ks then none else st k

/-- **The condition**: the keys have one version, which the limits allow. -/
def OneVersion (lim : Klimits) (st : Store) (ks : List Key) : Prop :=
  ∀ k ∈ ks, ∃ v, 1 ≤ v.length ∧ v.length ≤ lim.klVerlen ∧ ∀ k' ∈ ks, version st k' = some v

/-- Value and tag of an entry are in the limits; the tag may be empty. -/
structure Tagged (lim : Klimits) (e : Entry) : Prop where
  value : e.value.length ≤ lim.klVallen
  tag : ∃ b, e.tag = some b ∧ optLen lim.klDisumlen (unpackedBytes b) = true ∧
    ((unpackedBytes b).isSome → ∃ d, e.algorithm = some d ∧ ∀ z, d ≠ .other z)

/-- **A server without faults**, and without other clients: it has the keys that it lists, answers
every request, and tells the version that it is asked for. -/
structure Calm (c : DelConf) (st : Store) : Prop where
  sorted : c.keys.Pairwise (· < ·)
  nonempty : ∀ k ∈ c.keys, k ≠ []
  fits : ∀ k ∈ c.keys, k.length ≤ c.ses.ksL.klKeylen
  keylen_lt : c.ses.ksL.klKeylen < 2 ^ 32
  has : ∀ k, (st k).isSome ↔ k ∈ c.keys
  tagged : ∀ k e, st k = some e → Tagged c.ses.ksL e
  answers : ∀ n ks req, req.reverse = false → 0 < req.maxreturned →
    Answers ks req (c.answer n ks req)
  getServes : ∀ n, (c.getTurn n).Serves ∧ (c.getTurn n).tells.version = true
  delServes : ∀ n, (c.delTurn n).Serves

/-- The batch behind `n` deletes. -/
def batchAfter (c : DelConf) (kb : Kb) : ℕ → Kb
  | 0 => kb
  | n + 1 => countDel (batchAfter c kb n) (uint32 ((c.delTurn n).env.pack.getD 0))

/-- The batch takes `n` deletes. -/
structure Room (c : DelConf) (n : ℕ) (kb : Kb) : Prop where
  bid : kfirstbid ≤ kb.kbBid
  count : n ≤ c.ses.ksL.klBatdelcnt
  fits : ∀ m < n, delFits c.ses.ksL (batchAfter c kb (m + 1)) = true

/-- The keys on the command line are in the limits, and the count is an `int`. -/
structure InLimits (lim : Klimits) (a : RangeArgs) : Prop where
  start : ∀ k ∈ a.start, 1 ≤ k.length ∧ k.length ≤ lim.klKeylen
  stop : ∀ k ∈ a.stop, 1 ≤ k.length ∧ k.length ≤ lim.klKeylen
  count : a.count < 2 ^ 31

/-! ### Asking for a version -/

section Getversion
variable {t : Turn} {ses : Ksession} {st : Store} {kv : Kv} {a : GetAnswer} {kio : GetKio}

/-- The completion of a request for a version succeeds with an accepted response only. -/
theorem getversComplete_ok (hcmd : kio.kioCmd = .kmtGetvers)
    (h : (gGetAioComplete a ses kio kv none).krc = .kOk) :
    ∃ c response, a.completion = .resp (.msg (.cmd c)) ∧ extractCmdstatusCode c = .kOk ∧
      c.body = some response ∧ (gGetAioComplete a ses kio kv none).kv = fillKv response kv := by
  obtain ⟨completion, msglen, val⟩ := a
  rcases completion with _ | _ | (_ | _ | _ | _ | _ | m)
  case resp.msg =>
    simp only [gGetAioComplete, hcmd, getExtract] at h ⊢
    rcases m with _ | _ | c
    · simp [extractGetkey, getFinish] at h
    · simp [extractGetkey, getFinish] at h
    · by_cases hc : extractCmdstatusCode c = .kOk
      · rcases hb : c.body with _ | response
        · simp [extractGetkey, getFinish, hc, hb] at h
        · exact ⟨c, response, rfl, hc, hb, by simp [extractGetkey, getFinish, hc, hb, hcmd]⟩
      · simp [extractGetkey, getFinish, hc] at h
  all_goals simp [gGetAioComplete] at h

/-- **A request for a version that succeeds** has filled the structure. -/
theorem kiGetversion_ok
    (h : (kiGetversion t.env ses (serveGetversion t st) kv).krc = some .kOk) :
    ∃ response,
      (kiGetversion t.env ses (serveGetversion t st) kv).kv = fillKv response kv := by
  unfold kiGetversion gGetGeneric getCall at h ⊢
  rcases hi : gGetAioGeneric t.env ses kv none .kmtGetvers none with ⟨krc, events⟩ | ⟨req, kio⟩
  · rw [hi] at h
    exact absurd (Option.some.inj h) (gGetAioGeneric_ne_ok hi)
  · rw [hi] at h
    obtain ⟨hv, rfl, hcmd⟩ := gGetAioGeneric_ok hi
    dsimp only [serveGetversion] at h ⊢
    rw [getWait_late (fun _ _ => rfl)] at h ⊢
    simp only [getWait] at h ⊢
    generalize ha : (⟨t.completion _, 0, _⟩ : GetAnswer) = a at h ⊢
    by_cases hagain : (gGetAioComplete a ses kio kv none).krc = .kEagain
    · rw [if_pos hagain] at h
      cases h
    rw [if_neg hagain] at h ⊢
    obtain ⟨-, response, -, -, -, hkv⟩ := getversComplete_ok hcmd (Option.some.inj h)
    exact ⟨response, hkv⟩

/-- **A request for the version of a key that is there**, if it is served. -/
theorem kiGetversion_served {key : List (Option Key)} {entry : Entry} (ht : t.Serves)
    (hkey : kv.kvKey = some key) (hv : kiValidateKv kv false true ses.ksL = true)
    (hold : st (keyBytes key) = some entry) :
    (kiGetversion t.env ses (serveGetversion t st) kv).krc = some .kOk ∧
      (kiGetversion t.env ses (serveGetversion t st) kv).kv =
        fillKv (t.tells.response (keyBytes key) entry) kv := by
  obtain ⟨he, hf⟩ := ht
  obtain ⟨len, hsent⟩ := @gGetAioGeneric_sent t.env ses kv none .kmtGetvers none ⟨rfl, hv, rfl⟩ he
  have hbody : (getRequest ses kv .kmtGetvers).body.key = some (keyBytes key) := by
    simp [getRequest, hkey]
  unfold kiGetversion gGetGeneric getCall
  rw [hsent]
  dsimp only [serveGetversion]
  rw [hbody]
  dsimp only
  rw [hold, getWait_late (fun _ _ => rfl)]
  simp [getWait, gGetAioComplete, Turn.completion, hf, accepted, getExtract, extractGetkey,
    extractCmdstatusCode, getFinish]

end Getversion

/-! ### Deleting with a version -/

section Delete
variable {t : Turn} {ses : Ksession} {st : Store} {kv : Kv} {kb : Option Kb} {req : KvReq}
  {key : List (Option Key)} {v : List Byte}

/-- Outside of a batch. -/
theorem kiDelete_none (verck : Bool) : kiDelete t ses st kv none verck =
    turnCall t .dels ses (IssueDone.ofKv t.env (dDelAioGeneric t.env ses kv none verck)).sendlen
      (dDelAioGeneric t.env ses kv none verck) (serveDelete t st) st kv := rfl

/-- What a delete with a check of the version carries. -/
theorem request_carries (h : (dDelAioGeneric t.env ses kv kb true).req = some req) :
    ∃ v, kv.kvVer = some v ∧ (1 ≤ v.length ∧ v.length ≤ ses.ksL.klVerlen) ∧
      req.cmd.body.dbversion = some v ∧ req.cmd.body.force = some false := by
  obtain ⟨len, hm⟩ := dDelAioGeneric_some h
  obtain ⟨hvalid, hcreate⟩ := kvMessage_ok hm
  have hver : kv.kvVer.isSome = true ∧ optLen ses.ksL.klVerlen kv.kvVer = true := by
    simp only [kiValidateKv, Bool.and_eq_true, Bool.not_true, Bool.false_or] at hvalid
    exact ⟨hvalid.1.1.1.2, hvalid.1.1.1.1.1.2⟩
  obtain ⟨v, hv⟩ := Option.isSome_iff_exists.mp hver.1
  have hlen : 1 ≤ v.length ∧ v.length ≤ ses.ksL.klVerlen := by
    simpa [optLen, hv] using hver.2
  unfold createDelkeyMessage createMessage at hcreate
  split_ifs at hcreate
  rw [← Option.some.inj hcreate]
  exact ⟨v, hv, hlen, by simp [setBytesOptional, hv], rfl⟩

/-- A delete in a batch, which is over as soon as it is sent. -/
def batchCall (t : Turn) (ses : Ksession) (sl : ℕ) (i : KvIssue) (st : Store) (kv : Kv) (b : Kb) :
    KvOutcome :=
  kvCall i (fun a kv => kvAioComplete .dels extractEcho a ses sl kv (some b))
    (fun _ => t.serve st (st, accepted {})) st kv

theorem kiDelete_some (b : Kb) (verck : Bool) : kiDelete t ses st kv (some b) verck =
    batchCall t ses
      (IssueDone.ofKv t.env (dDelAioGeneric t.env ses kv (some b) verck)).sendlen
      (dDelAioGeneric t.env ses kv (some b) verck) st kv b := rfl

/-- In a batch the structure stays as it is. -/
theorem batchCall_kv {i : KvIssue} {sl : ℕ} (b : Kb) : (batchCall t ses sl i st kv b).kv = kv := by
  unfold batchCall kvCall
  rcases i.req with _ | req
  · rfl
  · dsimp only [Turn.serve]
    rw [kvWait_late (fun _ => rfl)]
    rcases t.completion (accepted {}) with _ | _ | (_ | _ | _ | _ | _ | m)
    all_goals rfl

/-- What is not sent does not succeed. -/
theorem batchCall_ok {i : KvIssue} {sl : ℕ} {b : Kb} (hreq : i.req = none → i.krc ≠ .kOk)
    (h : (batchCall t ses sl i st kv b).krc = some .kOk) : ∃ req, i.req = some req := by
  rcases hi : i.req with _ | req
  · unfold batchCall kvCall at h
    rw [hi] at h
    exact absurd (Option.some.inj h) (hreq hi)
  · exact ⟨req, rfl⟩

/-- **A delete that succeeds** has sent its version, and leaves it in the structure. -/
theorem kiDelete_ok (h : (kiDelete t ses st kv kb true).krc = some .kOk) :
    ∃ req v, (dDelAioGeneric t.env ses kv kb true).req = some req ∧ kv.kvVer = some v ∧
      (1 ≤ v.length ∧ v.length ≤ ses.ksL.klVerlen) ∧ req.cmd.body.dbversion = some v ∧
      (kiDelete t ses st kv kb true).kv.kvVer = some v := by
  rcases kb with _ | b
  · rw [kiDelete_none] at h ⊢
    obtain ⟨req, c, response, hi, hs, hc, hb, hkv, -⟩ := turnCall_ok dDelAioGeneric_unsent h
    obtain ⟨v, hver, hlen, hdb, hforce⟩ := request_carries hi
    refine ⟨req, v, hi, hver, hlen, hdb, ?_⟩
    rw [hkv]
    -- the server has compared the versions
    have hne : v ≠ [] := List.length_pos_iff.mp hlen.1
    unfold serveDelete at hs
    rcases hk : req.cmd.body.key with _ | key
    · simp only [hk, refused] at hs
      cases hs
      cases hb
    · rcases hold : st key with _ | entry
      · simp only [hk, hold, refused] at hs
        cases hs
        cases hb
      · simp only [hk, hold, hforce, hdb, Option.some.injEq, Bool.false_eq_true, false_or] at hs
        split_ifs at hs with heq
        · cases hs
          rw [← Option.some.inj hb]
          rcases ht : t.tells.version with _ | _
          · simp [echoKv, Tells.response, ht, extractBytesOptional, hver]
          · simp [echoKv, Tells.response, ht, extractBytesOptional, heq, unpackedBytes, hne]
        · cases hs
          cases hb
  · rw [kiDelete_some] at h ⊢
    obtain ⟨req, hi⟩ := batchCall_ok dDelAioGeneric_unsent h
    obtain ⟨v, hver, hlen, hdb, -⟩ := request_carries hi
    exact ⟨req, v, hi, hver, hlen, hdb, by rw [batchCall_kv, hver]⟩

/-- The length of the message of a delete that is sent. -/
def msglen (t : Turn) : ℕ := uint32 (t.env.pack.getD 0)

/-- **A delete that can be sent is sent.** -/
theorem dDelAioGeneric_sent (he : t.env.goesOut = true) (hkey : kv.kvKey = some key)
    (hv : kiValidateKv kv true true ses.ksL = true)
    (hkb : ∀ b ∈ kb, kfirstbid ≤ b.kbBid ∧ delFits ses.ksL (countDel b (msglen t)) = true) :
    ∃ req, (dDelAioGeneric t.env ses kv kb true).req = some req ∧
      req.cmd.body.key = some (keyBytes key) ∧
      (dDelAioGeneric t.env ses kv kb true).kb = kb.map (countDel · (msglen t)) := by
  have he' := he
  simp only [IssueEnv.goesOut, Bool.and_eq_true] at he'
  obtain ⟨⟨⟨⟨⟨⟨⟨-, hk⟩, hc⟩, hm⟩, -⟩, -⟩, -⟩, hsend⟩ := he'
  obtain ⟨cmd, hcreate⟩ :
      ∃ cmd, createDelkeyMessage t.env.message (kvHdr ses kb .kmtDel) kv (!true) = some cmd := by
    simp [createDelkeyMessage, createMessage, hc, hm]
  have hcmd := createDelkeyMessage_some hkey hcreate
  rw [if_pos hk] at hcmd
  have hbatch : ∀ b ∈ kb, kiValidateKb b .kmtPut = true :=
    fun b hb => decide_eq_true (hkb b hb).1
  have hmsg : delMessage t.env ses kv kb true = .ok (cmd, msglen t) :=
    kvMessage_sent he hv hbatch hcreate
  have hfits : ((kb.map fun b => countDel b (msglen t)).all (delFits ses.ksL)) = true := by
    rw [Option.all_eq_true]
    intro b hb
    obtain ⟨b', hb', rfl⟩ := Option.map_eq_some_iff.mp hb
    exact (hkb b' hb').2
  refine ⟨{ cmd }, ?_, hcmd, ?_⟩
  · simp only [dDelAioGeneric, hmsg, hfits, hsend, not_true_eq_false, if_false]
  · simp only [dDelAioGeneric, hmsg, hfits, hsend, not_true_eq_false, if_false]

/-- **A delete with the version of the key** succeeds outside of a batch. -/
theorem kiDelete_served {entry : Entry} (ht : t.Serves) (hkey : kv.kvKey = some key)
    (hv : kiValidateKv kv true true ses.ksL = true) (hold : st (keyBytes key) = some entry)
    (hver : kv.kvVer = entry.version) :
    kiDelete t ses st kv none true =
      { krc := some .kOk, kv := echoKv (t.tells.response (keyBytes key) entry) kv,
        store := Function.update st (keyBytes key) none } := by
  obtain ⟨he, hf⟩ := ht
  have hnone : ∀ b ∈ (none : Option Kb), kfirstbid ≤ b.kbBid ∧
      delFits ses.ksL (countDel b (msglen t)) = true := nofun
  obtain ⟨req, hi, hcmd, -⟩ := dDelAioGeneric_sent he hkey hv hnone
  obtain ⟨v, hv', -, hdb, -⟩ := request_carries hi
  have heq : entry.version = req.cmd.body.dbversion := by rw [← hver, hv', hdb]
  have hserve : serveDelete t st req = (Function.update st (keyBytes key) none,
      accepted (t.tells.response (keyBytes key) entry)) := by
    simp only [serveDelete, hcmd, hold, heq, or_true, if_true]
  have hcall : turnCall t .dels ses
      (IssueDone.ofKv t.env (dDelAioGeneric t.env ses kv none true)).sendlen
      (dDelAioGeneric t.env ses kv none true) (serveDelete t st) st kv =
        { krc := some .kOk, kv := echoKv (t.tells.response (keyBytes key) entry) kv,
          store := (serveDelete t st req).1 } := turnCall_served hi hf (congrArg Prod.snd hserve)
  rw [kiDelete_none, hcall, hserve]

/-- In a batch it succeeds when it is sent. -/
theorem batchCall_served {i : KvIssue} {sl : ℕ} {b : Kb} (hi : i.req = some req)
    (hf : t.fault = none) :
    batchCall t ses sl i st kv b = { krc := some .kOk, kv, store := st } := by
  unfold batchCall kvCall
  rw [hi]
  dsimp only [Turn.serve]
  rw [kvWait_late (fun _ => rfl)]
  simp [kvWait, kvAioComplete, aioDone, Turn.completion, hf]

end Delete

/-! ### One key -/

/-- **The structure between the keys**: the version in it, if there is one, is that of the keys. -/
structure Between (lim : Klimits) (v : List Byte) (kv : Kv) : Prop where
  key : ∃ b, kv.kvKey = some [b]
  val : kv.kvVal = some [{}]
  ver : kv.kvVer = none ∨ kv.kvVer = some v
  metadata : MetaOk lim kv

/-- **The structure with a key and its version.** -/
structure Asked (lim : Klimits) (v : List Byte) (k : Key) (kv : Kv) : Prop where
  key : kv.kvKey = some [some k]
  val : kv.kvVal = some [{}]
  ver : kv.kvVer = some v
  metadata : MetaOk lim kv

section Round
variable {lim : Klimits} {v : List Byte} {kv : Kv} {k : Key} {t : Turn} {e : Entry}

theorem kiValidateKv_verck (kv : Kv) (lim : Klimits) :
    kiValidateKv kv true true lim = true ↔
      kiValidateKv kv false true lim = true ∧ kv.kvVer.isSome = true := by
  simp only [kiValidateKv, Bool.and_eq_true, Bool.not_true, Bool.false_or, Bool.not_false,
    Bool.true_or, and_true]
  tauto

theorem Between.kvKey (h : Between lim v kv) (k : Key) :
    (hangKey k kv).kvKey = some [some k] := by
  obtain ⟨b, hb⟩ := h.key
  simp [hangKey, hb]

/-- The key is not looked at. -/
theorem Between.metaOk_hangKey (h : Between lim v kv) (k : Key) : MetaOk lim (hangKey k kv) :=
  ⟨h.metadata.ver, h.metadata.newver, h.metadata.disum, h.metadata.ditype, h.metadata.cpolicy⟩

theorem keyBytes_one (k : Key) : keyBytes [some k] = k := by
  simp [keyBytes, fragments]

/-- A structure with one key that the limits allow. -/
theorem valid_of_one (hkey : kv.kvKey = some [some k]) (hval : kv.kvVal = some [{}])
    (hlen : k.length ≤ lim.klKeylen) (hmeta : MetaOk lim kv) :
    kiValidateKv kv false true lim = true := by
  rw [kiValidateKv_iff]
  refine ⟨⟨_, hkey, le_refl _, ?_⟩, ⟨_, hval, le_refl _, Nat.zero_le _⟩, hmeta⟩
  rwa [keyBytes_one]

/-- The entry of a key with the version of the keys. -/
theorem Tagged.fine (h : Tagged lim e) (hver : e.version = some v)
    (hlen : 1 ≤ v.length ∧ v.length ≤ lim.klVerlen) : e.Fine lim :=
  ⟨h.value, by simpa [hver, optLen] using hlen, h.tag⟩

/-- What the answer about the version leaves. -/
theorem Between.filled (h : Between lim v kv) (he : e.Fine lim) (hver : e.version = some v)
    (hne : v ≠ []) (ht : t.tells.version = true) :
    Asked lim v k (fillKv (t.tells.response k e) (hangKey k kv)) := by
  have hkey := h.kvKey k
  have hfilled : MetaOk lim (filledKv t k e (hangKey k kv)) := (h.metaOk_hangKey k).filled he
  refine ⟨?_, h.val, ?_,
    ⟨hfilled.ver, hfilled.newver, hfilled.disum, hfilled.ditype, hfilled.cpolicy⟩⟩
  · simp [fillKv, hkey]
  · have hkept : (hangKey k kv).kvVer = kv.kvVer := rfl
    rcases h.ver with hnone | hsome
    · simp [fillKv, hkept, hnone, Tells.response, ht, hver, extractBytesOptional, unpackedBytes,
        hne]
    · simp [fillKv, hkept, hsome]

/-- What the response to the delete leaves. -/
theorem Asked.echoed (h : Asked lim v k kv) (he : e.Fine lim) (hver : e.version = some v)
    (hne : v ≠ []) : Between lim v (echoKv (t.tells.response k e) kv) where
  key := by
    rcases ht : t.tells.key with _ | _
    · exact ⟨some k, by simp [echoKv, Tells.response, ht, h.key]⟩
    · exact ⟨unpackedBytes k, by simp [echoKv, Tells.response, ht]⟩
  val := h.val
  ver := by
    refine .inr ?_
    rcases ht : t.tells.version with _ | _
    · simp [echoKv, Tells.response, ht, extractBytesOptional, h.ver]
    · simp [echoKv, Tells.response, ht, extractBytesOptional, hver, unpackedBytes, hne]
  metadata := h.metadata.echo he

/-- What is left as it is. -/
theorem Asked.between (h : Asked lim v k kv) : Between lim v kv :=
  ⟨⟨some k, h.key⟩, h.val, .inr h.ver, h.metadata⟩

theorem Asked.valid (h : Asked lim v k kv) (hlen : k.length ≤ lim.klKeylen) :
    kiValidateKv kv true true lim = true := by
  rw [kiValidateKv_verck]
  exact ⟨valid_of_one h.key h.val hlen h.metadata, by rw [h.ver]; rfl⟩

variable {c : DelConf} {m : ℕ} {s s' : DelState}

/-- What a delete of a key leaves in the store. -/
def storeAfter (kb : Option Kb) (st : Store) (k : Key) : Store :=
  if kb = none then Function.update st k none else st

/-- **The version comes back.** -/
theorem askVersion_ok {st : Store} (hcmp : c.cmpdel = true) (hk : k.length ≤ c.ses.ksL.klKeylen)
    (h : Between c.ses.ksL v kv) (hold : st k = some e) (he : e.Fine c.ses.ksL)
    (hver : e.version = some v) (hne : v ≠ [])
    (hget : (c.getTurn m).Serves ∧ (c.getTurn m).tells.version = true) :
    ∃ kv', askVersion c m st (hangKey k kv) = (some .kOk, kv') ∧ Asked c.ses.ksL v k kv' := by
  have hvalid := valid_of_one (h.kvKey k) h.val hk (h.metaOk_hangKey k)
  have hstored : st (keyBytes [some k]) = some e := by rw [keyBytes_one, hold]
  obtain ⟨hkrc, hkv⟩ := kiGetversion_served hget.1 (h.kvKey k) hvalid hstored
  rw [keyBytes_one] at hkv
  refine ⟨_, ?_, h.filled (k := k) he hver hne hget.2⟩
  rw [askVersion, if_pos hcmp, ← hkv, ← hkrc]

/-- **The delete of a key with its version** goes well. -/
theorem Asked.deletes {st : Store} {kb : Option Kb} (h : Asked c.ses.ksL v k kv)
    (hk : k.length ≤ c.ses.ksL.klKeylen) (hold : st k = some e) (he : e.Fine c.ses.ksL)
    (hver : e.version = some v) (hne : v ≠ []) (hdel : t.Serves)
    (hkb : ∀ b ∈ kb, kfirstbid ≤ b.kbBid ∧ delFits c.ses.ksL (countDel b (msglen t)) = true) :
    ∃ req kv', (dDelAioGeneric t.env c.ses kv kb true).req = some req ∧
      (dDelAioGeneric t.env c.ses kv kb true).kb = kb.map (countDel · (msglen t)) ∧
      kiDelete t c.ses st kv kb true =
        { krc := some .kOk, kv := kv', store := storeAfter kb st k } ∧
      Between c.ses.ksL v kv' ∧ req.cmd.body.key = some k ∧ req.cmd.body.dbversion = some v := by
  have hvalid := h.valid hk
  obtain ⟨req, hi, hreq, hikb⟩ := dDelAioGeneric_sent hdel.1 h.key hvalid hkb
  obtain ⟨v', hv', -, hdb, -⟩ := request_carries hi
  obtain rfl : v' = v := by
    rw [h.ver] at hv'
    exact (Option.some.inj hv').symm
  rw [keyBytes_one] at hreq
  rcases kb with _ | b
  · have hstored : st (keyBytes [some k]) = some e := by rw [keyBytes_one, hold]
    have hserved := kiDelete_served hdel h.key hvalid hstored (h.ver.trans hver.symm)
    rw [keyBytes_one] at hserved
    exact ⟨req, _, hi, hikb, hserved, h.echoed he hver hne, hreq, hdb⟩
  · have hserved : kiDelete t c.ses st kv (some b) true =
        { krc := some .kOk, kv, store := st } := by
      rw [kiDelete_some]
      exact batchCall_served hi hdel.2
    exact ⟨req, kv, hi, hikb, hserved, h.between, hreq, hdb⟩

/-- **A round that goes well**: the key is deleted with its version. -/
theorem delRound_ok (hcmp : c.cmpdel = true) (hk : k.length ≤ c.ses.ksL.klKeylen)
    (hs : Between c.ses.ksL v s.kv) (hold : s.store k = some e) (he : Tagged c.ses.ksL e)
    (hver : e.version = some v) (hlen : 1 ≤ v.length ∧ v.length ≤ c.ses.ksL.klVerlen)
    (hget : (c.getTurn m).Serves ∧ (c.getTurn m).tells.version = true)
    (hdel : (c.delTurn m).Serves)
    (hkb : ∀ b ∈ s.kb, kfirstbid ≤ b.kbBid ∧ m < c.ses.ksL.klBatdelcnt ∧
      delFits c.ses.ksL (countDel b (msglen (c.delTurn m))) = true) :
    ∃ req kv', delRound c m k s =
        .ok { kv := kv', kb := s.kb.map (countDel · (msglen (c.delTurn m))),
              store := storeAfter s.kb s.store k, sent := s.sent ++ [req] } ∧
      Between c.ses.ksL v kv' ∧ req.cmd.body.key = some k ∧ req.cmd.body.dbversion = some v := by
  have hfine := he.fine hver hlen
  have hne : v ≠ [] := List.length_pos_iff.mp hlen.1
  have hroom : ¬ (s.kb.isSome ∧ c.ses.ksL.klBatdelcnt < m + 1) := by
    rintro ⟨hsome, hlt⟩
    obtain ⟨b, hb⟩ := Option.isSome_iff_exists.mp hsome
    have hcnt := (hkb b hb).2.1
    omega
  obtain ⟨kv, hask, hasked⟩ := askVersion_ok hcmp hk hs hold hfine hver hne hget
  obtain ⟨req, kv', hi, hikb, hd, hbetween, hreq, hdb⟩ := hasked.deletes hk hold hfine hver hne hdel
    fun b hb => ⟨(hkb b hb).1, (hkb b hb).2.2⟩
  refine ⟨req, kv', ?_, hbetween, hreq, hdb⟩
  rw [delRound, if_neg hroom, hask]
  simp only [ne_eq, not_true_eq_false, if_false, hcmp, hi, hikb, hd, if_true, Option.toList_some]

/-- A round that fails does not end with 0. -/
theorem delRound_error {rc : Option ℤ} (h : delRound c m k s = .error (rc, s')) : rc ≠ some 0 := by
  rintro rfl
  unfold delRound at h
  dsimp only at h
  split_ifs at h with hroom hget hdel
  · cases h
  · have hrc := congrArg Prod.fst (Except.error.inj h)
    simp at hrc
  · have hrc := congrArg Prod.fst (Except.error.inj h)
    simp at hrc

/-- **A round that succeeds** has sent the version that is in the structure, if there is one, and
leaves it there. -/
theorem version_of_delRound (hcmp : c.cmpdel = true) (h : delRound c m k s = .ok s') :
    ∃ req v, s'.sent = s.sent ++ [req] ∧ (1 ≤ v.length ∧ v.length ≤ c.ses.ksL.klVerlen) ∧
      req.cmd.body.dbversion = some v ∧ s'.kv.kvVer = some v ∧
      ∀ v₀, s.kv.kvVer = some v₀ → v = v₀ := by
  unfold delRound at h
  split_ifs at h with hroom
  rcases hask : askVersion c m s.store (hangKey k s.kv) with ⟨krc, kv⟩
  rw [hask] at h
  dsimp only at h
  split_ifs at h with hkrc hd
  rw [not_not] at hkrc
  rw [askVersion, if_pos hcmp] at hask
  obtain ⟨rfl, rfl⟩ := Prod.mk.inj hask
  obtain ⟨response, hfill⟩ := kiGetversion_ok hkrc
  rw [hcmp] at hd h
  obtain ⟨req, v, hi, hver, hlen, hdb, hleft⟩ := kiDelete_ok hd
  rw [hi] at h
  obtain rfl := Except.ok.inj h
  refine ⟨req, v, rfl, hlen, hdb, hleft, fun v₀ hv₀ => ?_⟩
  have hkept : (hangKey k s.kv).kvVer = some v₀ := hv₀
  rw [hfill] at hver
  simp only [fillKv, hkept] at hver
  exact (Option.some.inj hver).symm

end Round

/-! ### All the keys have the version of the first -/

section Version
variable {c : DelConf} {fuel m : ℕ} {r : Kiter × Option ℕ} {s : DelState}

/-- **Whatever the keys are**, a run that ends well has sent one version. -/
theorem version_of_delLoop (hcmp : c.cmpdel = true) (h : (delLoop c fuel m r s).rc = some 0) :
    ∃ reqs, (delLoop c fuel m r s).sent = s.sent ++ reqs ∧
      (reqs = [] ∨ ∃ v : List Byte, (1 ≤ v.length ∧ v.length ≤ c.ses.ksL.klVerlen) ∧
        (∀ req ∈ reqs, req.cmd.body.dbversion = some v) ∧
        ∀ v₀, s.kv.kvVer = some v₀ → v = v₀) := by
  induction fuel generalizing m r s with
  | zero => cases h
  | succ fuel ih =>
    obtain ⟨kit, _ | i⟩ := r
    · exact ⟨[], (List.append_nil _).symm, .inl rfl⟩
    simp only [delLoop] at h ⊢
    rcases hk : kit.keyAt i with _ | k
    · rw [hk] at h
      cases h
    rw [hk] at h
    dsimp only at h ⊢
    rcases hround : delRound c m k s with ⟨rc, s'⟩ | s'
    · rw [hround] at h
      exact absurd h (delRound_error hround)
    rw [hround] at h
    dsimp only at h ⊢
    rcases hnext : kiNext (c.answer (m + 1) (currentKeys c s'.store)) c.ses.ksL kit with _ | r'
    · rw [hnext] at h
      cases h
    rw [hnext] at h
    dsimp only at h ⊢
    obtain ⟨req, v, hsent, hlen, hdb, hver, hfirst⟩ := version_of_delRound hcmp hround
    obtain ⟨reqs, hsent', hreqs⟩ := ih h
    refine ⟨req :: reqs, by rw [hsent', hsent, List.append_assoc, List.singleton_append],
      .inr ⟨v, hlen, ?_, hfirst⟩⟩
    rcases hreqs with rfl | ⟨v', -, hall, hsame⟩
    · intro r hr
      obtain rfl := List.mem_singleton.mp hr
      exact hdb
    · obtain rfl := hsame v hver
      exact List.forall_mem_cons.mpr ⟨hdb, hall⟩

/-- **Where every key is deleted** with its version they have one version. -/
theorem oneVersion_of_deletes {st : Store} {kb : Option Kb} {ks : List Key} (hcmp : c.cmpdel = true)
    (hsent : s.sent = []) (h : Deletes st kb ks (delLoop c fuel m r s)) :
    OneVersion c.ses.ksL st ks := by
  obtain ⟨reqs, hreqs, hone⟩ := version_of_delLoop hcmp h.returns
  rw [hsent, List.nil_append] at hreqs
  have hcarries := h.carries
  rw [hreqs] at hcarries
  intro k hk
  rcases hone with rfl | ⟨v, ⟨hpos, hle⟩, hall, -⟩
  · have hlen := congrArg List.length hcarries
    rw [List.map_nil, List.length_nil, List.length_map] at hlen
    exact absurd (List.length_pos_of_mem hk) (by omega)
  · refine ⟨v, hpos, hle, fun k' hk' => ?_⟩
    have hmem : version st k' ∈ ks.map (version st) := List.mem_map_of_mem hk'
    rw [← hcarries] at hmem
    obtain ⟨req, hreq, heq⟩ := List.mem_map.mp hmem
    rw [← heq, hall req hreq]

end Version

/-! ### The keys of the range -/

section Keys
variable {lim : Klimits} {kr : Krange} {kit : Kiter} {n : ℕ} {srv : RangeServer lim}

/-- `ki_next` looks at the answer to a request for the rest of the range only. -/
theorem next_congr (h : Iterating srv kr n kit) (hr : ForwardRange lim kr)
    (hlim : 0 < lim.klRangekeycnt) (hlim' : lim.klRangekeycnt < 2 ^ 31)
    {answer : RangeReq → Resp (List Key)}
    (hans : ∀ req, req.reverse = false → 0 < req.maxreturned →
      srv.keys.filter req.selects = (kr.keys srv.keys).drop (n + 1) →
        answer req = srv.answer (n + 1) req) :
    kiNext answer lim kit = kiNext (srv.answer (n + 1)) lim kit := by
  rcases hex : exhausted kit with _ | _
  · by_cases hin : kit.kiRwin1.krKeyscnt ≤ nextKey kit
    · obtain ⟨win, hnw, ha⟩ := h.asks hr hlim hlim' (h.more hex) hin
      have hfix : fixCount lim win = win := by
        have hpos := ha.pos
        refine fixCount_of_ne ?_
        unfold kvrCountInf
        omega
      have hsame := hans (createRangekeyMessage win) (reverse_of_mask ha.flags) ha.pos ha.selects
      have hget : kiGetrange answer lim win = kiGetrange (srv.answer (n + 1)) lim win := by
        rw [kiGetrange, kiGetrange, hfix, hsame]
      simp only [kiNext, hnw, Option.map_some, hget]
    · simp only [kiNext, hin, if_false]
  · simp only [kiNext, hex, if_true]

theorem mem_keys_of_mem_listed_take {ks : List Key} {k : Key} (hk : k ∈ (kr.listed ks).take n) :
    k ∈ (kr.keys ks).take n := by
  unfold Krange.listed at hk
  split_ifs at hk
  · exact hk
  · rw [List.take_take] at hk
    exact List.take_subset_take_left _ (min_le_left _ _) hk

/-- The keys that are given are not among those that come later. -/
theorem notMem_listed_take {ks : List Key} (hnodup : ks.Nodup) {k : Key}
    (hk : k ∈ (kr.keys ks).drop n) : k ∉ (kr.listed ks).take n := by
  intro hmem
  have hkeys : (kr.keys ks).Nodup := hnodup.filter _
  exact List.disjoint_take_drop hkeys (le_refl n) (mem_keys_of_mem_listed_take hmem) hk

theorem mem_drop_of_listed {ks : List Key} {k : Key} (hk : (kr.listed ks)[n]? = some k) :
    k ∈ (kr.keys ks).drop n := by
  rw [listed_getElem?] at hk
  split_ifs at hk
  refine List.mem_iff_getElem?.mpr ⟨0, ?_⟩
  rw [List.getElem?_drop, Nat.add_zero, hk]

theorem krCount_krange (a : RangeArgs) :
    a.krange.krCount = if a.count < 0 then kvrCountInf else a.count := rfl

/-- The range of the command line. -/
theorem forwardRange {a : RangeArgs} (ha : InLimits lim a) (hlim : lim.klKeylen < 2 ^ 32)
    (h0 : a.count ≠ 0) : ForwardRange lim a.krange := by
  have hfits (k : Key) (hk : 1 ≤ k.length ∧ k.length ≤ lim.klKeylen) :
      keyFits lim [k] = true := by
    have hlen : keylen [k] = k.length := by
      have hu : uint32 (k.length : ℕ) = k.length := uint32_of_lt (by omega)
      simpa [keylen] using hu
    unfold keyFits
    rw [hlen]
    exact decide_eq_true (by omega)
  refine ⟨fun key hkey => ?_, fun key hkey => ?_, ?_, ?_, ?_⟩
  · obtain ⟨k, hk, rfl⟩ := Option.map_eq_some_iff.mp hkey
    exact hfits k (ha.start k hk)
  · obtain ⟨k, hk, rfl⟩ := Option.map_eq_some_iff.mp hkey
    exact hfits k (ha.stop k hk)
  · have hflags : ∀ starti endi : Bool, ((if starti then krfIstart else 0) |||
        (if endi then krfIend else 0)) &&& ~~~(krfIstart ||| krfIend) = 0#32 := by decide
    exact hflags a.starti a.endi
  · have hcount := ha.count
    rw [krCount_krange]
    split_ifs
    · exact .inl rfl
    · exact .inr (by omega)
  · exact (Option.some_ne_none _).symm

/-- A count of 0 lists nothing. -/
theorem listed_zero {a : RangeArgs} (h0 : a.count = 0) (ks : List Key) :
    a.krange.listed ks = [] := by
  have hcount : a.krange.krCount = 0 := by
    rw [krCount_krange, h0]
    rfl
  rw [Krange.listed, hcount, if_neg (by decide)]
  exact List.take_zero

end Keys

/-! ### The server as one that keeps its keys -/

section Fixed
variable {c : DelConf} {st : Store} {kb : Option Kb} {ks : List Key} {n : ℕ}

/-- The keys that the server has when `n` of a list are deleted. -/
def leftKeys (c : DelConf) (kb : Option Kb) (ks : List Key) (n : ℕ) : List Key :=
  if kb = none then c.keys.filter fun k => k ∉ ks.take n else c.keys

open Classical in
/-- The answers of the server, where they are answers of one that has all the keys. -/
noncomputable def fixedServer (hc : Calm c st) (kb : Option Kb) (ks : List Key) :
    RangeServer c.ses.ksL where
  keys := c.keys
  sorted := hc.sorted
  nonempty := hc.nonempty
  fits := hc.fits
  keylen_lt := hc.keylen_lt
  answer n req :=
    if req.reverse = false → 0 < req.maxreturned →
        Answers c.keys req (c.answer n (leftKeys c kb ks n) req) then
      c.answer n (leftKeys c kb ks n) req
    else firstOf c.keys n req
  answers n req hreverse hpos := by
    split_ifs with h
    · exact h hreverse hpos
    · exact firstOf_answers c.keys n req hpos

theorem answers_congr {ks' : List Key} {req : RangeReq} {resp : Resp (List Key)}
    (h : ks'.filter req.selects = ks.filter req.selects) (hans : Answers ks' req resp) :
    Answers ks req resp := by
  unfold Answers at hans ⊢
  rwa [h] at hans

theorem Calm.nodup (hc : Calm c st) : c.keys.Nodup := hc.sorted.imp fun hlt => ne_of_lt hlt

theorem fixedServer_answer (hc : Calm c st) {req : RangeReq}
    (h : (leftKeys c kb ks n).filter req.selects = c.keys.filter req.selects) :
    (fixedServer hc kb ks).answer n req = c.answer n (leftKeys c kb ks n) req :=
  if_pos fun hreverse hpos => answers_congr h (hc.answers n _ req hreverse hpos)

/-- What is deleted is not asked for again. -/
theorem leftKeys_selects (hc : Calm c st) {kr : Krange} {req : RangeReq}
    (h : c.keys.filter req.selects = (kr.keys c.keys).drop n) :
    (leftKeys c kb (kr.listed c.keys) n).filter req.selects = c.keys.filter req.selects := by
  unfold leftKeys
  split_ifs
  · rw [List.filter_comm, List.filter_eq_self]
    intro k hk
    rw [h] at hk
    exact decide_eq_true (notMem_listed_take hc.nodup hk)
  · rfl

/-- The store when `n` keys of a list are deleted. -/
def storeAt (st : Store) (kb : Option Kb) (ks : List Key) (n : ℕ) : Store :=
  fun k => if kb = none ∧ k ∈ ks.take n then none else st k

theorem currentKeys_storeAt (hc : Calm c st) (kb : Option Kb) (ks : List Key) (n : ℕ) :
    currentKeys c (storeAt st kb ks n) = leftKeys c kb ks n := by
  unfold currentKeys leftKeys storeAt
  split_ifs with hkb
  · refine List.filter_congr fun k hk => ?_
    have hsome := (hc.has k).mpr hk
    by_cases hmem : k ∈ ks.take n
    · simp [hkb, hmem]
    · simp [hkb, hmem, hsome]
  · rw [List.filter_eq_self]
    intro k hk
    simpa [hkb] using (hc.has k).mpr hk

theorem storeAt_succ {k : Key} (hk : ks[n]? = some k) :
    storeAfter kb (storeAt st kb ks n) k = storeAt st kb ks (n + 1) := by
  funext k'
  rw [storeAt, List.take_add_one, hk]
  unfold storeAfter
  by_cases hkb : kb = none
  · by_cases heq : k' = k
    · simp [hkb, heq]
    · simp [hkb, storeAt, heq]
  · simp [hkb, storeAt]

end Fixed

/-! ### The run -/

/-- **Between two keys** of a range whose keys have the version `v`: `n` of them are deleted. -/
structure Running {c : DelConf} {st : Store} (hc : Calm c st) (kb : Option Kb) (kr : Krange)
    (v : List Byte) (n : ℕ) (r : Kiter × Option ℕ) (s : DelState) : Prop where
  returns : Returns (fixedServer hc kb (kr.listed c.keys)) kr n r
  between : Between c.ses.ksL v s.kv
  batch : s.kb = kb.map (batchAfter c · n)
  store : s.store = storeAt st kb (kr.listed c.keys) n
  all : s.sent.map (fun req => req.cmd.body.key) = ((kr.listed c.keys).take n).map some
  carries : s.sent.map (fun req => req.cmd.body.dbversion) =
    ((kr.listed c.keys).take n).map (version st)

section Run
variable {c : DelConf} {st : Store} {hc : Calm c st} {kb : Option Kb} {kr : Krange} {v : List Byte}
  {n fuel : ℕ} {r : Kiter × Option ℕ} {s : DelState}

/-- The key that comes next is in the store as it was. -/
theorem Running.stored (h : Running hc kb kr v n r s) {k : Key}
    (hk : (kr.listed c.keys)[n]? = some k) : k ∈ c.keys ∧ s.store k = st k := by
  have hdrop := mem_drop_of_listed hk
  have hnew : k ∉ (kr.listed c.keys).take n := notMem_listed_take hc.nodup hdrop
  refine ⟨List.mem_of_mem_filter (List.mem_of_mem_drop hdrop), ?_⟩
  rw [h.store, storeAt, if_neg fun h => hnew h.2]

theorem kbBid_batchAfter (b : Kb) (m : ℕ) : (batchAfter c b m).kbBid = b.kbBid := by
  induction m with
  | zero => rfl
  | succ m ih => exact ih

/-- The batch takes one more. -/
theorem Running.fits (h : Running hc kb kr v n r s)
    (hroom : ∀ b ∈ kb, Room c (kr.listed c.keys).length b) (hn : n < (kr.listed c.keys).length) :
    ∀ b ∈ s.kb, kfirstbid ≤ b.kbBid ∧ n < c.ses.ksL.klBatdelcnt ∧
      delFits c.ses.ksL (countDel b (msglen (c.delTurn n))) = true := by
  intro b hb
  rw [h.batch] at hb
  obtain ⟨b₀, hb₀, rfl⟩ := Option.map_eq_some_iff.mp hb
  have hroom₀ := hroom b₀ hb₀
  exact ⟨(kbBid_batchAfter b₀ n).symm ▸ hroom₀.bid, hn.trans_le hroom₀.count, hroom₀.fits n hn⟩

/-- **The iterator goes on** as on a server that keeps its keys. -/
theorem Running.iterates {kit : Kiter} {i : ℕ} (h : Running hc kb kr v n (kit, some i) s)
    (hr : ForwardRange c.ses.ksL kr) (hlim : 1 ≤ c.ses.ksL.klRangekeycnt)
    (hlim' : c.ses.ksL.klRangekeycnt < 2 ^ 31) :
    ∃ r', kiNext (c.answer (n + 1) (currentKeys c (storeAt st kb (kr.listed c.keys) (n + 1))))
        c.ses.ksL kit = some r' ∧
      Returns (fixedServer hc kb (kr.listed c.keys)) kr (n + 1) r' := by
  have hiter : Iterating (fixedServer hc kb (kr.listed c.keys)) kr n kit :=
    h.returns.iterating (Option.some_ne_none i)
  obtain ⟨r', hnext, hreturns⟩ := hiter.next_returns hr hlim hlim'
  refine ⟨r', ?_, hreturns⟩
  rw [← hnext, currentKeys_storeAt hc]
  exact next_congr hiter hr hlim hlim' fun req _ _ hsel =>
    (fixedServer_answer hc (leftKeys_selects hc hsel)).symm

/-- **The next key.** -/
theorem Running.next (h : Running hc kb kr v n r s) (hcmp : c.cmpdel = true)
    (hr : ForwardRange c.ses.ksL kr) (hlim : 1 ≤ c.ses.ksL.klRangekeycnt)
    (hlim' : c.ses.ksL.klRangekeycnt < 2 ^ 31)
    (hroom : ∀ b ∈ kb, Room c (kr.listed c.keys).length b)
    (hver : ∀ k ∈ kr.listed c.keys,
      version st k = some v ∧ 1 ≤ v.length ∧ v.length ≤ c.ses.ksL.klVerlen)
    (hn : n < (kr.listed c.keys).length) :
    ∃ r' s', delLoop c (fuel + 1) n r s = delLoop c fuel (n + 1) r' s' ∧
      Running hc kb kr v (n + 1) r' s' := by
  obtain ⟨kit, ret⟩ := r
  obtain ⟨k, hk⟩ : ∃ k, (kr.listed c.keys)[n]? = some k := ⟨_, List.getElem?_eq_getElem hn⟩
  have hret : ret.map kit.keyAt = some (some k) := by
    have hreturned := h.returns.ret
    have hkeys : (fixedServer hc kb (kr.listed c.keys)).keys = c.keys := rfl
    rwa [hkeys, hk] at hreturned
  obtain ⟨i, rfl, hat⟩ := Option.map_eq_some_iff.mp hret
  -- the key is in the store, with the version
  obtain ⟨hversion, hlen⟩ := hver k (List.mem_of_getElem? hk)
  obtain ⟨hck, hstored⟩ := h.stored hk
  obtain ⟨e, he⟩ := Option.isSome_iff_exists.mp ((hc.has k).mpr hck)
  have hentry : e.version = some v := by
    rwa [version, he, Option.bind_some] at hversion
  obtain ⟨req, kv', hround, hbetween, hreq, hdb⟩ := delRound_ok hcmp (hc.fits k hck) h.between
    (hstored.trans he) (hc.tagged k e he) hentry hlen (hc.getServes n) (hc.delServes n)
    (h.fits hroom hn)
  have hafter : storeAfter s.kb s.store k = storeAt st kb (kr.listed c.keys) (n + 1) := by
    have hkbnone : s.kb = none ↔ kb = none := by rw [h.batch, Option.map_eq_none_iff]
    rw [h.store, ← storeAt_succ hk]
    simp only [storeAfter, hkbnone]
  obtain ⟨r', hnext, hreturns⟩ := h.iterates hr hlim hlim'
  refine ⟨r', ⟨kv', s.kb.map (countDel · (msglen (c.delTurn n))), storeAfter s.kb s.store k,
    s.sent ++ [req]⟩, ?_, hreturns, hbetween, ?_, hafter, ?_, ?_⟩
  · simp only [delLoop, hat, hround, hafter, hnext]
  · rw [h.batch, Option.map_map]
    rfl
  · rw [List.map_append, h.all, List.take_add_one, hk, List.map_append, List.map_singleton, hreq]
    rfl
  · rw [List.map_append, h.carries, List.take_add_one, hk, List.map_append, List.map_singleton, hdb,
      Option.toList_some, List.map_singleton, hversion]

/-- **When the keys are deleted** the loop ends. -/
theorem Running.done (h : Running hc kb kr v (kr.listed c.keys).length r s) :
    Deletes st kb (kr.listed c.keys) (delLoop c (fuel + 1) (kr.listed c.keys).length r s) := by
  obtain ⟨kit, ret⟩ := r
  have hnone : ret = none := by
    have hreturned := h.returns.ret
    have hkeys : (fixedServer hc kb (kr.listed c.keys)).keys = c.keys := rfl
    rw [hkeys, List.getElem?_eq_none (le_refl _)] at hreturned
    exact Option.map_eq_none_iff.mp hreturned
  subst hnone
  have hall := h.all
  have hcarries := h.carries
  rw [List.take_length] at hall hcarries
  refine ⟨rfl, hall, hcarries, fun hkb k => ?_⟩
  have hstore : s.store k = storeAt st kb (kr.listed c.keys) (kr.listed c.keys).length k := by
    rw [h.store]
  rw [storeAt, List.take_length] at hstore
  simpa [hkb, delLoop] using hstore

/-- **Where the keys have one version** all of them are deleted. -/
theorem Running.deletes (h : Running hc kb kr v n r s) (hcmp : c.cmpdel = true)
    (hr : ForwardRange c.ses.ksL kr) (hlim : 1 ≤ c.ses.ksL.klRangekeycnt)
    (hlim' : c.ses.ksL.klRangekeycnt < 2 ^ 31)
    (hroom : ∀ b ∈ kb, Room c (kr.listed c.keys).length b)
    (hver : ∀ k ∈ kr.listed c.keys,
      version st k = some v ∧ 1 ≤ v.length ∧ v.length ≤ c.ses.ksL.klVerlen)
    (hn : n ≤ (kr.listed c.keys).length) (hfuel : (kr.listed c.keys).length < n + fuel) :
    Deletes st kb (kr.listed c.keys) (delLoop c fuel n r s) := by
  induction fuel generalizing n r s with
  | zero => omega
  | succ fuel ih =>
    rcases hn.eq_or_lt with rfl | hlt
    · exact h.done
    · obtain ⟨r', s', hloop, hnext⟩ := h.next hcmp hr hlim hlim' hroom hver hlt
      rw [hloop]
      exact ih hnext hlt (by omega)

end Run

/-! ### The command -/

section Command
variable {c : DelConf} {st : Store} {kb : Option Kb} {a : RangeArgs} {cpolicy : Kcachepolicy}
  {fuel : ℕ} {v : List Byte}

theorem between_delKv (lim : Klimits) (v : List Byte) (hcp : ∀ z, cpolicy ≠ .other z) :
    Between lim v (delKv cpolicy) where
  key := ⟨none, rfl⟩
  val := rfl
  ver := .inl rfl
  metadata := ⟨rfl, rfl, rfl, nofun, fun z hz => absurd hz (hcp z)⟩

/-- **The first key.** -/
theorem running_start (hc : Calm c st) (ha : InLimits c.ses.ksL a) (h0 : a.count ≠ 0)
    (hcp : ∀ z, cpolicy ≠ .other z) (hlim : 1 ≤ c.ses.ksL.klRangekeycnt)
    (hlim' : c.ses.ksL.klRangekeycnt < 2 ^ 31) (v : List Byte) :
    Running hc kb a.krange v 0
      (kiStart (c.answer 0 (currentKeys c st)) c.ses.ksL
        { kiMaxkeyreq := c.ses.ksL.klRangekeycnt } a.krange)
      { kv := delKv cpolicy, kb, store := st, sent := [] } := by
  have hstore : storeAt st kb (a.krange.listed c.keys) 0 = st := by
    funext k
    simp [storeAt]
  have hleft : leftKeys c kb (a.krange.listed c.keys) 0 = c.keys := by
    simp [leftKeys]
  have hcurrent : currentKeys c st = leftKeys c kb (a.krange.listed c.keys) 0 := by
    have hkeys := currentKeys_storeAt hc kb (a.krange.listed c.keys) 0
    rwa [hstore] at hkeys
  have hanswer : c.answer 0 (currentKeys c st) =
      (fixedServer hc kb (a.krange.listed c.keys)).answer 0 := by
    funext req
    rw [hcurrent]
    exact (fixedServer_answer hc (by rw [hleft])).symm
  refine ⟨?_, between_delKv _ v hcp, ?_, hstore.symm, rfl, rfl⟩
  · rw [hanswer]
    exact start_returns (forwardRange ha hc.keylen_lt h0) rfl hlim hlim'
  · rcases kb with _ | b
    · rfl
    · rfl

/-- A count of 0 deletes nothing. -/
theorem deletes_zero (h0 : a.count = 0) (hfuel : 0 < fuel) :
    Deletes st kb (a.krange.listed c.keys) (kctlDel c fuel a cpolicy st kb) := by
  obtain ⟨fuel, rfl⟩ : ∃ f, fuel = f + 1 := ⟨fuel - 1, by omega⟩
  have hcount : a.krange.krCount = 0 := by
    rw [krCount_krange, h0]
    rfl
  have hstart : ∀ answer kit, kiStart answer c.ses.ksL kit a.krange = (kit, none) := by
    intro answer kit
    simp [kiStart, startWindow, hcount]
  rw [listed_zero h0, kctlDel, hstart]
  exact ⟨rfl, rfl, rfl, fun _ k => by simp [delLoop]⟩

/-- **Deleting a range with `-c`** deletes its keys, each with the version that the server has for
it, exactly if they have one version. -/
theorem kctlDel_iff (hc : Calm c st) (hcmp : c.cmpdel = true) (ha : InLimits c.ses.ksL a)
    (hcp : ∀ z, cpolicy ≠ .other z) (hlim : 1 ≤ c.ses.ksL.klRangekeycnt)
    (hlim' : c.ses.ksL.klRangekeycnt < 2 ^ 31)
    (hroom : ∀ b ∈ kb, Room c (a.krange.listed c.keys).length b)
    (hfuel : (a.krange.listed c.keys).length < fuel) :
    Deletes st kb (a.krange.listed c.keys) (kctlDel c fuel a cpolicy st kb) ↔
      OneVersion c.ses.ksL st (a.krange.listed c.keys) := by
  constructor
  · exact oneVersion_of_deletes hcmp rfl
  · intro hone
    by_cases h0 : a.count = 0
    · exact deletes_zero h0 (by omega)
    obtain ⟨v, hver⟩ : ∃ v : List Byte, ∀ k ∈ a.krange.listed c.keys,
        version st k = some v ∧ 1 ≤ v.length ∧ v.length ≤ c.ses.ksL.klVerlen := by
      rcases hks : a.krange.listed c.keys with _ | ⟨k₀, ks⟩
      · exact ⟨[], by simp⟩
      · rw [hks] at hone
        obtain ⟨v, hpos, hle, hall⟩ := hone k₀ List.mem_cons_self
        exact ⟨v, fun k hk => ⟨hall k hk, hpos, hle⟩⟩
    exact (running_start hc ha h0 hcp hlim hlim' v).deletes hcmp
      (forwardRange ha hc.keylen_lt h0) hlim hlim' hroom hver (Nat.zero_le _) (by omega)

end Command

/-! ### Two keys -/

/-- A call that is answered, with the version. -/
def tellingTurn : Turn := (telling { version := true }).turn 0

/-- The keys `[1]` and `[2]`. -/
def twoKeysConf : DelConf where
  ses := { ksL := smallLimits }
  cmpdel := true
  getTurn _ := tellingTurn
  delTurn _ := tellingTurn
  keys := [[1], [2]]
  answer n ks req := firstOf ks n req

/-- The first with the version 7, and the second with the version `b`. -/
def twoKeysStore (b : Byte) : Store := fun k =>
  if k = [1] then some { version := some [7], tag := some [] }
  else if k = [2] then some { version := some [b], tag := some [] }
  else none

theorem twoKeys_calm (b : Byte) : Calm twoKeysConf (twoKeysStore b) where
  sorted := by decide
  nonempty := by decide
  fits := by decide
  keylen_lt := by decide
  has k := by
    unfold twoKeysStore
    by_cases h1 : k = [1]
    · simp [h1, twoKeysConf]
    · by_cases h2 : k = [2]
      · simp [h2, twoKeysConf]
      · simp [h1, h2, twoKeysConf]
  tagged k e he := by
    have hempty : unpackedBytes [] = none := rfl
    unfold twoKeysStore at he
    split_ifs at he
    · obtain rfl := Option.some.inj he
      exact ⟨Nat.zero_le _, [], rfl, rfl, by simp [hempty]⟩
    · obtain rfl := Option.some.inj he
      exact ⟨Nat.zero_le _, [], rfl, rfl, by simp [hempty]⟩
  answers n ks req _ hpos := firstOf_answers ks n req hpos
  getServes _ := ⟨⟨rfl, rfl⟩, rfl⟩
  delServes _ := ⟨rfl, rfl⟩

/-- From `[1]` on, with the key. -/
def fromFirst : RangeArgs := { start := some [1], starti := true }

theorem fromFirst_deletes :
    Deletes (twoKeysStore 7) none (fromFirst.krange.listed twoKeysConf.keys)
        (kctlDel twoKeysConf 3 fromFirst .kcWb (twoKeysStore 7) none) ↔
      OneVersion twoKeysConf.ses.ksL (twoKeysStore 7)
        (fromFirst.krange.listed twoKeysConf.keys) :=
  kctlDel_iff (twoKeys_calm 7) rfl ⟨by decide, by decide, by decide⟩ nofun (by decide)
    (by decide) (by simp) (by decide)

/-- **The second key** is to be deleted with the version of the first, and is not. -/
theorem second_key_not_deleted :
    let r := kctlDel twoKeysConf 3 fromFirst .kcWb (twoKeysStore 8) none
    fromFirst.krange.listed twoKeysConf.keys = [[1], [2]] ∧ r.rc = some (-1) ∧
      r.sent.map (fun req => (req.cmd.body.key, req.cmd.body.dbversion)) =
        [(some [1], some [7]), (some [2], some [7])] ∧
      version (twoKeysStore 8) [2] = some [8] ∧ (r.store [2]).isSome ∧
      ¬ Deletes (twoKeysStore 8) none (fromFirst.krange.listed twoKeysConf.keys) r := by
  have hrc : (kctlDel twoKeysConf 3 fromFirst .kcWb (twoKeysStore 8) none).rc = some (-1) := by
    decide +kernel
  refine ⟨by decide +kernel, hrc, by decide +kernel, rfl, by decide +kernel, fun h => ?_⟩
  have hreturns := h.returns
  rw [hrc] at hreturns
  cases hreturns

end Libkinetic.Toolbox.Delrange
