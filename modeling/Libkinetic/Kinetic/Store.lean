import Libkinetic.Kinetic.Get
import Libkinetic.Kinetic.Stat

/-! # Calls to a server that keeps a map

The synchronous put, delete and get of a key, outside of a batch, against a server that keeps a map
from keys to values with their metadata. What the server does with a request is part of a `Turn`,
which is all that the environment decides about one call: if the request goes out, how often the
response is not there yet, if the server fails, and what its response says beside what it must. The
response to a put never names the key. -/

namespace Libkinetic.Kinetic

/-! ### The server -/

/-- What a key is stored with. -/
structure Entry where
  value : List Byte := []
  version : Option (List Byte) := none
  tag : Option (List Byte) := none
  algorithm : Option Kditype := none
deriving DecidableEq

abbrev Store := Key → Option Entry

/-- What a put stores. -/
def putEntry (r : KvReq) : Entry where
  value := (r.val.map Valbuf.bytes).flatten
  version := r.cmd.body.newversion
  tag := r.cmd.body.tag
  algorithm := r.cmd.body.algorithm

/-- What a response says about the entry that a get or a delete has found. -/
structure Tells where
  key : Bool := false
  version : Bool := false
  /-- The tag and its algorithm. -/
  tag : Bool := false
deriving DecidableEq

def Tells.response (t : Tells) (key : Key) (entry : Entry) : KprotoKv where
  key := if t.key then some key else none
  dbversion := if t.version then entry.version else none
  tag := if t.tag then entry.tag else none
  algorithm := if t.tag then entry.algorithm else none

def accepted (response : KprotoKv) : RespMsg KprotoKv := .cmd ⟨some .kOk, some response⟩

def refused (krc : KStatus) : RespMsg KprotoKv := .cmd ⟨some krc, none⟩

/-- A response that a call can take for a success. -/
def Completion.accepts : Completion KprotoKv → Bool
  | .resp (.msg (.cmd c)) => decide (extractCmdstatusCode c = .kOk) && c.body.isSome
  | _ => false

/-- A request that is not answered as it should be: something else comes in, and the server may have
done what was asked for. -/
structure Fault where
  applied : Bool := false
  completion : Completion KprotoKv
  val : Option (List Byte) := none
  refuses : completion.accepts = false

/-- **What the environment decides about a call.** -/
structure Turn where
  env : IssueEnv
  /-- The completions that find no response yet. -/
  early : ℕ := 0
  fault : Option Fault := none
  /-- What the response to a put says. -/
  putResp : { response : KprotoKv // response.key = none } := ⟨{}, rfl⟩
  /-- What the response to a get or a delete says. -/
  tells : Tells := {}
  /-- A delete of a key that is not there succeeds. -/
  forgiving : Bool := false

namespace Turn

/-- The request goes out and is answered. -/
def Serves (t : Turn) : Prop := t.env.goesOut = true ∧ t.fault = none

/-- The server stores a value. -/
def servePut (t : Turn) (st : Store) (r : KvReq) : Store × RespMsg KprotoKv :=
  match r.cmd.body.key with
  | none => (st, refused .kEinval)
  | some key => (Function.update st key (some (putEntry r)), accepted t.putResp)

/-- The server deletes a key. -/
def serveDel (t : Turn) (st : Store) (r : KvReq) : Store × RespMsg KprotoKv :=
  match r.cmd.body.key with
  | none => (st, refused .kEinval)
  | some key =>
    match st key with
    | some entry => (Function.update st key none, accepted (t.tells.response key entry))
    | none =>
      if t.forgiving then (st, accepted (t.tells.response key {})) else (st, refused .kEnotfound)

/-- What comes in for a request that the server answers with `m`. -/
def completion (t : Turn) (m : RespMsg KprotoKv) : Completion KprotoKv :=
  match t.fault with
  | none => .resp (.msg m)
  | some f => f.completion

/-- What becomes of the store and what comes in for a put or a delete, from what the server does. -/
def serve (t : Turn) (st : Store) (s : Store × RespMsg KprotoKv) :
    Store × List (Answer KprotoKv) :=
  (if t.fault.all Fault.applied then s.1 else st,
    List.replicate t.early { completion := .notYet } ++ [{ completion := t.completion s.2 }])

/-- What comes in for a get. -/
def serveGet (t : Turn) (st : Store) (r : Request KprotoKv) : List GetAnswer :=
  let (m, val) : RespMsg KprotoKv × Option (List Byte) :=
    match r.body.key with
    | none => (refused .kEinval, none)
    | some key =>
      match st key with
      | none => (refused .kEnotfound, none)
      | some entry => (accepted (t.tells.response key entry), some entry.value)
  List.replicate t.early { completion := .notYet } ++
    [{ completion := t.completion m
       val := match t.fault with
         | none => val
         | some f => f.val }]

end Turn

/-! ### The calls -/

/-- What a call returns, unless it still waits, and what it leaves in the structure of the caller
and in the store. -/
structure KvOutcome where
  krc : Option KStatus
  kv : Kv
  store : Store

/-- Completing until the result is another one than `K_EAGAIN`. -/
def kvWait (complete : Answer KprotoKv → Kv → Done Kv) :
    List (Answer KprotoKv) → Kv → Option KStatus × Kv
  | [], kv => (none, kv)
  | a :: as, kv =>
    let d := complete a kv
    if d.krc = .kEagain then kvWait complete as d.caller else (some d.krc, d.caller)

/-- What `p_put_generic` and `d_del_generic` do: the request is issued, and completed if it was
sent. -/
def kvCall (i : KvIssue) (complete : Answer KprotoKv → Kv → Done Kv)
    (serve : KvReq → Store × List (Answer KprotoKv)) (st : Store) (kv : Kv) : KvOutcome :=
  match i.req with
  | none => { krc := some i.krc, kv, store := st }
  | some req =>
    let (store, answers) := serve req
    let (krc, kv) := kvWait complete answers kv
    { krc, kv, store }

section Calls
variable (t : Turn) (ses : Ksession) (st : Store) (kv : Kv)

/-- **`ki_put`**, outside of a batch; it does not check the version. -/
def kiPut : KvOutcome :=
  let i := pPutAioGeneric t.env ses kv none false
  kvCall i (fun a kv => pPutAioComplete a ses (IssueDone.ofKv t.env i).sendlen kv none)
    (fun r => t.serve st (t.servePut st r)) st kv

/-- **`ki_del`**, likewise. -/
def kiDel : KvOutcome :=
  let i := dDelAioGeneric t.env ses kv none false
  kvCall i (fun a kv => dDelAioComplete a ses (IssueDone.ofKv t.env i).sendlen kv none)
    (fun r => t.serve st (t.serveDel st r)) st kv

/-- `ki_get` from this server. -/
def kiGetFrom : GetOutcome := kiGet t.env ses (t.serveGet st) kv

end Calls

/-! ### Puts and deletes that succeed -/

section Waiting
variable {t : Turn} {ses : Ksession} {st : Store} {kv : Kv} {kop : Kop} {sl : ℕ} {i : KvIssue}
  {serve : KvReq → Store × RespMsg KprotoKv} {req : KvReq} {response : KprotoKv}

/-- The call of a put or a delete against a turn. -/
def turnCall (t : Turn) (kop : Kop) (ses : Ksession) (sl : ℕ) (i : KvIssue)
    (serve : KvReq → Store × RespMsg KprotoKv) (st : Store) (kv : Kv) : KvOutcome :=
  kvCall i (fun a kv => kvAioComplete kop extractEcho a ses sl kv none)
    (fun r => t.serve st (serve r)) st kv

theorem kvWait_late {complete : Answer KprotoKv → Kv → Done Kv}
    (h : ∀ kv, complete { completion := .notYet } kv = { krc := .kEagain, caller := kv })
    (n : ℕ) (a : Answer KprotoKv) (kv : Kv) :
    kvWait complete (List.replicate n { completion := .notYet } ++ [a]) kv =
      kvWait complete [a] kv := by
  induction n with
  | zero => rfl
  | succ n ih => simpa [List.replicate_succ, kvWait, h] using ih

/-- A completion succeeds with an accepted response only. -/
theorem kvAioComplete_ok {a : Answer KprotoKv}
    (h : (kvAioComplete kop extractEcho a ses sl kv none).krc = .kOk) :
    ∃ c response, a.completion = .resp (.msg (.cmd c)) ∧ extractCmdstatusCode c = .kOk ∧
      c.body = some response ∧
      (kvAioComplete kop extractEcho a ses sl kv none).caller = echoKv response kv := by
  obtain ⟨completion, msglen, val⟩ := a
  unfold kvAioComplete at h ⊢
  rcases completion with _ | _ | (_ | _ | _ | _ | _ | m)
  case resp.msg =>
    rcases m with _ | _ | c
    · simp [aioDone, readResponse, extractEcho] at h
    · simp [aioDone, readResponse, extractEcho] at h
    · by_cases hc : extractCmdstatusCode c = .kOk
      · rcases hb : c.body with _ | response
        · simp [aioDone, readResponse, extractEcho, hc, hb] at h
        · exact ⟨c, response, rfl, hc, hb, by simp [aioDone, readResponse, extractEcho, hc, hb]⟩
      · simp [aioDone, readResponse, extractEcho, hc] at h
  all_goals simp [aioDone, readResponse] at h

theorem Turn.completion_ok {m : RespMsg KprotoKv} {c : RespCmd KprotoKv}
    (h : t.completion m = .resp (.msg (.cmd c))) (hc : extractCmdstatusCode c = .kOk)
    (hb : c.body = some response) : t.fault = none ∧ m = .cmd c := by
  unfold Turn.completion at h
  split at h
  · cases h
    exact ⟨‹_›, rfl⟩
  · rename_i f _
    have hf := f.refuses
    simp [h, Completion.accepts, hc, hb] at hf

/-- **A put or a delete that succeeds** was sent, and the server has accepted it. -/
theorem turnCall_ok (hreq : i.req = none → i.krc ≠ .kOk)
    (h : (turnCall t kop ses sl i serve st kv).krc = some .kOk) :
    ∃ req c response, i.req = some req ∧ (serve req).2 = .cmd c ∧
      extractCmdstatusCode c = .kOk ∧ c.body = some response ∧
      (turnCall t kop ses sl i serve st kv).kv = echoKv response kv ∧
      (turnCall t kop ses sl i serve st kv).store = (serve req).1 := by
  unfold turnCall kvCall at h ⊢
  rcases hi : i.req with _ | req
  · rw [hi] at h
    exact absurd (Option.some.inj h) (hreq hi)
  · rw [hi] at h
    dsimp only [Turn.serve] at h ⊢
    rw [kvWait_late (fun _ => rfl)] at h ⊢
    dsimp only [kvWait] at h ⊢
    by_cases hagain : (kvAioComplete kop extractEcho { completion := t.completion (serve req).2 }
        ses sl kv none).krc = .kEagain
    · rw [if_pos hagain] at h
      cases h
    rw [if_neg hagain] at h ⊢
    obtain ⟨c, response, ha, hc, hb, hcaller⟩ := kvAioComplete_ok (Option.some.inj h)
    obtain ⟨hf, hm⟩ := Turn.completion_ok ha hc hb
    exact ⟨req, c, response, rfl, hm, hc, hb, hcaller, by simp [hf]⟩

/-- A request that is sent and accepted makes the call succeed. -/
theorem turnCall_served (hi : i.req = some req) (hf : t.fault = none)
    (hm : (serve req).2 = accepted response) :
    turnCall t kop ses sl i serve st kv =
      { krc := some .kOk, kv := echoKv response kv, store := (serve req).1 } := by
  unfold turnCall kvCall
  rw [hi]
  dsimp only [Turn.serve]
  rw [kvWait_late (fun _ => rfl)]
  simp [kvWait, kvAioComplete, aioDone, readResponse, extractEcho, Turn.completion, hf, hm,
    accepted, extractCmdstatusCode]

end Waiting

/-! ### What a request carries -/

section Requests
variable {t : Turn} {ses : Ksession} {st : Store} {kv : Kv} {e : IssueEnv} {msgType : Kmtype}
  {create : MsgEnv → Kcmdhdr → Kv → Bool → Option (Request KprotoKv)} {cmd : Request KprotoKv}

theorem kvMessage_ok {len : ℕ} {kb : Option Kb} {verck : Bool}
    (h : kvMessage create msgType e ses kv kb verck = .ok (cmd, len)) :
    kiValidateKv kv verck true ses.ksL = true ∧
      create e.message (kvHdr ses kb msgType) kv (!verck) = some cmd := by
  unfold kvMessage at h
  split_ifs at h with hconfig hvalid hkb
  split at h
  · cases h
  · rename_i req hb
    cases h
    exact ⟨by simpa using hvalid, buildKio_ok hb⟩

theorem kvMessage_sent {kb : Option Kb} {verck : Bool} (he : e.goesOut = true)
    (hv : kiValidateKv kv verck true ses.ksL = true)
    (hkb : ∀ b ∈ kb, kiValidateKb b .kmtPut = true)
    (hc : create e.message (kvHdr ses kb msgType) kv (!verck) = some cmd) :
    kvMessage create msgType e ses kv kb verck = .ok (cmd, uint32 (e.pack.getD 0)) := by
  simp only [IssueEnv.goesOut, Bool.and_eq_true, Option.isSome_iff_exists] at he
  obtain ⟨⟨⟨⟨⟨⟨⟨⟨hconfig, hkio⟩, -⟩, -⟩, -⟩, hsendmsg⟩, hpdu⟩, msglen, hpack⟩, -⟩ := he
  have hall : (kb.all fun b => kiValidateKb b .kmtPut) = true := by
    rw [Option.all_eq_true]
    exact hkb
  simp [kvMessage, buildKio, hconfig, hv, hall, hkio, hc, hsendmsg, hpdu, hpack]

/-- What a put of the structure stores. -/
def kvEntry (kv : Kv) : Entry where
  value := ((kv.kvVal.getD []).map Valbuf.bytes).flatten
  version :=
    if kv.kvNewver.isSome || kv.kvVer.isSome then setBytesOptional kv.kvNewver else none
  tag := setBytesOptional kv.kvDisum
  algorithm := kv.kvDitype

theorem createPutMessage_some {m : MsgEnv} {hdr : Kcmdhdr}
    (h : createPutMessage m hdr kv true = some cmd) :
    ∃ key, kv.kvKey = some key ∧ cmd.body.key = some (keyBytes key) ∧
      putEntry { cmd, val := kv.kvVal.getD [] } = kvEntry kv := by
  unfold createPutMessage at h
  rcases hk : kv.kvKey with _ | key
  · simp [hk, keynameToProto] at h
  · rcases m with ⟨_ | _, _ | _, _ | _⟩ <;>
      simp only [hk, keynameToProto, createMessage, Option.map_some, if_true, if_false,
        Bool.false_eq_true, not_false_eq_true, not_true_eq_false, reduceCtorEq] at h
    cases h
    exact ⟨key, rfl, rfl, rfl⟩

/-- A put that is not sent does not return `K_OK`. -/
theorem pPutAioGeneric_unsent {kb : Option Kb} {verck : Bool}
    (h : (pPutAioGeneric e ses kv kb verck).req = none) :
    (pPutAioGeneric e ses kv kb verck).krc ≠ .kOk := by
  unfold pPutAioGeneric at h ⊢
  rcases hm : putMessage e ses kv kb verck with ⟨krc, events⟩ | ⟨cmd, len⟩
  · exact kvMessage_ne_ok hm
  · rw [hm] at h
    dsimp only at h ⊢
    split_ifs at h ⊢ <;> simp

/-- Nor does a delete. -/
theorem dDelAioGeneric_unsent {kb : Option Kb} {verck : Bool}
    (h : (dDelAioGeneric e ses kv kb verck).req = none) :
    (dDelAioGeneric e ses kv kb verck).krc ≠ .kOk := by
  unfold dDelAioGeneric at h ⊢
  rcases hm : delMessage e ses kv kb verck with ⟨krc, events⟩ | ⟨cmd, len⟩
  · exact kvMessage_ne_ok hm
  · rw [hm] at h
    dsimp only at h ⊢
    split_ifs at h ⊢ <;> simp

/-- **A put that succeeds** was valid, and has stored what `kvEntry` says. -/
theorem kiPut_ok (h : (kiPut t ses st kv).krc = some .kOk) :
    ∃ key, kv.kvKey = some key ∧ kiValidateKv kv false true ses.ksL = true ∧
      (kiPut t ses st kv).kv = echoKv t.putResp kv ∧
      (kiPut t ses st kv).store = Function.update st (keyBytes key) (some (kvEntry kv)) := by
  obtain ⟨req, c, response, hi, hs, hc, hb, hkv, hst⟩ := turnCall_ok pPutAioGeneric_unsent h
  obtain ⟨cmd, len, hm, rfl⟩ : ∃ cmd len, putMessage t.env ses kv none false = .ok (cmd, len) ∧
      req = { cmd, val := kv.kvVal.getD [] } := by
    unfold pPutAioGeneric at hi
    rcases hm : putMessage t.env ses kv none false with ⟨krc, events⟩ | ⟨cmd, len⟩
    · simp [hm] at hi
    · rw [hm] at hi
      dsimp only at hi
      split_ifs at hi
      exact ⟨cmd, len, rfl, (Option.some.inj hi).symm⟩
  obtain ⟨hvalid, hcreate⟩ := kvMessage_ok hm
  obtain ⟨key, hkey, hcmd, hentry⟩ := createPutMessage_some hcreate
  simp only [Turn.servePut, hcmd] at hs hst
  have hresp : response = t.putResp := by
    rw [accepted] at hs
    cases hs
    exact (Option.some.inj hb).symm
  exact ⟨key, hkey, hvalid, hresp ▸ hkv, by rw [← hentry]; exact hst⟩

theorem createDelkeyMessage_some {m : MsgEnv} {hdr : Kcmdhdr} {key : List (Option Key)}
    {force : Bool} (hk : kv.kvKey = some key)
    (h : createDelkeyMessage m hdr kv force = some cmd) :
    cmd.body.key = if m.key then some (keyBytes key) else none := by
  unfold createDelkeyMessage at h
  rcases m with ⟨mk, _ | _, _ | _⟩ <;>
    simp only [hk, keynameToProto, createMessage, Option.map_some, Bool.false_eq_true,
      not_false_eq_true, not_true_eq_false, if_true, if_false, reduceCtorEq] at h
  cases h
  rfl

theorem dDelAioGeneric_some {req : KvReq} {kb : Option Kb} {verck : Bool}
    (h : (dDelAioGeneric e ses kv kb verck).req = some req) :
    ∃ len, delMessage e ses kv kb verck = .ok (req.cmd, len) := by
  unfold dDelAioGeneric at h
  rcases hm : delMessage e ses kv kb verck with ⟨krc, events⟩ | ⟨cmd, len⟩
  · simp [hm] at h
  · rw [hm] at h
    dsimp only at h
    split_ifs at h
    exact ⟨len, by rw [← Option.some.inj h]⟩

/-- The entry that the server deletes, an empty one if there is none. -/
def oldEntry (st : Store) (key : Key) : Entry := (st key).getD {}

/-- **A delete that succeeds** has removed the key of the structure. -/
theorem kiDel_ok (h : (kiDel t ses st kv).krc = some .kOk) :
    ∃ key, kv.kvKey = some key ∧ kiValidateKv kv false true ses.ksL = true ∧
      (kiDel t ses st kv).kv =
        echoKv (t.tells.response (keyBytes key) (oldEntry st (keyBytes key))) kv ∧
      (kiDel t ses st kv).store = Function.update st (keyBytes key) none := by
  obtain ⟨req, c, response, hi, hs, hc, hb, hkv, hst⟩ := turnCall_ok dDelAioGeneric_unsent h
  obtain ⟨len, hm⟩ := dDelAioGeneric_some hi
  obtain ⟨hvalid, hcreate⟩ := kvMessage_ok hm
  obtain ⟨key, hkey⟩ := kvKey_of_valid hvalid
  have hcmd := createDelkeyMessage_some hkey hcreate
  refine ⟨key, hkey, hvalid, ?_⟩
  -- without a key the server refuses
  have hcmd : req.cmd.body.key = some (keyBytes key) := by
    by_cases hmk : t.env.message.key = true
    · rwa [if_pos hmk] at hcmd
    · rw [if_neg hmk] at hcmd
      simp only [Turn.serveDel, hcmd, refused] at hs
      cases hs
      simp at hb
  simp only [Turn.serveDel, hcmd] at hs hst
  rcases hold : st (keyBytes key) with _ | entry
  · simp only [hold] at hs hst
    have hupd : Function.update st (keyBytes key) none = st := by
      rw [← hold]
      exact Function.update_eq_self _ _
    by_cases hf : t.forgiving = true
    · rw [if_pos hf] at hs hst
      cases hs
      rw [← Option.some.inj hb] at hkv
      exact ⟨by rw [oldEntry, hold]; exact hkv, by rw [hupd]; exact hst⟩
    · rw [if_neg hf, refused] at hs
      cases hs
      simp at hb
  · simp only [hold] at hs hst
    cases hs
    rw [← Option.some.inj hb] at hkv
    exact ⟨by rw [oldEntry, hold]; exact hkv, hst⟩

/-- **A delete of a key that is there** succeeds if it is served. -/
theorem kiDel_served {key : List (Option Key)} {entry : Entry} (ht : t.Serves)
    (hkey : kv.kvKey = some key) (hv : kiValidateKv kv false true ses.ksL = true)
    (hold : st (keyBytes key) = some entry) : (kiDel t ses st kv).krc = some .kOk := by
  obtain ⟨he, hf⟩ := ht
  have he' := he
  simp only [IssueEnv.goesOut, Bool.and_eq_true] at he'
  obtain ⟨⟨⟨⟨⟨⟨⟨-, hk⟩, hc⟩, hm⟩, -⟩, -⟩, -⟩, hsend⟩ := he'
  obtain ⟨cmd, hcreate⟩ :
      ∃ cmd, createDelkeyMessage t.env.message (kvHdr ses none .kmtDel) kv true = some cmd := by
    simp [createDelkeyMessage, createMessage, hc, hm]
  have hcmd := createDelkeyMessage_some hkey hcreate
  rw [if_pos hk] at hcmd
  have hmsg := kvMessage_sent he hv (by simp) hcreate
  have hi : (dDelAioGeneric t.env ses kv none false).req = some { cmd } := by
    simp [dDelAioGeneric, delMessage, hmsg, hsend]
  have hs : (t.serveDel st { cmd }).2 = accepted (t.tells.response (keyBytes key) entry) := by
    simp [Turn.serveDel, hcmd, hold]
  have hcall : kiDel t ses st kv = { krc := some .kOk, kv := _, store := _ } :=
    turnCall_served hi hf hs
  rw [hcall]

end Requests

/-! ### Gets that succeed -/

section Gets
variable {t : Turn} {ses : Ksession} {st : Store} {kv : Kv} {key : List (Option Key)}

theorem getWait_late {complete : GetAnswer → Kv → Option Kv → GetDone} {req : Request KprotoKv}
    (h : ∀ kv altkv, complete { completion := .notYet } kv altkv = { krc := .kEagain, kv, altkv })
    (n : ℕ) (a : GetAnswer) (kv : Kv) (altkv : Option Kv) :
    getWait complete req (List.replicate n { completion := .notYet } ++ [a]) kv altkv =
      getWait complete req [a] kv altkv := by
  induction n with
  | zero => rfl
  | succ n ih => simpa [List.replicate_succ, getWait, h] using ih

/-- What a get of an entry leaves in the structure. -/
def filledKv (t : Turn) (key : Key) (entry : Entry) (kv : Kv) : Kv :=
  fillKv (t.tells.response key entry) (hangVal (some entry.value) kv)

/-- **A get of a key that is there**, if it is served. -/
theorem kiGetFrom_served {entry : Entry} (ht : t.Serves) (hkey : kv.kvKey = some key)
    (hv : kiValidateKv kv false true ses.ksL = true) (hmeta : kv.kvMetaonly = 0)
    (hold : st (keyBytes key) = some entry) :
    (kiGetFrom t ses st kv).krc = some .kOk ∧
      (kiGetFrom t ses st kv).kv = filledKv t (keyBytes key) entry kv := by
  obtain ⟨he, hf⟩ := ht
  obtain ⟨len, hsent⟩ := @gGetAioGeneric_sent t.env ses kv none .kmtGet none
    ⟨rfl, hv, rfl⟩ he
  have hbody : (getRequest ses kv .kmtGet).body.key = some (keyBytes key) := by
    simp [getRequest, hkey]
  have hm : (filledKv t (keyBytes key) entry kv).kvMetaonly = 0 := hmeta
  unfold kiGetFrom kiGet gGetGeneric getCall
  rw [hsent]
  dsimp only [Turn.serveGet]
  rw [hbody]
  dsimp only
  rw [hold, getWait_late (fun _ _ => rfl)]
  simp only [getWait, gGetAioComplete, Turn.completion, hf, accepted, getExtract, extractGetkey,
    extractCmdstatusCode, Option.getD_some, ne_eq, not_true_eq_false, if_false]
  unfold filledKv at hm ⊢
  simp [getFinish, hm]

theorem gGetAioGeneric_ne_ok {krc : KStatus} {events : List KopEv} {msgType : Kmtype}
    {e : IssueEnv} (h : gGetAioGeneric e ses kv none msgType none = .error (krc, events)) :
    krc ≠ .kOk := by
  rintro rfl
  unfold gGetAioGeneric at h
  rcases hb : buildKio e (createGetkeyMessage e.message { ses.ksCh with kchType := msgType } kv)
    .kEnomem with krc | req
  · have hne := buildKio_ne_ok (by decide) hb
    simp [hb, ite_eq_iff, hne] at h
  · simp [hb, ite_eq_iff] at h

theorem gGetAioGeneric_ok {req : Request KprotoKv} {kio : GetKio} {msgType : Kmtype}
    {e : IssueEnv} (h : gGetAioGeneric e ses kv none msgType none = .ok (req, kio)) :
    kiValidateKv kv false true ses.ksL = true ∧ req = getRequest ses kv msgType ∧
      kio.kioCmd = msgType := by
  unfold gGetAioGeneric at h
  rcases hb : buildKio e (createGetkeyMessage e.message { ses.ksCh with kchType := msgType } kv)
    .kEnomem with krc | ⟨cmd, len⟩
  · simp [hb, ite_eq_iff] at h
  · simp only [hb, ite_eq_iff, Except.ok.injEq, Prod.mk.injEq, reduceCtorEq, and_false, false_or,
      not_not] at h
    obtain ⟨-, -, hv, -, -, rfl, rfl⟩ := h
    obtain ⟨key, hkey⟩ := kvKey_of_valid hv
    have hcreate := buildKio_ok hb
    rw [createGetkeyMessage_eq hkey] at hcreate
    split_ifs at hcreate
    exact ⟨hv, (Option.some.inj hcreate).symm, rfl⟩

/-- The completion of a get succeeds with an accepted response only. -/
theorem gGetAioComplete_ok {a : GetAnswer} {kio : GetKio} (hcmd : kio.kioCmd = .kmtGet)
    (hmeta : kv.kvMetaonly = 0) (h : (gGetAioComplete a ses kio kv none).krc = .kOk) :
    ∃ c response, a.completion = .resp (.msg (.cmd c)) ∧ extractCmdstatusCode c = .kOk ∧
      c.body = some response ∧
      (gGetAioComplete a ses kio kv none).kv = fillKv response (hangVal a.val kv) := by
  obtain ⟨completion, msglen, val⟩ := a
  rcases completion with _ | _ | (_ | _ | _ | _ | _ | m)
  case resp.msg =>
    simp only [gGetAioComplete, hcmd, getExtract] at h ⊢
    rcases m with _ | _ | c
    · simp [extractGetkey, getFinish] at h
    · simp [extractGetkey, getFinish] at h
    · by_cases hc : extractCmdstatusCode c = .kOk
      · rcases hb : c.body with _ | response
        · simp [extractGetkey, getFinish, hc, hb] at h
        · have hm : (fillKv response (hangVal val kv)).kvMetaonly = 0 := hmeta
          refine ⟨c, response, rfl, hc, hb, ?_⟩
          simp [extractGetkey, getFinish, hc, hb, hcmd, hm]
      · simp [extractGetkey, getFinish, hc] at h
  all_goals simp [gGetAioComplete] at h

/-- **A get that succeeds** was one of a key that is there. -/
theorem kiGetFrom_ok (hmeta : kv.kvMetaonly = 0) (h : (kiGetFrom t ses st kv).krc = some .kOk) :
    ∃ key entry, kv.kvKey = some key ∧ st (keyBytes key) = some entry ∧
      (kiGetFrom t ses st kv).kv = filledKv t (keyBytes key) entry kv := by
  unfold kiGetFrom kiGet gGetGeneric getCall at h ⊢
  rcases hi : gGetAioGeneric t.env ses kv none .kmtGet none with ⟨krc, events⟩ | ⟨req, kio⟩
  · rw [hi] at h
    exact absurd (Option.some.inj h) (gGetAioGeneric_ne_ok hi)
  · rw [hi] at h
    obtain ⟨hv, rfl, hcmd⟩ := gGetAioGeneric_ok hi
    obtain ⟨key, hkey⟩ := kvKey_of_valid hv
    have hbody : (getRequest ses kv .kmtGet).body.key = some (keyBytes key) := by
      simp [getRequest, hkey]
    dsimp only [Turn.serveGet] at h ⊢
    rw [hbody] at h ⊢
    dsimp only at h ⊢
    rw [getWait_late (fun _ _ => rfl)] at h ⊢
    simp only [getWait] at h ⊢
    generalize ha : (⟨t.completion _, 0, _⟩ : GetAnswer) = a at h ⊢
    by_cases hagain : (gGetAioComplete a ses kio kv none).krc = .kEagain
    · rw [if_pos hagain] at h
      cases h
    rw [if_neg hagain] at h ⊢
    obtain ⟨c, response, hc, hok, hb, hkv⟩ := gGetAioComplete_ok hcmd hmeta (Option.some.inj h)
    subst ha
    obtain ⟨hf, hm⟩ := Turn.completion_ok hc hok hb
    rcases hold : st (keyBytes key) with _ | entry
    · rw [hold] at hm
      cases hm
      cases hb
    · rw [hold] at hm hkv
      cases hm
      rw [← Option.some.inj hb] at hkv
      simp only [hf] at hkv ⊢
      exact ⟨key, entry, hkey, hold, hkv⟩

end Gets

end Libkinetic.Kinetic
