import Libkinetic.Kinetic.Basickv

/-! # Keys that a response names

The completion of a put or a delete replaces the key of the caller's structure by the one that the
response names, as a single element. A loop that writes a new suffix into the second element before
each request then writes it where no request reads it. The loops of `bkv_putn`, `bkv_deln` and
`kctl put -n` are taken here with any response, what they have in common in `KeyLoop`; of a released
key the bytes are taken to be still there. -/

namespace Libkinetic.Kinetic

open Libkinetic.Base.Rounds

/-! ### One completion -/

/-- The key that a completion takes over: that of a response with the status `K_OK`. In a batch there
is no response. -/
def Answer.echoed (a : Answer KprotoKv) (kb : Option Kb) : Option Key :=
  match kb, a.completion with
  | none, .resp (.msg (.cmd c)) =>
    if extractCmdstatusCode c = .kOk then c.body.bind (·.key) else none
  | _, _ => none

/-- The key vector after it. -/
def echoKey (echoed : Option Key) (key : Option (List (Option Key))) : Option (List (Option Key)) :=
  match echoed with
  | none => key
  | some k => some [unpackedBytes k]

theorem kvKey_kvAioComplete (kop : Kop) (a : Answer KprotoKv) (ses : Ksession) (sl : ℕ) (kv : Kv)
    (kb : Option Kb) : (kvAioComplete kop extractEcho a ses sl kv kb).caller.kvKey =
      echoKey (a.echoed kb) kv.kvKey := by
  obtain ⟨completion, msglen, val⟩ := a
  cases kb with
  | some kb => rcases completion with _ | _ | (_ | _ | _ | _ | _ | m) <;> rfl
  | none =>
    rcases completion with _ | _ | (_ | _ | _ | _ | _ | _ | _ | c)
    case resp.msg.cmd =>
      by_cases hst : extractCmdstatusCode c = .kOk
      · cases hbody : c.body with
        | none =>
          simp [kvAioComplete, aioDone, readResponse, extractEcho, Answer.echoed, echoKey, hst, hbody]
        | some response =>
          cases hkey : response.key <;>
            simp [kvAioComplete, aioDone, readResponse, extractEcho, Answer.echoed, echoKey, echoKv,
              hst, hbody, hkey]
      · simp [kvAioComplete, aioDone, readResponse, extractEcho, Answer.echoed, echoKey, hst]
    all_goals rfl

/-- **The key vector is unchanged** if no key is taken over, or it is that one element already. -/
theorem echoKey_eq_iff (echoed : Option Key) (key : Option (List (Option Key))) :
    echoKey echoed key = key ↔ ∀ k, echoed = some k → key = some [unpackedBytes k] := by
  cases echoed with
  | none => simp [echoKey]
  | some k => simp [echoKey, eq_comm]

/-! ### One request -/

/-- What the environment decides about a put or a delete: how the request is built and sent, how
often the response is not there yet, and what comes in then. -/
structure KvTurn where
  env : IssueEnv
  early : ℕ := 0
  answer : Answer KprotoKv

/-- What a call returns, unless it still waits, and what it leaves of the structure and the batch. -/
structure KvResult where
  krc : Option KStatus
  kv : Kv
  kb : Option Kb

/-- Issuing and completing. -/
def kvTurn (i : KvIssue) (complete : Answer KprotoKv → Kv → Done Kv) (t : KvTurn) (kv : Kv) :
    KvResult :=
  match i.req with
  | none => { krc := some i.krc, kv, kb := i.kb }
  | some _ =>
    let (krc, kv) :=
      kvWait complete (List.replicate t.early { completion := .notYet } ++ [t.answer]) kv
    { krc, kv, kb := i.kb }

section Turns
variable (t : KvTurn) (ses : Ksession) (kv : Kv) (kb : Option Kb) (verck : Bool)

/-- `p_put_generic`: `ki_put` without and `ki_cas` with a check of the version. -/
def putTurn : KvResult :=
  let i := pPutAioGeneric t.env ses kv kb verck
  kvTurn i (fun a kv => pPutAioComplete a ses (IssueDone.ofKv t.env i).sendlen kv kb) t kv

/-- `d_del_generic` -/
def delTurn : KvResult :=
  let i := dDelAioGeneric t.env ses kv kb verck
  kvTurn i (fun a kv => dDelAioComplete a ses (IssueDone.ofKv t.env i).sendlen kv kb) t kv

end Turns

section Turn
variable {i : KvIssue} {t : KvTurn} {ses : Ksession} {kv : Kv} {kb : Option Kb} {verck : Bool}
  {kop : Kop} {sl : ℕ}

theorem kvAioComplete_notYet (kop : Kop) (ses : Ksession) (sl : ℕ) (kv : Kv) (kb : Option Kb) :
    kvAioComplete kop extractEcho { completion := .notYet } ses sl kv kb =
      { krc := .kEagain, caller := kv } := by
  cases kb <;> rfl

/-- **A call that succeeds** leaves the key that its response names. -/
theorem kvTurn_kvKey (hreq : i.req = none → i.krc ≠ .kOk)
    (h : (kvTurn i (fun a kv => kvAioComplete kop extractEcho a ses sl kv kb) t kv).krc =
      some .kOk) :
    (kvTurn i (fun a kv => kvAioComplete kop extractEcho a ses sl kv kb) t kv).kv.kvKey =
      echoKey (t.answer.echoed kb) kv.kvKey := by
  unfold kvTurn at h ⊢
  cases hi : i.req with
  | none =>
    rw [hi] at h
    exact absurd (Option.some.inj h) (hreq hi)
  | some req =>
    dsimp only
    rw [kvWait_late fun kv => kvAioComplete_notYet kop ses sl kv kb, kvWait,
      ← kvKey_kvAioComplete kop t.answer ses sl kv kb]
    split_ifs <;> rfl

theorem putTurn_kvKey (h : (putTurn t ses kv kb verck).krc = some .kOk) :
    (putTurn t ses kv kb verck).kv.kvKey = echoKey (t.answer.echoed kb) kv.kvKey :=
  kvTurn_kvKey pPutAioGeneric_unsent h

theorem delTurn_kvKey (h : (delTurn t ses kv kb verck).krc = some .kOk) :
    (delTurn t ses kv kb verck).kv.kvKey = echoKey (t.answer.echoed kb) kv.kvKey :=
  kvTurn_kvKey dDelAioGeneric_unsent h

end Turn

/-! ### Loops over one structure -/

/-- The key is the caller's, with some suffix. -/
def Suffixed (base : Key) (kv : Kv) : Prop :=
  ∃ suffix, kv.kvKey = some [some base, some suffix]

/-- A loop whose rounds use the same structure. -/
structure KeyLoop (σ ε : Type) where
  step : ℕ → σ → Except ε σ
  /-- The structure that a round gives to its put or delete. -/
  asked : ℕ → σ → Kv
  /-- The structure between the rounds. -/
  kv : σ → Kv

namespace KeyLoop
variable {σ ε : Type}

/-- **The loop keeps to its keys** in `n` rounds from `s`: every round that is reached asks for the
key with its number, and every operation that succeeds leaves the key vector as it was. -/
structure Kept (L : KeyLoop σ ε) (name : ℕ → Key) (n : ℕ) (s : σ) : Prop where
  asked : ∀ i < n, ∀ t, rounds L.step i s = .ok t →
    ∃ key, (L.asked i t).kvKey = some key ∧ keyBytes key = name i
  left : ∀ i < n, ∀ t t', rounds L.step i s = .ok t → L.step i t = .ok t' →
    (L.kv t').kvKey = (L.asked i t).kvKey

/-- What a round does to the key: it writes the suffix, and its operation takes over the key that is
`echoed`. -/
structure Writes (L : KeyLoop σ ε) (base : Key) (suffix : ℕ → Key) (echoed : ℕ → Option Key) :
    Prop where
  asked : ∀ i t, Suffixed base (L.kv t) →
    (L.asked i t).kvKey = some [some base, some (suffix i)]
  left : ∀ i t t', L.step i t = .ok t' →
    (L.kv t').kvKey = echoKey (echoed i) (L.asked i t).kvKey

section Rounds
variable {L : KeyLoop σ ε} {base : Key} {suffix : ℕ → Key} {echoed : ℕ → Option Key} {n i : ℕ}
  {s t : σ}

/-- As long as the key vector is left as it was, the caller's key is in it. -/
theorem Writes.suffixed (h : L.Writes base suffix echoed) (h0 : Suffixed base (L.kv s))
    (hleft : ∀ i < n, ∀ t t', rounds L.step i s = .ok t → L.step i t = .ok t' →
      (L.kv t').kvKey = (L.asked i t).kvKey) (hi : i ≤ n) (ht : rounds L.step i s = .ok t) :
    Suffixed base (L.kv t) := by
  induction i generalizing t with
  | zero =>
    obtain rfl : s = t := by simpa [rounds] using ht
    exact h0
  | succ i ih =>
    obtain ⟨u, hu, hstep⟩ := rounds_succ_ok ht
    have hprev : Suffixed base (L.kv u) := ih (by omega) hu
    exact ⟨suffix i, (hleft i (by omega) u t hu hstep).trans (h.asked i u hprev)⟩

/-- **When a loop keeps to its keys**: no operation that succeeds takes a key over. -/
theorem Writes.loop_kept_iff (h : L.Writes base suffix echoed) (h0 : Suffixed base (L.kv s)) :
    L.Kept (fun i => base ++ suffix i) n s ↔
      ∀ i < n, ∀ t, rounds L.step (i + 1) s = .ok t → echoed i = none := by
  constructor
  · intro hk i hi t ht
    obtain ⟨u, hu, hstep⟩ := rounds_succ_ok ht
    have hsuffixed := h.suffixed h0 hk.left hi.le hu
    have hsame := hk.left i hi u t hu hstep
    rw [h.left i u t hstep, echoKey_eq_iff, h.asked i u hsuffixed] at hsame
    cases he : echoed i with
    | none => rfl
    | some k =>
      -- two elements are not one
      have hone := hsame k he
      simp at hone
  · intro hnone
    have hleft : ∀ i < n, ∀ t t', rounds L.step i s = .ok t → L.step i t = .ok t' →
        (L.kv t').kvKey = (L.asked i t).kvKey := by
      intro i hi t t' ht hstep
      have hnext : rounds L.step (i + 1) s = .ok t' := by
        rw [rounds, ht]
        exact hstep
      rw [h.left i t t' hstep, hnone i hi t' hnext]
      rfl
    refine ⟨fun i hi t ht => ?_, hleft⟩
    refine ⟨_, h.asked i t (h.suffixed h0 hleft hi.le ht), ?_⟩
    simp [keyBytes, fragments]

end Rounds

end KeyLoop

/-! ### `bkv_putn` and `bkv_deln` -/

section Bkv
variable (turn : ℕ → KvTurn) (ses : Ksession)

/-- What `bkv_putn` carries from one round to the next, without what the server has. -/
structure PutnTurn where
  kv : Kv
  /-- What `pval` points to. -/
  pval : List Byte
  pvlen : ℕ

/-- The length of the piece of a round. -/
def pieceLen (n vlen i pvlen : ℕ) : ℕ :=
  if i = n - 1 ∧ vlen % ses.ksL.klVallen ≠ 0 then vlen % ses.ksL.klVallen else pvlen

/-- The loop of `bkv_putn`. -/
def putnLoop (n vlen : ℕ) : KeyLoop PutnTurn (Option KStatus) where
  kv := PutnTurn.kv
  asked i s := hangNumber i (hangVal (some (s.pval.take (pieceLen ses n vlen i s.pvlen))) s.kv)
  step i s :=
    let pvlen := pieceLen ses n vlen i s.pvlen
    let r := putTurn (turn i) ses (hangNumber i (hangVal (some (s.pval.take pvlen)) s.kv)) none false
    if r.krc = some .kOk then .ok { kv := r.kv, pval := s.pval.drop pvlen, pvlen }
    else .error r.krc

/-- What it starts from. -/
def putnStart (key val : List Byte) : PutnTurn :=
  { kv := putnKv key, pval := val, pvlen := ses.ksL.klVallen }

/-- The loop of `bkv_deln`. -/
def delnLoop : KeyLoop Kv (Option KStatus) where
  kv := id
  asked i kv := hangNumber i kv
  step i kv :=
    let r := delTurn (turn i) ses (hangNumber i kv) none false
    if r.krc = some .kOk then .ok r.kv else .error r.krc

def delnStart (key : Key) : Kv := { numberedKv key with kvCpolicy := .kcWt }

end Bkv

/-! ### `kctl put -n` -/

/-- The suffix of `kctl put`: a dot and nine digits, of a number below 1000000000. -/
def kctlSuffix (i : ℕ) : Key :=
  46 :: (List.range 9).map fun p => Fin.ofNat 256 (48 + i / 10 ^ (8 - p) % 10)

/-- What the command line says. -/
structure KctlArgs where
  key : Key
  val : List Byte
  sum : List Byte
  cpolicy : Kcachepolicy
  bat : Bool
  cas : Bool

/-- What the environment decides about a round. -/
structure KctlTurn where
  /-- How the request for the version is built and sent, and what comes in for it. -/
  getEnv : IssueEnv
  server : Request KprotoKv → List GetAnswer
  /-- What is printed for the new version. -/
  newver : List Byte
  put : KvTurn

/-- The structure and the batch between the rounds. -/
structure KctlState where
  kv : Kv
  kb : Kb

section Kctl
variable (turn : ℕ → KctlTurn) (ses : Ksession) (ka : KctlArgs)

/-- The suffix is the second element, unless a response has replaced the key. -/
def hangSuffix (i : ℕ) (kv : Kv) : Kv :=
  { kv with kvKey := kv.kvKey.map fun key => key.set 1 (some (kctlSuffix i)) }

/-- The request for the version of the key. -/
def kctlVersion (i : ℕ) (kv : Kv) : GetOutcome :=
  kiGetversion (turn i).getEnv ses (turn i).server (hangSuffix i kv)

/-- The structure for the put. -/
def kctlKv (i : ℕ) (kv : Kv) : Kv :=
  hangVal (some ka.val)
    { (kctlVersion turn ses i kv).kv with
      kvNewver := some (turn i).newver
      kvDisum := some ka.sum
      kvDitype := .kdiCrc32
      kvCpolicy := ka.cpolicy
      kvMetaonly := 0 }

/-- The batch, if the put is for one. -/
def kctlBatch (kb : Kb) : Option Kb := if ka.bat then some kb else none

/-- "Return the key the way we found it". -/
def wayWeFoundIt (kv : Kv) : Kv :=
  hangVal none
    { kv with
      kvVer := none
      kvNewver := none
      kvDisum := none
      kvDitype := .other 0
      kvCpolicy := .other 0
      kvMetaonly := 0 }

/-- The loop of `kctl_put` over `kctl_do_put`. -/
def kctlLoop : KeyLoop KctlState (Option KStatus) where
  kv := KctlState.kv
  asked i s := kctlKv turn ses ka i s.kv
  step i s :=
    -- the status is not looked at, but the call has to come back
    if (kctlVersion turn ses i s.kv).krc = none then .error none
    else
      let r := putTurn (turn i).put ses (kctlKv turn ses ka i s.kv) (kctlBatch ka s.kb) ka.cas
      if r.krc = some .kOk then .ok { kv := wayWeFoundIt r.kv, kb := r.kb.getD s.kb }
      else .error r.krc

def kctlStart (kb : Kb) : KctlState :=
  { kv := { kvKey := some [some ka.key, some []], kvVal := some [{}] }, kb }

/-- The key that the put of a round takes over. -/
def kctlEchoed (i : ℕ) : Option Key := if ka.bat then none else (turn i).put.answer.echoed none

end Kctl

/-! ### The version of a key -/

section Getversion
variable {b : Key} {rest : List (Option Key)} {kv : Kv}

theorem kvKey_extractGetkey (m : RespMsg KprotoKv) (h : kv.kvKey = some (some b :: rest)) :
    (extractGetkey m kv).2.kvKey = kv.kvKey := by
  unfold extractGetkey
  cases m with
  | nocmd | badcmd => rfl
  | cmd c =>
    dsimp only
    split_ifs
    · rfl
    · cases c.body with
      | none => rfl
      | some response => simp [fillKv, h]

/-- **A key that is there** is not filled by a get. -/
theorem kvKey_gGetAioComplete (a : GetAnswer) (ses : Ksession) (kio : GetKio) (altkv : Option Kv)
    (h : kv.kvKey = some (some b :: rest)) :
    (gGetAioComplete a ses kio kv altkv).kv.kvKey = kv.kvKey := by
  have hfinish : ∀ krc kv altkv, (getFinish a ses kio krc kv altkv).kv.kvKey = kv.kvKey := by
    intro krc kv altkv
    unfold getFinish
    dsimp only
    split_ifs <;> rfl
  unfold gGetAioComplete
  match a.completion with
  | .noConfig | .notYet => rfl
  | .resp .lost | .resp .timedout | .resp .failed | .resp .badpdu | .resp .badmsg => rfl
  | .resp (.msg m) =>
    rw [hfinish]
    unfold getExtract
    cases kio.kioCmd with
    | kmtGet => exact kvKey_extractGetkey m (by exact h : (hangVal a.val kv).kvKey = _)
    | kmtGetvers => exact kvKey_extractGetkey m h
    | kmtGetnext | kmtGetprev => cases altkv <;> rfl
    | _ => rfl

theorem kvKey_getWait {complete : GetAnswer → Kv → Option Kv → GetDone} {req : Request KprotoKv}
    (hc : ∀ a kv altkv, kv.kvKey = some (some b :: rest) →
      (complete a kv altkv).kv.kvKey = kv.kvKey)
    (as : List GetAnswer) (kv : Kv) (altkv : Option Kv) (h : kv.kvKey = some (some b :: rest)) :
    (getWait complete req as kv altkv).kv.kvKey = kv.kvKey := by
  induction as generalizing kv altkv with
  | nil => rfl
  | cons a as ih =>
    have hkey := hc a kv altkv h
    unfold getWait
    dsimp only
    split_ifs
    · rw [ih _ _ (hkey.trans h), hkey]
    · exact hkey

theorem kvKey_kiGetversion (e : IssueEnv) (ses : Ksession)
    (server : Request KprotoKv → List GetAnswer) (h : kv.kvKey = some (some b :: rest)) :
    (kiGetversion e ses server kv).kv.kvKey = kv.kvKey := by
  unfold kiGetversion gGetGeneric getCall
  cases gGetAioGeneric e ses kv none .kmtGetvers none with
  | error r => rfl
  | ok r => exact kvKey_getWait (fun a kv altkv => kvKey_gGetAioComplete a ses r.2 altkv) _ _ _ h

end Getversion

/-! ### What the three loops write -/

section Loops
variable {turn : ℕ → KvTurn} {ses : Ksession} {key : Key} {n : ℕ}

theorem putnLoop_writes (turn : ℕ → KvTurn) (ses : Ksession) (n vlen : ℕ) (key : Key) :
    (putnLoop turn ses n vlen).Writes key bkvNMaxkeysFormat fun i =>
      (turn i).answer.echoed none where
  asked i t h := kvKey_hangNumber h i
  left i t t' hstep := by
    simp only [putnLoop] at hstep ⊢
    split_ifs at hstep with hok
    cases hstep
    exact putTurn_kvKey hok

theorem delnLoop_writes (turn : ℕ → KvTurn) (ses : Ksession) (key : Key) :
    (delnLoop turn ses).Writes key bkvNMaxkeysFormat fun i => (turn i).answer.echoed none where
  asked i t h := kvKey_hangNumber h i
  left i t t' hstep := by
    simp only [delnLoop] at hstep ⊢
    split_ifs at hstep with hok
    cases hstep
    exact delTurn_kvKey hok

theorem kctlLoop_writes (turn : ℕ → KctlTurn) (ses : Ksession) (ka : KctlArgs) (key : Key) :
    (kctlLoop turn ses ka).Writes key kctlSuffix (kctlEchoed turn ka) where
  asked i t h := by
    obtain ⟨suffix, hkey⟩ := h
    have hhung : (hangSuffix i t.kv).kvKey = some [some key, some (kctlSuffix i)] := by
      have hkey' : t.kv.kvKey = some [some key, some suffix] := hkey
      simp [hangSuffix, hkey']
    have hversion : (kctlVersion turn ses i t.kv).kv.kvKey = (hangSuffix i t.kv).kvKey :=
      kvKey_kiGetversion _ _ _ hhung
    exact hversion.trans hhung
  left i t t' hstep := by
    simp only [kctlLoop] at hstep ⊢
    split_ifs at hstep with hwait hok
    cases hstep
    have hkey := putTurn_kvKey hok
    have hechoed : (turn i).put.answer.echoed (kctlBatch ka t.kb) = kctlEchoed turn ka i := by
      unfold kctlEchoed kctlBatch
      cases ka.bat <;> rfl
    rw [← hechoed, ← hkey]
    rfl

/-! ### The calls to a server that keeps a map -/

/-- What a call to that server comes to is what a turn without a server comes to. -/
theorem exists_kvTurn {i : KvIssue} {t : Turn} {ses : Ksession} {kv : Kv} {kop : Kop} {sl : ℕ}
    (serve : KvReq → Store × RespMsg KprotoKv) (st : Store) :
    ∃ a : Answer KprotoKv,
      (i.req = none ∨ ∃ req, i.req = some req ∧ a.completion = t.completion (serve req).2) ∧
      (turnCall t kop ses sl i serve st kv).krc =
        (kvTurn i (fun a kv => kvAioComplete kop extractEcho a ses sl kv none)
          { env := t.env, early := t.early, answer := a } kv).krc ∧
      (turnCall t kop ses sl i serve st kv).kv =
        (kvTurn i (fun a kv => kvAioComplete kop extractEcho a ses sl kv none)
          { env := t.env, early := t.early, answer := a } kv).kv := by
  unfold turnCall kvCall kvTurn
  cases i.req with
  | none => exact ⟨{ completion := .notYet }, .inl rfl, rfl, rfl⟩
  | some req =>
    exact ⟨{ completion := t.completion (serve req).2 }, .inr ⟨req, rfl, rfl⟩, rfl, rfl⟩

/-- A response to a put of that server never names a key. -/
theorem echoed_servePut (t : Turn) (st : Store) (req : KvReq) (a : Answer KprotoKv)
    (ha : a.completion = t.completion (t.servePut st req).2) : a.echoed none = none := by
  unfold Answer.echoed
  rw [ha]
  unfold Turn.completion
  cases hf : t.fault with
  | none =>
    unfold Turn.servePut
    cases req.cmd.body.key with
    | none => rfl
    | some key =>
      have hkey := t.putResp.2
      simp [accepted, hkey]
  | some f =>
    have hrefuses := f.refuses
    dsimp only
    split
    · rename_i c _ hc
      rw [hc] at hrefuses
      split_ifs with hst
      · simp only [Completion.accepts, hst, decide_true, Bool.true_and] at hrefuses
        rw [Option.isSome_eq_false_iff, Option.isNone_iff_eq_none] at hrefuses
        rw [hrefuses]
        rfl
      · rfl
    · rfl

/-- **`ki_put` to that server** is a turn that takes over no key. -/
theorem kiPut_putTurn (t : Turn) (ses : Ksession) (st : Store) (kv : Kv) :
    ∃ a : Answer KprotoKv, a.echoed none = none ∧
      (kiPut t ses st kv).krc =
        (putTurn { env := t.env, early := t.early, answer := a } ses kv none false).krc ∧
      (kiPut t ses st kv).kv =
        (putTurn { env := t.env, early := t.early, answer := a } ses kv none false).kv := by
  obtain ⟨a, ha, hkrc, hkv⟩ := @exists_kvTurn (pPutAioGeneric t.env ses kv none false) t ses kv
    .puts (IssueDone.ofKv t.env (pPutAioGeneric t.env ses kv none false)).sendlen
    (fun r => t.servePut st r) st
  rcases ha with hreq | ⟨req, -, ha⟩
  · refine ⟨{ completion := .notYet }, rfl, ?_, ?_⟩ <;>
      simp only [kiPut, kvCall, putTurn, kvTurn, hreq]
  · exact ⟨a, echoed_servePut t st req a ha, hkrc, hkv⟩

/-- **`ki_del` to that server** is a turn. -/
theorem kiDel_delTurn (t : Turn) (ses : Ksession) (st : Store) (kv : Kv) :
    ∃ a : Answer KprotoKv,
      (kiDel t ses st kv).krc =
        (delTurn { env := t.env, early := t.early, answer := a } ses kv none false).krc ∧
      (kiDel t ses st kv).kv =
        (delTurn { env := t.env, early := t.early, answer := a } ses kv none false).kv := by
  obtain ⟨a, -, hkrc, hkv⟩ := @exists_kvTurn (dDelAioGeneric t.env ses kv none false) t ses kv
    .dels (IssueDone.ofKv t.env (dDelAioGeneric t.env ses kv none false)).sendlen
    (fun r => t.serveDel st r) st
  exact ⟨a, hkrc, hkv⟩

/-- A round of `bkv_putn` with that server is one of the loop here. -/
theorem putnRound_putnLoop {c : BkvEnv} {n vlen i : ℕ} {s s' : PutnState}
    (h : putnRound c ses n vlen i s = .ok s') : ∃ a : Answer KprotoKv, a.echoed none = none ∧
      (putnLoop (fun _ => { env := (c.turn i).env, early := (c.turn i).early, answer := a }) ses n
        vlen).step i { kv := s.kv, pval := s.pval, pvlen := s.pvlen } =
          .ok { kv := s'.kv, pval := s'.pval, pvlen := s'.pvlen } := by
  unfold putnRound at h
  dsimp only at h
  split_ifs at h with hlast hok hok
  all_goals
    cases h
    obtain ⟨a, ha, hkrc, hkv⟩ := kiPut_putTurn (c.turn i) ses s.store _
    refine ⟨a, ha, ?_⟩
    simp only [putnLoop, pieceLen]
  · rw [if_pos hlast, ← hkrc, if_pos hok, ← hkv]
  · rw [if_neg hlast, ← hkrc, if_pos hok, ← hkv]

/-- A round of `bkv_deln`, likewise. -/
theorem delnRound_delnLoop {c : BkvEnv} {i : ℕ} {s s' : DelnState}
    (h : delnRound c ses i s = .ok s') : ∃ a : Answer KprotoKv,
      (delnLoop (fun _ => { env := (c.turn i).env, early := (c.turn i).early, answer := a })
        ses).step i s.kv = .ok s'.kv := by
  unfold delnRound at h
  dsimp only at h
  split_ifs at h with hok
  cases h
  obtain ⟨a, hkrc, hkv⟩ := kiDel_delTurn (c.turn i) ses s.store (hangNumber i s.kv)
  refine ⟨a, ?_⟩
  simp only [delnLoop]
  rw [← hkrc, if_pos hok, ← hkv]

/-! ### The outcome -/

/-- **What the completions and the loops do to the key**: a completion leaves the key vector as it is
unless it takes over another key, and a loop keeps to its keys unless one of its operations takes over
any. -/
theorem echo_kept_iff (ses : Ksession) (a : Answer KprotoKv) (sl : ℕ) (kv : Kv) (kb : Option Kb)
    (turn : ℕ → KvTurn) (key : Key) (val : List Byte) (n : ℕ) (kctl : ℕ → KctlTurn) (ka : KctlArgs)
    (bat : Kb) :
    ((pPutAioComplete a ses sl kv kb).caller.kvKey = kv.kvKey ↔
      ∀ k, a.echoed kb = some k → kv.kvKey = some [unpackedBytes k]) ∧
    ((dDelAioComplete a ses sl kv kb).caller.kvKey = kv.kvKey ↔
      ∀ k, a.echoed kb = some k → kv.kvKey = some [unpackedBytes k]) ∧
    ((putnLoop turn ses n val.length).Kept (numbered key) n (putnStart ses key val) ↔
      ∀ i < n, ∀ t, rounds (putnLoop turn ses n val.length).step (i + 1) (putnStart ses key val) =
        .ok t → (turn i).answer.echoed none = none) ∧
    ((delnLoop turn ses).Kept (numbered key) n (delnStart key) ↔
      ∀ i < n, ∀ t, rounds (delnLoop turn ses).step (i + 1) (delnStart key) = .ok t →
        (turn i).answer.echoed none = none) ∧
    ((kctlLoop kctl ses ka).Kept (fun i => ka.key ++ kctlSuffix i) n (kctlStart ka bat) ↔
      ∀ i < n, ∀ t, rounds (kctlLoop kctl ses ka).step (i + 1) (kctlStart ka bat) = .ok t →
        kctlEchoed kctl ka i = none) := by
  refine ⟨?_, ?_, ?_, ?_, ?_⟩
  · rw [pPutAioComplete, extractPutkey, kvKey_kvAioComplete, echoKey_eq_iff]
  · rw [dDelAioComplete, extractDelkey, kvKey_kvAioComplete, echoKey_eq_iff]
  · exact (putnLoop_writes turn ses n val.length key).loop_kept_iff ⟨_, rfl⟩
  · exact (delnLoop_writes turn ses key).loop_kept_iff ⟨_, rfl⟩
  · exact (kctlLoop_writes kctl ses ka ka.key).loop_kept_iff ⟨_, rfl⟩

/-- The response to a request for the first numbered key, which names it. -/
def namesFirst : KvTurn :=
  { env := getEnv
    answer := { completion := .resp (.msg (accepted { key := some (numbered [107] 0) })) } }

/-- A put from the command line, of which the key has no version yet. -/
def firstPut : KctlTurn :=
  { getEnv
    server := fun _ => [{ completion := .resp (.msg (refused .kEnotfound)) }]
    newver := [48, 120, 48, 48, 48, 48, 48, 48, 48, 48, 0]
    put :=
      { env := getEnv
        answer := { completion := .resp (.msg (accepted { key := some (107 :: kctlSuffix 0) })) } } }

/-- A session with versions of that length. -/
def kctlSes : Ksession := { ksL := { smallLimits with klVerlen := 16 } }

def firstArgs : KctlArgs :=
  { key := [107], val := [1], sum := [0, 0, 0, 0], cpolicy := .kcWb, bat := false, cas := false }

/-- **A response that names the key** leaves one element, and the next round asks for the same key. -/
theorem key_replaced :
    (pPutAioComplete namesFirst.answer twoByteSes 60 (hangNumber 0 (delnStart [107])) none).caller.kvKey
        = some [some (numbered [107] 0)] ∧
      (delTurn namesFirst twoByteSes (hangNumber 0 (delnStart [107])) none false).krc = some .kOk ∧
      (hangNumber 1 (delTurn namesFirst twoByteSes (hangNumber 0 (delnStart [107])) none false).kv).kvKey
        = some [some (numbered [107] 0)] ∧
      ¬ (delnLoop (fun _ => namesFirst) twoByteSes).Kept (numbered [107]) 2 (delnStart [107]) ∧
      ¬ (kctlLoop (fun _ => firstPut) kctlSes firstArgs).Kept
        (fun i => firstArgs.key ++ kctlSuffix i) 2 (kctlStart firstArgs {}) := by
  refine ⟨by decide, by decide, by decide, fun h => ?_, fun h => ?_⟩
  · have hleft := h.left 0 (by decide) _ _ rfl rfl
    exact absurd hleft (by decide)
  · have hleft := h.left 0 (by decide) _ _ rfl rfl
    exact absurd hleft (by decide)

end Loops

end Libkinetic.Kinetic
