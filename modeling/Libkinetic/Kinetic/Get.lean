import Libkinetic.Kinetic.Request

/-! # Gets

The operations of the get family share `g_get_aio_generic`, which sends the request, and
`g_get_aio_complete`, which takes the response; both look at the type of the request. The
synchronous calls give each operation its own type. The asynchronous ones give `KMT_GET` to all of
them, so that only `ki_aio_get` is the asynchronous form of its synchronous call. -/

namespace Libkinetic.Kinetic

/-! ### Issuing a get -/

/-- `create_getkey_message` -/
def createGetkeyMessage (m : MsgEnv) (hdr : Kcmdhdr) (kv : Kv) : Option (Request KprotoKv) :=
  match keynameToProto m.key (kv.kvKey.map fragments) with
  | none => none
  | some key => createMessage m { hdr, body := { key, metadataonly := kv.kvMetaonly } }

/-- The kio of a get, without the structures of the caller. -/
structure GetKio where
  kioCmd : Kmtype
  /-- The bytes of the PDU and of the message. -/
  sendlen : ℕ
  /-- The caller's context. -/
  kioCctx : Option ℕ
deriving DecidableEq

/-- The structures that the type needs are there. -/
def getHasKvs (altkv : Option Kv) : Kmtype → Bool
  | .kmtGetnext | .kmtGetprev => altkv.isSome
  | .kmtGet | .kmtGetvers => true
  | _ => false

/-- **`g_get_aio_generic`**: the request and its kio, or the status with what it does to the
statistics. -/
def gGetAioGeneric (e : IssueEnv) (ses : Ksession) (kv : Kv) (altkv : Option Kv) (msgType : Kmtype)
    (cctx : Option ℕ) : Except (KStatus × List KopEv) (Request KprotoKv × GetKio) :=
  if ¬ e.config then .error (.kEbadsess, [])
  else if ¬ getHasKvs altkv msgType then .error (.kEinval, [.err])
  else if ¬ kiValidateKv kv false true ses.ksL then .error (.kEinval, [.err])
  else if ¬ altkv.all (fun altkv => kiValidateKv altkv false true ses.ksL) then
    .error (.kEinval, [.err])
  else
    let hdr := { ses.ksCh with kchType := msgType }
    match buildKio e (createGetkeyMessage e.message hdr kv) .kEnomem with
    | .error krc => .error (krc, [.err])
    | .ok (cmd, msglen) =>
      if ¬ e.send then .error (.kEinternal, [.err])
      else .ok (cmd, { kioCmd := msgType, sendlen := kpPlength + msglen, kioCctx := cctx })

/-! ### Completing it -/

/-- The fields of the response fill those of `kv` that are null; the key is a single element. -/
def fillKv (response : KprotoKv) (kv : Kv) : Kv :=
  { kv with
    kvKey :=
      match kv.kvKey, response.key with
      | some (none :: _), some key => some [unpackedBytes key]
      | key, _ => key
    kvVer :=
      match kv.kvVer with
      | none => extractBytesOptional response.dbversion none
      | some ver => some ver
    kvDisum :=
      match kv.kvDisum with
      | none => extractBytesOptional response.tag none
      | some disum => some disum
    kvDitype :=
      match kv.kvDisum with
      | none => response.algorithm.getD kv.kvDitype
      | some _ => kv.kvDitype }

/-- `extract_getkey` -/
def extractGetkey (m : RespMsg KprotoKv) (kv : Kv) : KStatus × Kv :=
  match m with
  | .nocmd => (.kEinternal, kv)
  | .badcmd => (.kEinternal, kv)
  | .cmd c =>
    let krc := extractCmdstatusCode c
    if krc ≠ .kOk then (krc, kv)
    else
      match c.body with
      | none => (.kEinternal, kv)
      | some response => (krc, fillKv response kv)

/-- What comes in for a request: the response, the length of its message, and its value, unless that
is null. -/
structure GetAnswer where
  completion : Completion KprotoKv
  msglen : ℕ := 0
  val : Option (List Byte) := none
deriving DecidableEq

/-- The value is hung on the first element of the value vector. -/
def hangVal (val : Option (List Byte)) (kv : Kv) : Kv :=
  { kv with kvVal := kv.kvVal.map fun v => v.set 0 { bytes := val.getD [] } }

/-- The buffer that the first element refers to is released. -/
def releaseVal (kv : Kv) : Kv :=
  { kv with kvVal := kv.kvVal.map fun v => v.modify 0 fun b => { b with freed := true } }

/-- The value and the response, put into the structure that the type fills. -/
def getExtract (m : RespMsg KprotoKv) (val : Option (List Byte)) (kv : Kv) (altkv : Option Kv) :
    Kmtype → KStatus × Kv × Option Kv
  | .kmtGet =>
    let (krc, kv) := extractGetkey m (hangVal val kv)
    (krc, kv, altkv)
  | .kmtGetvers =>
    let (krc, kv) := extractGetkey m kv
    (krc, kv, altkv)
  | .kmtGetnext | .kmtGetprev =>
    match altkv with
    | some altkv =>
      let (krc, altkv) := extractGetkey m (hangVal val altkv)
      (krc, kv, some altkv)
    -- a request of this type is not sent without it
    | none => (.kEinternal, kv, none)
  -- the assertion
  | _ => (.kEinternal, kv, altkv)

/-- What a completion returns, leaves in the structures of the caller and does to the statistics. -/
structure GetDone where
  krc : KStatus
  kv : Kv
  altkv : Option Kv
  events : List KopEv := []
  cctx : Option ℕ := none
deriving DecidableEq

/-- The end of a completion with a response: the value is released if it is not for the caller. -/
def getFinish (a : GetAnswer) (ses : Ksession) (kio : GetKio) (krc : KStatus) (kv : Kv)
    (altkv : Option Kv) : GetDone :=
  let free := a.val.isSome &&
    decide (krc ≠ .kOk ∨ kio.kioCmd = .kmtGetvers ∨ kv.kvMetaonly ≠ 0)
  let kv' := if free ∧ kio.kioCmd = .kmtGet then releaseVal kv else kv
  let altkv' :=
    if free ∧ (kio.kioCmd = .kmtGetnext ∨ kio.kioCmd = .kmtGetprev) then altkv.map releaseVal
    else altkv
  let rl := kpPlength + a.msglen + (a.val.getD []).length
  let kl := (keyBytes (kv.kvKey.getD [])).length
  let vl := valLen (kv.kvVal.getD [])
  { krc
    kv := kv'
    altkv := altkv'
    events :=
      if krc = .kOk then
        .ok (uint32 kio.sendlen) (uint32 rl) (uint32 kl) (uint32 vl) ::
          (if ses.kopTstat .gets then [.ts] else [])
      else [.err]
    cctx := if krc = .kOk then kio.kioCctx else none }

/-- **`g_get_aio_complete`**; a kio that timed out or failed is counted as an error twice. -/
def gGetAioComplete (a : GetAnswer) (ses : Ksession) (kio : GetKio) (kv : Kv) (altkv : Option Kv) :
    GetDone :=
  match a.completion with
  | .noConfig => { krc := .kEbadsess, kv, altkv }
  | .notYet => { krc := .kEagain, kv, altkv }
  | .resp .lost => { krc := .kEinternal, kv, altkv, events := [.err] }
  | .resp .timedout => { krc := .kEtimedout, kv, altkv, events := [.err, .err] }
  | .resp .failed => { krc := .kEnomsg, kv, altkv, events := [.err, .err] }
  | .resp .badpdu | .resp .badmsg => { krc := .kEinternal, kv, altkv, events := [.err] }
  | .resp (.msg m) =>
    let (krc, kv, altkv) := getExtract m a.val kv altkv kio.kioCmd
    getFinish a ses kio krc kv altkv

/-! ### The calls -/

/-- The completions that `ki_aio_complete` knows. -/
inductive AioComplete
  | pPut | dDel | gGet | bBatch | nNoop | fFlush | eExec
deriving DecidableEq

/-- The one that `ki_aio_complete` calls for a type. -/
def aioComplete : Kmtype → Option AioComplete
  | .kmtPut => some .pPut
  | .kmtDel => some .dDel
  | .kmtGet | .kmtGetnext | .kmtGetprev | .kmtGetvers => some .gGet
  | .kmtStartbat | .kmtAbortbat | .kmtEndbat => some .bBatch
  | .kmtNoop => some .nNoop
  | .kmtFlush => some .fFlush
  | .kmtApplet => some .eExec
  | _ => none

/-- `ki_aio_complete` for a kio that a get has returned. -/
def kiAioComplete (a : GetAnswer) (ses : Ksession) (kio : GetKio) (kv : Kv) (altkv : Option Kv) :
    GetDone :=
  match aioComplete kio.kioCmd with
  | some .gGet => gGetAioComplete a ses kio kv altkv
  | _ => { krc := .kEinval, kv, altkv }

/-- A get as its caller sees it: the request that was sent, the status, unless the call still waits,
and the structures. -/
structure GetOutcome where
  req : Option (Request KprotoKv)
  krc : Option KStatus
  kv : Kv
  altkv : Option Kv
deriving DecidableEq

/-- Completing until the result is another one than `K_EAGAIN`; the list holds what comes in, one
answer for each completion. -/
def getWait (complete : GetAnswer → Kv → Option Kv → GetDone) (req : Request KprotoKv) :
    List GetAnswer → Kv → Option Kv → GetOutcome
  | [], kv, altkv => { req, krc := none, kv, altkv }
  | a :: as, kv, altkv =>
    let r := complete a kv altkv
    if r.krc = .kEagain then getWait complete req as r.kv r.altkv
    else { req, krc := r.krc, kv := r.kv, altkv := r.altkv }

/-- Issuing a get and completing it; `server` says what comes in for a request. -/
def getCall (issue : Except (KStatus × List KopEv) (Request KprotoKv × GetKio))
    (complete : GetAnswer → GetKio → Kv → Option Kv → GetDone)
    (server : Request KprotoKv → List GetAnswer) (kv : Kv) (altkv : Option Kv) : GetOutcome :=
  match issue with
  | .error (krc, _) => { req := none, krc, kv, altkv }
  | .ok (req, kio) => getWait (fun a => complete a kio) req (server req) kv altkv

section Calls
variable (e : IssueEnv) (ses : Ksession) (server : Request KprotoKv → List GetAnswer) (kv : Kv)

/-- **`g_get_generic`** -/
def gGetGeneric (altkv : Option Kv) (msgType : Kmtype) : GetOutcome :=
  getCall (gGetAioGeneric e ses kv altkv msgType none) (fun a kio => gGetAioComplete a ses kio)
    server kv altkv

/-- `ki_get` -/
def kiGet : GetOutcome := gGetGeneric e ses server kv none .kmtGet

/-- `ki_getnext` -/
def kiGetnext (next : Kv) : GetOutcome := gGetGeneric e ses server kv (some next) .kmtGetnext

/-- `ki_getprev` -/
def kiGetprev (prev : Kv) : GetOutcome := gGetGeneric e ses server kv (some prev) .kmtGetprev

/-- `ki_getversion` -/
def kiGetversion : GetOutcome := gGetGeneric e ses server kv none .kmtGetvers

/-- `ki_aio_get` -/
def kiAioGet (cctx : Option ℕ) := gGetAioGeneric e ses kv none .kmtGet cctx

/-- `ki_aio_getnext` -/
def kiAioGetnext (next : Kv) (cctx : Option ℕ) := gGetAioGeneric e ses kv (some next) .kmtGet cctx

/-- `ki_aio_getprev` -/
def kiAioGetprev (prev : Kv) (cctx : Option ℕ) := gGetAioGeneric e ses kv (some prev) .kmtGet cctx

/-- `ki_aio_getvers` -/
def kiAioGetvers (cctx : Option ℕ) := gGetAioGeneric e ses kv none .kmtGet cctx

end Calls

/-! ### The two forms of an operation -/

inductive GetOp
  | get | getnext | getprev | getversion
deriving DecidableEq

/-- The type that the synchronous call gives to the request. -/
def GetOp.msgType : GetOp → Kmtype
  | .get => .kmtGet
  | .getnext => .kmtGetnext
  | .getprev => .kmtGetprev
  | .getversion => .kmtGetvers

/-- The second structure, for the operations that fill one. -/
def GetOp.alt (altkv : Kv) : GetOp → Option Kv
  | .get | .getversion => none
  | .getnext | .getprev => some altkv

section Forms
variable (e : IssueEnv) (ses : Ksession) (server : Request KprotoKv → List GetAnswer)
  (kv altkv : Kv)

/-- The synchronous call; `altkv` is for the operations that fill a second structure. -/
def GetOp.sync : GetOp → GetOutcome
  | .get => kiGet e ses server kv
  | .getnext => kiGetnext e ses server kv altkv
  | .getprev => kiGetprev e ses server kv altkv
  | .getversion => kiGetversion e ses server kv

/-- The asynchronous call, completed with `ki_aio_complete`. -/
def GetOp.async (cctx : Option ℕ) (op : GetOp) : GetOutcome :=
  let complete := fun a kio => kiAioComplete a ses kio
  match op with
  | .get => getCall (kiAioGet e ses kv cctx) complete server kv none
  | .getnext => getCall (kiAioGetnext e ses kv altkv cctx) complete server kv (some altkv)
  | .getprev => getCall (kiAioGetprev e ses kv altkv cctx) complete server kv (some altkv)
  | .getversion => getCall (kiAioGetvers e ses kv cctx) complete server kv none

end Forms

/-- A request with valid structures goes out. -/
def IssueEnv.goesOut (e : IssueEnv) : Bool :=
  e.config && e.kio && e.message.key && e.message.command && e.message.message && e.sendmsg &&
    e.pdu && e.pack.isSome && e.send

/-- What is returned if it does not. -/
def IssueEnv.refusal (e : IssueEnv) : KStatus × List KopEv :=
  if ¬ e.config then (.kEbadsess, [])
  else if e.kio && e.message.key && e.message.command && e.message.message && e.sendmsg && e.pdu
    then (.kEinternal, [.err])
  else (.kEnomem, [.err])

/-- The structures pass the validation, and those that the type needs are there. -/
def ValidGet (ses : Ksession) (kv : Kv) (altkv : Option Kv) (msgType : Kmtype) : Prop :=
  getHasKvs altkv msgType = true ∧ kiValidateKv kv false true ses.ksL = true ∧
    altkv.all (fun altkv => kiValidateKv altkv false true ses.ksL) = true

section Agreement
variable {e : IssueEnv} {ses : Ksession} {kv : Kv} {altkv : Option Kv} {msgType : Kmtype}
  {cctx : Option ℕ}

/-- The request of a get. -/
def getRequest (ses : Ksession) (kv : Kv) (msgType : Kmtype) : Request KprotoKv where
  hdr := { ses.ksCh with kchType := msgType }
  body := { key := keyBytes (kv.kvKey.getD []), metadataonly := kv.kvMetaonly }

theorem kvKey_of_valid {verck valck : Bool} {lim : Klimits}
    (h : kiValidateKv kv verck valck lim = true) : ∃ key, kv.kvKey = some key := by
  cases hk : kv.kvKey with
  | none => simp [kiValidateKv, hk] at h
  | some key => exact ⟨key, rfl⟩

/-- The message has the key of the structure, if there is memory. -/
theorem createGetkeyMessage_eq {key : List (Option Key)} (hkey : kv.kvKey = some key)
    (m : MsgEnv) :
    createGetkeyMessage m { ses.ksCh with kchType := msgType } kv =
      if m.key && m.command && m.message then some (getRequest ses kv msgType) else none := by
  unfold createGetkeyMessage getRequest keynameToProto createMessage
  rw [hkey]
  cases m.key <;> cases m.command <;> cases m.message <;> rfl

theorem gGetAioGeneric_sent (h : ValidGet ses kv altkv msgType) (he : e.goesOut = true) :
    ∃ sendlen, gGetAioGeneric e ses kv altkv msgType cctx =
      .ok (getRequest ses kv msgType, { kioCmd := msgType, sendlen, kioCctx := cctx }) := by
  obtain ⟨hhas, hkv, halt⟩ := h
  obtain ⟨key, hkey⟩ := kvKey_of_valid hkv
  simp only [IssueEnv.goesOut, Bool.and_eq_true, Option.isSome_iff_exists] at he
  obtain ⟨⟨⟨⟨⟨⟨⟨⟨hconfig, hkio⟩, hk⟩, hc⟩, hm⟩, hsendmsg⟩, hpdu⟩, msglen, hpack⟩, hsend⟩ := he
  refine ⟨kpPlength + uint32 msglen, ?_⟩
  simp [gGetAioGeneric, createGetkeyMessage_eq hkey, buildKio, hhas, hkv, halt, hconfig, hkio, hk,
    hc, hm, hsendmsg, hpdu, hpack, hsend]

theorem gGetAioGeneric_refused (h : ValidGet ses kv altkv msgType) (he : e.goesOut = false) :
    gGetAioGeneric e ses kv altkv msgType cctx = .error e.refusal := by
  obtain ⟨hhas, hkv, halt⟩ := h
  obtain ⟨key, hkey⟩ := kvKey_of_valid hkv
  unfold IssueEnv.refusal
  by_cases hconfig : e.config = true
  · by_cases hbuilt : (e.kio && e.message.key && e.message.command && e.message.message &&
        e.sendmsg && e.pdu) = true
    · simp only [Bool.and_eq_true] at hbuilt
      obtain ⟨⟨⟨⟨⟨hkio, hk⟩, hc⟩, hm⟩, hsendmsg⟩, hpdu⟩ := hbuilt
      cases hpack : e.pack with
      | none =>
        simp [gGetAioGeneric, createGetkeyMessage_eq hkey, buildKio, hhas, hkv, halt, hconfig, hkio,
          hk, hc, hm, hsendmsg, hpdu, hpack]
      | some msglen =>
        have hsend : e.send = false := by
          simpa [IssueEnv.goesOut, hconfig, hkio, hk, hc, hm, hsendmsg, hpdu, hpack] using he
        simp [gGetAioGeneric, createGetkeyMessage_eq hkey, buildKio, hhas, hkv, halt, hconfig, hkio,
          hk, hc, hm, hsendmsg, hpdu, hpack, hsend]
    · have hnomem : buildKio e (createGetkeyMessage e.message
          { ses.ksCh with kchType := msgType } kv) .kEnomem = .error .kEnomem := by
        rw [createGetkeyMessage_eq hkey]
        unfold buildKio
        revert hbuilt
        cases e.kio <;> cases e.message.key <;> cases e.message.command <;>
          cases e.message.message <;> cases e.sendmsg <;> cases e.pdu <;> simp
      simp only [gGetAioGeneric, hhas, hkv, halt, hconfig, hnomem, hbuilt]
      simp
  · simp [gGetAioGeneric, hconfig]

/-- The call reports the request that it waits for. -/
theorem getWait_req (complete : GetAnswer → Kv → Option Kv → GetDone) (req : Request KprotoKv) :
    ∀ (as : List GetAnswer) (kv : Kv) (altkv : Option Kv),
      (getWait complete req as kv altkv).req = some req
  | [], _, _ => rfl
  | a :: as, kv, altkv => by
    simp only [getWait]
    split
    · exact getWait_req complete req as _ _
    · rfl

/-- Two completions that differ in the statistics and the context only. -/
theorem getWait_congr {complete complete' : GetAnswer → Kv → Option Kv → GetDone}
    (h : ∀ a kv altkv, (complete a kv altkv).krc = (complete' a kv altkv).krc ∧
      (complete a kv altkv).kv = (complete' a kv altkv).kv ∧
      (complete a kv altkv).altkv = (complete' a kv altkv).altkv) (req : Request KprotoKv) :
    ∀ (as : List GetAnswer) (kv : Kv) (altkv : Option Kv),
      getWait complete req as kv altkv = getWait complete' req as kv altkv
  | [], _, _ => rfl
  | a :: as, kv, altkv => by
    obtain ⟨hkrc, hkv, halt⟩ := h a kv altkv
    simp only [getWait, hkrc, hkv, halt, getWait_congr h req as]

/-- The context and the length that was sent play no part. -/
theorem gGetAioComplete_congr (a : GetAnswer) (ses : Ksession) {kio kio' : GetKio}
    (h : kio.kioCmd = kio'.kioCmd) (kv : Kv) (altkv : Option Kv) :
    (gGetAioComplete a ses kio kv altkv).krc = (gGetAioComplete a ses kio' kv altkv).krc ∧
      (gGetAioComplete a ses kio kv altkv).kv = (gGetAioComplete a ses kio' kv altkv).kv ∧
      (gGetAioComplete a ses kio kv altkv).altkv =
        (gGetAioComplete a ses kio' kv altkv).altkv := by
  unfold gGetAioComplete
  split
  all_goals first
    | exact ⟨rfl, rfl, rfl⟩
    | simp only [getFinish, h, and_self]

theorem GetOp.sync_eq (op : GetOp) (server : Request KprotoKv → List GetAnswer) (altkv : Kv) :
    op.sync e ses server kv altkv = gGetGeneric e ses server kv (op.alt altkv) op.msgType := by
  cases op <;> rfl

theorem GetOp.async_eq (op : GetOp) (server : Request KprotoKv → List GetAnswer) (altkv : Kv) :
    op.async e ses server kv altkv cctx =
      getCall (gGetAioGeneric e ses kv (op.alt altkv) .kmtGet cctx)
        (fun a kio => kiAioComplete a ses kio) server kv (op.alt altkv) := by
  cases op <;> rfl

/-- Both types of request are valid for the structures of an operation. -/
theorem GetOp.valid (op : GetOp) {altkv : Kv} (hkv : kiValidateKv kv false true ses.ksL = true)
    (halt : kiValidateKv altkv false true ses.ksL = true) :
    ValidGet ses kv (op.alt altkv) .kmtGet ∧ ValidGet ses kv (op.alt altkv) op.msgType := by
  cases op <;> simp [ValidGet, GetOp.alt, GetOp.msgType, getHasKvs, hkv, halt]

theorem GetOp.msgType_eq_get {op : GetOp} (h : op.msgType = .kmtGet) : op = .get := by
  cases op <;> first | rfl | cases h

/-- **The two forms of an operation** send the same request and give the same status and the same
contents of the structures if and only if the operation is a plain get, or nothing is sent. -/
theorem async_eq_sync_iff (op : GetOp) (e : IssueEnv) (ses : Ksession)
    (server : Request KprotoKv → List GetAnswer) (kv altkv : Kv) (cctx : Option ℕ)
    (hkv : kiValidateKv kv false true ses.ksL = true)
    (halt : kiValidateKv altkv false true ses.ksL = true) :
    op.async e ses server kv altkv cctx = op.sync e ses server kv altkv ↔
      op = .get ∨ e.goesOut = false := by
  obtain ⟨hget, hown⟩ := op.valid hkv halt
  rw [op.sync_eq, op.async_eq, gGetGeneric]
  cases he : e.goesOut with
  | false =>
    rw [gGetAioGeneric_refused hget he, gGetAioGeneric_refused hown he]
    exact iff_of_true rfl (.inr rfl)
  | true =>
    obtain ⟨len, hasync⟩ := @gGetAioGeneric_sent _ _ _ _ _ cctx hget he
    obtain ⟨len', hsync⟩ := @gGetAioGeneric_sent _ _ _ _ _ none hown he
    rw [hasync, hsync]
    constructor
    · intro h
      -- the requests are those of the two types
      have hreq := congrArg GetOutcome.req h
      simp only [getCall, getWait_req, Option.some.injEq] at hreq
      have htype := congrArg (fun r => r.hdr.kchType) hreq
      exact .inl (GetOp.msgType_eq_get htype.symm)
    · rintro (rfl | h)
      · refine getWait_congr (fun a kv altkv => ?_) _ _ _ _
        have hcmd : (⟨.kmtGet, len, cctx⟩ : GetKio).kioCmd =
            (⟨GetOp.get.msgType, len', none⟩ : GetKio).kioCmd := rfl
        exact gGetAioComplete_congr a ses hcmd kv altkv
      · cases h

end Agreement

/-! ### An asynchronous getnext -/

/-- A new session with a small server. -/
def getSes : Ksession := { ksL := smallLimits }

/-- The request goes out. -/
def getEnv : IssueEnv := { pack := some 40 }

/-- The key `[1]`. -/
def firstKv : Kv := { kvKey := some [some [1]], kvVal := some [{}] }

/-- A structure to be filled. -/
def emptyKv : Kv := { kvKey := some [none], kvVal := some [{}] }

def found (key : Key) (val : List Byte) : List GetAnswer :=
  [{ completion := .notYet },
    { completion := .resp (.msg (.cmd ⟨some .kOk, some { key }⟩)), msglen := 30, val }]

/-- A server with the values 10 of the key `[1]` and 20 of the key `[2]`, for requests about the
first. -/
def twoKeys (req : Request KprotoKv) : List GetAnswer :=
  match req.hdr.kchType with
  | .kmtGet => found [1] [10]
  | .kmtGetnext => found [2] [20]
  | _ => [{ completion := .resp (.msg (.cmd ⟨some .kEnotfound, none⟩)) }]

theorem get_twoKeys :
    GetOp.get.async getEnv getSes twoKeys firstKv emptyKv none =
        GetOp.get.sync getEnv getSes twoKeys firstKv emptyKv ∧
      (GetOp.get.sync getEnv getSes twoKeys firstKv emptyKv).krc = some .kOk :=
  ⟨(async_eq_sync_iff .get getEnv getSes twoKeys firstKv emptyKv none (by decide)
    (by decide)).mpr (.inl rfl), by decide⟩

/-- **An asynchronous getnext** sends a get: the value of the key itself comes back in `kv`, and the
structure for the next key stays empty. -/
theorem getnext_sends_get :
    GetOp.getnext.async getEnv getSes twoKeys firstKv emptyKv none ≠
        GetOp.getnext.sync getEnv getSes twoKeys firstKv emptyKv ∧
      (GetOp.getnext.async getEnv getSes twoKeys firstKv emptyKv none).altkv = some emptyKv ∧
      (GetOp.getnext.sync getEnv getSes twoKeys firstKv emptyKv).altkv =
        some { emptyKv with kvKey := some [some [2]], kvVal := some [{ bytes := [20] }] } := by
  decide

end Libkinetic.Kinetic
