import Libkinetic.Kinetic.Request

/-! # Completing a request

The part that the completions of the six kinds of operations have in common: they look for the kio,
count it as an error if it timed out or failed, decode the response otherwise, and end with the
accounting, which a kio that timed out or failed goes through as well. -/

namespace Libkinetic.Kinetic

/-- What comes in for a request: the response, the length of its message, and its value, unless that
is null. -/
structure Answer (β : Type*) where
  completion : Completion β
  msglen : ℕ := 0
  val : Option (List Byte) := none
deriving DecidableEq

/-- The bytes of the PDU, the message and the value. -/
def Answer.recvlen {β : Type*} (a : Answer β) : ℕ := kpPlength + a.msglen + (a.val.getD []).length

/-- What a completion returns, leaves in the structure of the caller and does to the statistics.
Unlike a get, these completions do not give the context of the caller back. -/
structure Done (α : Type*) where
  krc : KStatus
  caller : α
  events : List KopEv := []
deriving DecidableEq

/-- The accounting at the end, with the lengths sent and received, of the key and of the value. -/
def krcEvents (kop : Kop) (ses : Ksession) (krc : KStatus) (sl rl kl vl : ℕ) : List KopEv :=
  if krc = .kOk then
    .ok (uint32 sl) (uint32 rl) (uint32 kl) (uint32 vl) ::
      (if ses.kopTstat kop then [.ts] else [])
  else [.err]

section Completing
variable {α β : Type*}

/-- **A completion**: `decode` is what happens between the checks of the state of the kio and the
accounting, and `lens` gives the lengths of key and value. -/
def aioDone (kop : Kop) (ses : Ksession) (sl rl : ℕ) (lens : α → ℕ × ℕ)
    (decode : Resp β → KStatus × α) (caller : α) : Completion β → Done α
  | .noConfig => { krc := .kEbadsess, caller }
  | .notYet => { krc := .kEagain, caller }
  | .resp .lost => { krc := .kEinternal, caller, events := [.err] }
  -- counted before the jump to the accounting, which counts every status but `K_OK`
  | .resp .timedout => { krc := .kEtimedout, caller, events := [.err, .err] }
  | .resp .failed => { krc := .kEnomsg, caller, events := [.err, .err] }
  | .resp r =>
    let (krc, caller) := decode r
    { krc, caller, events := krcEvents kop ses krc sl rl (lens caller).1 (lens caller).2 }

/-- The PDU and the message are checked, and the message is given to `extract`. -/
def readResponse (extract : RespMsg β → α → KStatus × α) (caller : α) : Resp β → KStatus × α
  | .msg m => extract m caller
  | _ => (.kEinternal, caller)

end Completing

/-! ### Puts and deletes -/

/-- The fields of the response replace those of `kv`; the key becomes a single element. -/
def echoKv (response : KprotoKv) (kv : Kv) : Kv :=
  { kv with
    kvKey :=
      match response.key with
      | some key => some [unpackedBytes key]
      | none => kv.kvKey
    kvVer := extractBytesOptional response.dbversion kv.kvVer
    kvDisum := extractBytesOptional response.tag kv.kvDisum
    kvDitype := response.algorithm.getD kv.kvDitype }

/-- What `extract_putkey` and `extract_delkey` do. -/
def extractEcho (m : RespMsg KprotoKv) (kv : Kv) : KStatus × Kv :=
  match m with
  | .nocmd => (.kEinternal, kv)
  | .badcmd => (.kEinternal, kv)
  | .cmd c =>
    let krc := extractCmdstatusCode c
    if krc ≠ .kOk then (krc, kv)
    else
      match c.body with
      | none => (.kEinternal, kv)
      | some response => (krc, echoKv response kv)

/-- The lengths of key and value. -/
def kvLens (kv : Kv) : ℕ × ℕ :=
  ((keyBytes (kv.kvKey.getD [])).length, valLen (kv.kvVal.getD []))

/-- What `p_put_aio_complete` and `d_del_aio_complete` do. In a batch no response is sent, and the
kio comes back as soon as the request went out. -/
def kvAioComplete (kop : Kop) (extract : RespMsg KprotoKv → Kv → KStatus × Kv)
    (a : Answer KprotoKv) (ses : Ksession) (sendlen : ℕ) (kv : Kv) (kb : Option Kb) : Done Kv :=
  match kb with
  | some _ => aioDone kop ses sendlen 0 kvLens (fun _ => (.kOk, kv)) kv a.completion
  | none =>
    aioDone kop ses sendlen a.recvlen kvLens (readResponse extract kv) kv a.completion

end Libkinetic.Kinetic
