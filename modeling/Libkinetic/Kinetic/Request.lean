import Libkinetic.Kinetic.Types

/-! # Building and sending a request

What the asynchronous calls share: the session, the structures of the caller and their validation,
and the way from the first allocation to the packed message. The typed-buffer headers in front of
the caller's structures are taken to be valid, and the pointer for the kio not to be null. -/

namespace Libkinetic.Kinetic

/-! ### Key values -/

/-- `kditype_t`; the caller may leave any number there. -/
inductive Kditype
  | kdiSha1 | kdiSha2 | kdiSha3 | kdiCrc32c | kdiCrc64 | kdiCrc32
  | other (z : ℤ)
deriving DecidableEq

/-- `kcachepolicy_t`, likewise. -/
inductive Kcachepolicy
  | kcWt | kcWb | kcFlush
  | other (z : ℤ)
deriving DecidableEq

/-- An element of a value vector; `freed` if the buffer it refers to was released. -/
structure Valbuf where
  bytes : List Byte := []
  freed : Bool := false
deriving DecidableEq

/-- `kv_t`: pointers with their lengths are lists, `none` for null; an element of the key vector may
be null as well. -/
structure Kv where
  kvKey : Option (List (Option Key)) := none
  kvVal : Option (List Valbuf) := none
  kvVer : Option (List Byte) := none
  kvNewver : Option (List Byte) := none
  kvDisum : Option (List Byte) := none
  kvDitype : Kditype := .other 0
  kvCpolicy : Kcachepolicy := .other 0
  kvMetaonly : ℕ := 0
deriving DecidableEq

/-- The elements, an empty one for null. -/
def fragments (key : List (Option Key)) : Keyvec := key.map fun k => k.getD []

/-- The key that the elements stand for. -/
def keyBytes (key : List (Option Key)) : Key := (fragments key).flatten

/-- The total length of a value. -/
def valLen (val : List Valbuf) : ℕ := (val.map fun b => b.bytes.length).sum

/-- A version or a checksum that is there has between 1 and `max` bytes. -/
def optLen (max : ℕ) (b : Option (List Byte)) : Bool :=
  b.all fun v => decide (1 ≤ v.length ∧ v.length ≤ max)

/-- `ki_validate_kv` does not fail. -/
def kiValidateKv (kv : Kv) (verck valck : Bool) (lim : Klimits) : Bool :=
  (kv.kvKey.any fun key => decide (1 ≤ key.length ∧ (keyBytes key).length ≤ lim.klKeylen)) &&
    (!valck || kv.kvVal.any fun val => decide (1 ≤ val.length ∧ valLen val ≤ lim.klVallen)) &&
    optLen lim.klVerlen kv.kvVer && optLen lim.klVerlen kv.kvNewver &&
    (!verck || kv.kvVer.isSome) &&
    optLen lim.klDisumlen kv.kvDisum &&
    (kv.kvDisum.isNone || match kv.kvDitype with | .other _ => false | _ => true) &&
    match kv.kvCpolicy with | .other z => z == 0 | _ => true

/-! ### Batches -/

/-- `KFIRSTBID` -/
def kfirstbid : ℕ := 1000

/-- `kb_t`; the counters are `uint32_t`. -/
structure Kb where
  kbBid : ℕ := 0
  kbOps : ℕ := 0
  kbDels : ℕ := 0
  kbBytes : ℕ := 0
deriving DecidableEq

/-- `ki_validate_kb` does not fail. -/
def kiValidateKb (kb : Kb) : Kmtype → Bool
  | .kmtStartbat => true
  | .kmtEndbat | .kmtAbortbat | .kmtPut | .kmtDel => decide (kfirstbid ≤ kb.kbBid)
  | _ => false

/-! ### The session -/

/-- The kinds of operations that statistics are kept of. -/
inductive Kop
  | puts | dels | gets | noops | flushs | execs
deriving DecidableEq

/-- What an operation does to the statistics of its kind. -/
inductive KopEv
  /-- `kop_err++` -/
  | err
  /-- `kop_ok++`, with the lengths sent and received, of the key and of the value. -/
  | ok (sl rl kl vl : ℕ)
  /-- `s_stats_addts` -/
  | ts
deriving DecidableEq

/-- `ksession_t`; the statistics are what the operations add to them, but for the flag that asks for
timestamps. -/
structure Ksession where
  ksBid : ℕ := kfirstbid
  ksBats : ℕ := 0
  ksL : Klimits
  ksCh : Kcmdhdr := {}
  kopTstat : Kop → Bool := fun _ => false

/-! ### Messages -/

/-- What the environment answers while a request message is created. -/
structure MsgEnv where
  /-- `keyname_to_proto` gets a buffer. -/
  key : Bool := true
  /-- `create_command_bytes` gets a buffer, and packs the command. -/
  command : Bool := true
  /-- `create_message` gets its memory. -/
  message : Bool := true
deriving DecidableEq

/-- `kproto_kv_t` in a request. -/
structure KprotoKv where
  key : Option Key := none
  newversion : Option (List Byte) := none
  dbversion : Option (List Byte) := none
  tag : Option (List Byte) := none
  algorithm : Option Kditype := none
  force : Option Bool := none
  synchronization : Option Kcachepolicy := none
  metadataonly : Option ℕ := none
deriving DecidableEq

/-- `set_bytes_optional`: the field is set, to zero bytes if the pointer is null. -/
def setBytesOptional (b : Option (List Byte)) : Option (List Byte) := some (b.getD [])

/-- The bytes of a field that was unpacked; the pointer is null if there are none. -/
def unpackedBytes (b : List Byte) : Option (List Byte) := if b = [] then none else some b

/-- `extract_bytes_optional`: a field that is not set leaves the pointer as it was. -/
def extractBytesOptional (field ptr : Option (List Byte)) : Option (List Byte) :=
  match field with
  | none => ptr
  | some b => unpackedBytes b

/-- The end of a builder that gives up without command bytes. -/
def createMessage {β : Type*} (m : MsgEnv) (r : Request β) : Option (Request β) :=
  if ¬ m.command then none
  else if ¬ m.message then none
  else some r

/-! ### From the first allocation to the packed message -/

/-- `KP_PLENGTH` -/
def kpPlength : ℕ := 9

/-- What the environment answers while a request is built and sent. -/
structure IssueEnv where
  /-- `ktli_config` finds the session. -/
  config : Bool := true
  kio : Bool := true
  message : MsgEnv := {}
  sendmsg : Bool := true
  pdu : Bool := true
  /-- The length of the packed message, if it can be packed. -/
  pack : Option ℕ
  /-- `ktli_send` succeeds. -/
  send : Bool := true
deriving DecidableEq

/-- The request message with the length it has when it is packed, or the status of the step that
fails; `noMessage` is the one for a message that is not created. -/
def buildKio {ρ : Type*} (e : IssueEnv) (kmreq : Option ρ) (noMessage : KStatus) :
    Except KStatus (ρ × ℕ) :=
  if ¬ e.kio then .error .kEnomem
  else
    match kmreq with
    | none => .error noMessage
    | some kmreq =>
      if ¬ e.sendmsg then .error .kEnomem
      else if ¬ e.pdu then .error .kEnomem
      else
        match e.pack with
        | none => .error .kEinternal
        | some msglen => .ok (kmreq, uint32 msglen)

theorem buildKio_ne_ok {ρ : Type*} {e : IssueEnv} {kmreq : Option ρ} {noMessage krc : KStatus}
    (hn : noMessage ≠ .kOk) (h : buildKio e kmreq noMessage = .error krc) : krc ≠ .kOk := by
  rintro rfl
  rcases kmreq with _ | kmreq <;> rcases hp : e.pack with _ | msglen <;>
    simp [buildKio, hp, ite_eq_iff, hn] at h

theorem buildKio_ok {ρ : Type*} {e : IssueEnv} {kmreq : Option ρ} {noMessage : KStatus}
    {r : ρ × ℕ} (h : buildKio e kmreq noMessage = .ok r) : kmreq = some r.1 := by
  rcases kmreq with _ | kmreq <;> rcases hp : e.pack with _ | msglen <;>
    simp [buildKio, hp, ite_eq_iff] at h
  obtain ⟨-, -, -, rfl⟩ := h
  rfl

/-- What it takes to build a request. -/
theorem buildKio_ok_iff {ρ : Type*} {e : IssueEnv} {kmreq : Option ρ} {noMessage : KStatus} :
    (∃ r, buildKio e kmreq noMessage = .ok r) ↔ e.kio = true ∧ kmreq.isSome = true ∧
      e.sendmsg = true ∧ e.pdu = true ∧ e.pack.isSome = true := by
  unfold buildKio
  cases e.kio <;> cases kmreq <;> cases e.sendmsg <;> cases e.pdu <;> cases e.pack <;> simp

/-! ### Puts and deletes -/

/-- The header of a command on a key, in a batch if there is one. -/
def kvHdr (ses : Ksession) (kb : Option Kb) (msgType : Kmtype) : Kcmdhdr :=
  { ses.ksCh with
    kchType := msgType
    kchBid := match kb with
      | none => ses.ksCh.kchBid
      | some kb => kb.kbBid }

/-- A request on a key with the value that is sent with it. -/
structure KvReq where
  cmd : Request KprotoKv
  val : List Valbuf := []
deriving DecidableEq

/-- What issuing an operation on a key returns, leaves in the batch, does to the statistics and
sends. -/
structure KvIssue where
  krc : KStatus
  kb : Option Kb := none
  events : List KopEv := []
  req : Option KvReq := none
deriving DecidableEq

/-- What `p_put_aio_generic` and `d_del_aio_generic` do before the accounting, with the builder
`create` of the message; both validate the batch as for a put, and force the operation if it does
not check the version. -/
def kvMessage (create : MsgEnv → Kcmdhdr → Kv → Bool → Option (Request KprotoKv)) (msgType : Kmtype)
    (e : IssueEnv) (ses : Ksession) (kv : Kv) (kb : Option Kb) (verck : Bool) :
    Except (KStatus × List KopEv) (Request KprotoKv × ℕ) :=
  if ¬ e.config then .error (.kEbadsess, [])
  else if ¬ kiValidateKv kv verck true ses.ksL then .error (.kEinval, [.err])
  else if ¬ kb.all fun kb => kiValidateKb kb .kmtPut then .error (.kEinval, [.err])
  else
    match buildKio e (create e.message (kvHdr ses kb msgType) kv (!verck)) .kEinternal with
    | .error krc => .error (krc, [.err])
    | .ok req => .ok req

theorem kvMessage_ne_ok {create : MsgEnv → Kcmdhdr → Kv → Bool → Option (Request KprotoKv)}
    {msgType : Kmtype} {e : IssueEnv} {ses : Ksession} {kv : Kv} {kb : Option Kb} {verck : Bool}
    {krc : KStatus} {events : List KopEv}
    (h : kvMessage create msgType e ses kv kb verck = .error (krc, events)) : krc ≠ .kOk := by
  rintro rfl
  unfold kvMessage at h
  rcases hb : buildKio e (create e.message (kvHdr ses kb msgType) kv (!verck)) .kEinternal with
    krc | req
  · have hne := buildKio_ne_ok (by decide) hb
    simp [hb, ite_eq_iff, hne] at h
  · simp [hb, ite_eq_iff] at h

/-- A limit of the server that is exceeded; 0 stands for no limit. -/
def overLimit (limit n : ℕ) : Bool := decide (0 < limit ∧ limit < n)

end Libkinetic.Kinetic
