import Libkinetic.Kinetic.Batch
import Libkinetic.Kinetic.Del
import Libkinetic.Kinetic.Exec
import Libkinetic.Kinetic.Getlog
import Libkinetic.Kinetic.Noop
import Libkinetic.Kinetic.Put
import Libkinetic.Kinetic.Range

/-! # The body of a command

The builders of requests hand their bodies to `create_command_bytes` through one untyped pointer.
A switch over the message type decides into which slot of the body it goes; a type that the switch
does not have is packed with an empty body. -/

namespace Libkinetic.Kinetic

open Wire (Lib ProtoCmd ProtoCmdhdr extractToCommandHeader)

/-! ### Bodies -/

/-- `kproto_batch_t` in a request. -/
structure KprotoBatch where
  count : Option ℕ := none
deriving DecidableEq

/-- `kproto_body_t`; in the slots that no request of the library uses, the bytes of a message. -/
structure KprotoBody where
  keyvalue : Option KprotoKv := none
  range : Option RangeReq := none
  setup : Option (List Byte) := none
  p2poperation : Option (List Byte) := none
  getlog : Option KprotoGetlog := none
  security : Option (List Byte) := none
  pinop : Option (List Byte) := none
  batch : Option KprotoBatch := none
  power : Option (List Byte) := none
  manageapplet : Option KprotoKapplet := none
deriving DecidableEq

/-- What the untyped pointer of `create_command_bytes` points to. -/
inductive CmdData
  | keyvalue (d : KprotoKv)
  | getlog (d : KprotoGetlog)
  | range (d : RangeReq)
  | batch (d : KprotoBatch)
  | manageapplet (d : KprotoKapplet)
deriving DecidableEq

/-- The switch of `create_command_bytes`; no result if the pointer is cast to another type than that
of what it points to. -/
def stitch (messagetype : Kmtype) (protoCmdData : CmdData) : Option KprotoBody :=
  match messagetype with
  | .kmtGet | .kmtGetvers | .kmtGetnext | .kmtGetprev | .kmtPut | .kmtDel =>
    match protoCmdData with
    | .keyvalue d => some { keyvalue := some d }
    | _ => none
  | .kmtGetlog =>
    match protoCmdData with
    | .getlog d => some { getlog := some d }
    | _ => none
  | .kmtGetrange =>
    match protoCmdData with
    | .range d => some { range := some d }
    | _ => none
  | .kmtStartbat | .kmtEndbat =>
    match protoCmdData with
    | .batch d => some { batch := some d }
    | _ => none
  | .kmtApplet =>
    match protoCmdData with
    | .manageapplet d => some { manageapplet := some d }
    | _ => none
  | _ => some {}

/-- `create_command_bytes` -/
def createCommandBytes (L : Lib KprotoBody) (cmdHdr : Kcmdhdr) (protoCmdData : CmdData) :
    Option (List Byte) :=
  (stitch cmdHdr.kchType protoCmdData).map fun body => Wire.createCommandBytes L cmdHdr body

/-! ### The builders -/

/-- The body of `create_batch_message`. -/
def batchData (ops : ℕ) : CmdData := .batch { count := some (uint32 ops) }

/-- The body of `create_rangekey_message`: a key that gets no buffer is left out. -/
def rangekeyData (startkey endkey : Bool) (kr : Krange) : CmdData :=
  .range
    { createRangekeyMessage kr with
      startkey := keynameToProto startkey kr.krStart
      endkey := keynameToProto endkey kr.krEnd }

/-- **A request** that the library builds: the header, with the type that its operation has put
there, and the body. -/
inductive Built : Kcmdhdr → CmdData → Prop
  | getkey {m : MsgEnv} {hdr : Kcmdhdr} {kv : Kv} {req : Request KprotoKv}
      (ht : hdr.kchType ∈ [Kmtype.kmtGet, .kmtGetvers, .kmtGetnext, .kmtGetprev])
      (h : createGetkeyMessage m hdr kv = some req) : Built hdr (.keyvalue req.body)
  | put {m : MsgEnv} {hdr : Kcmdhdr} {kv : Kv} {force : Bool} {req : Request KprotoKv}
      (ht : hdr.kchType = .kmtPut) (h : createPutMessage m hdr kv force = some req) :
      Built hdr (.keyvalue req.body)
  | del {m : MsgEnv} {hdr : Kcmdhdr} {kv : Kv} {force : Bool} {req : Request KprotoKv}
      (ht : hdr.kchType = .kmtDel) (h : createDelkeyMessage m hdr kv force = some req) :
      Built hdr (.keyvalue req.body)
  | getlog {m : MsgEnv} {hdr : Kcmdhdr} {glog : Kgetlog} {req : Request KprotoGetlog}
      (ht : hdr.kchType = .kmtGetlog) (h : createGetlogMessage m hdr glog = some req) :
      Built hdr (.getlog req.body)
  | rangekey {hdr : Kcmdhdr} (startkey endkey : Bool) (kr : Krange)
      (ht : hdr.kchType = .kmtGetrange) : Built hdr (rangekeyData startkey endkey kr)
  | batch {hdr : Kcmdhdr} (ops : ℕ)
      (ht : hdr.kchType ∈ [Kmtype.kmtStartbat, .kmtEndbat, .kmtAbortbat]) :
      Built hdr (batchData ops)
  | exec {m : MsgEnv} {hdr : Kcmdhdr} {app : Kapplet} {req : Request KprotoKapplet}
      (ht : hdr.kchType = .kmtApplet) (h : createExecMessage m hdr app = some req) :
      Built hdr (.manageapplet req.body)
  /-- The key value of these is initialised, and nothing is put into it. -/
  | noop {m : MsgEnv} {hdr : Kcmdhdr} {req : Request Unit} (ht : hdr.kchType = .kmtNoop)
      (h : createNoopMessage m hdr = some req) : Built hdr (.keyvalue {})
  | flush {m : MsgEnv} {hdr : Kcmdhdr} {req : Request Unit} (ht : hdr.kchType = .kmtFlush)
      (h : createFlushMessage m hdr = some req) : Built hdr (.keyvalue {})

/-! ### What the bytes are to decode to -/

/-- A field that is there exactly if the value is not zero, and then holds it. -/
def PresentNonzero (field : Option ℕ) (v : ℕ) : Prop := ∀ w, field = some w ↔ w = v ∧ v ≠ 0

/-- The header says what the caller's says. -/
structure HeaderGiven (hdr : Kcmdhdr) (p : ProtoCmdhdr) : Prop where
  clusterversion : p.clusterversion = some hdr.kchClustvers
  connectionid : p.connectionid = some hdr.kchConnid
  messagetype : p.messagetype = some hdr.kchType
  sequence : p.sequence = some (BitVec.ofNat 64 hdr.kchSeq)
  timeout : PresentNonzero p.timeout hdr.kchTimeout
  priority : PresentNonzero p.priority hdr.kchPri
  timequanta : PresentNonzero p.timequanta hdr.kchQuanta
  batchid : PresentNonzero p.batchid hdr.kchBid

/-- A body with what the operation built in its slot, and nothing in the others. -/
def CmdData.slot : CmdData → KprotoBody
  | .keyvalue d => { keyvalue := some d }
  | .getlog d => { getlog := some d }
  | .range d => { range := some d }
  | .batch d => { batch := some d }
  | .manageapplet d => { manageapplet := some d }

/-- The body that a request is to have: noops and flushes carry none. -/
def carriedBody (hdr : Kcmdhdr) (data : CmdData) : KprotoBody :=
  if hdr.kchType = .kmtNoop ∨ hdr.kchType = .kmtFlush then {} else data.slot

/-- The command is the request. -/
structure Carries (hdr : Kcmdhdr) (data : CmdData) (c : ProtoCmd KprotoBody) : Prop where
  header : ∃ p, c.header = some p ∧ HeaderGiven hdr p
  body : c.body = carriedBody hdr data

section Decode
variable {L : Lib KprotoBody} {hdr : Kcmdhdr} {data : CmdData}

theorem presentNonzero_if (v : ℕ) : PresentNonzero (if v ≠ 0 then some v else none) v := by
  intro w
  split_ifs with hv
  · rw [Option.some.injEq]
    exact ⟨fun h => ⟨h.symm, hv⟩, fun h => h.1.symm⟩
  · constructor
    · nofun
    · rintro ⟨-, hne⟩
      exact absurd hne hv

/-- **The header** of a command. -/
theorem headerGiven (hdr : Kcmdhdr) : HeaderGiven hdr (extractToCommandHeader hdr) where
  clusterversion := rfl
  connectionid := rfl
  messagetype := rfl
  sequence := rfl
  timeout := presentNonzero_if _
  priority := presentNonzero_if _
  timequanta := presentNonzero_if _
  batchid := presentNonzero_if _

/-- **The switch** puts what was built into its slot, and has no case for the abort of a batch. -/
theorem stitch_built (h : Built hdr data) :
    stitch hdr.kchType data =
      some (if hdr.kchType = .kmtAbortbat then {} else carriedBody hdr data) := by
  unfold carriedBody
  cases h with
  | getkey ht _ =>
    simp only [List.mem_cons, List.not_mem_nil, or_false] at ht
    rcases ht with ht | ht | ht | ht <;> rw [ht] <;> rfl
  | batch ops ht =>
    simp only [List.mem_cons, List.not_mem_nil, or_false] at ht
    rcases ht with ht | ht | ht <;> rw [ht] <;> rfl
  | put ht _ => rw [ht]; rfl
  | del ht _ => rw [ht]; rfl
  | getlog ht _ => rw [ht]; rfl
  | rangekey _ _ _ ht => rw [ht]; rfl
  | exec ht _ => rw [ht]; rfl
  | noop ht _ => rw [ht]; rfl
  | flush ht _ => rw [ht]; rfl

/-- The abort of a batch is built with a count. -/
theorem built_abort (h : Built hdr data) (ht : hdr.kchType = .kmtAbortbat) :
    ∃ ops, data = batchData ops := by
  cases h with
  | batch ops _ => exact ⟨ops, rfl⟩
  | getkey ht' _ => simp [ht] at ht'
  | put ht' _ | del ht' _ | getlog ht' _ | rangekey _ _ _ ht' | exec ht' _ | noop ht' _
    | flush ht' _ => simp [ht] at ht'

theorem carriedBody_abort (ht : hdr.kchType = .kmtAbortbat) (ops : ℕ) :
    carriedBody hdr (batchData ops) ≠ {} := by
  simp [carriedBody, ht, batchData, CmdData.slot]

/-- The bytes of a request decode to this command, and to no other. -/
theorem unpack_createCommandBytes
    (hinv : ∀ c, L.unpackKineticCommand (L.packKineticCommand c) = some c) (h : Built hdr data)
    {bytes : List Byte} (hbytes : createCommandBytes L hdr data = some bytes) :
    L.unpackKineticCommand bytes = some
      { header := some (extractToCommandHeader hdr)
        body := if hdr.kchType = .kmtAbortbat then {} else carriedBody hdr data } := by
  rw [createCommandBytes, stitch_built h, Option.map_some, Option.some.injEq] at hbytes
  rw [← hbytes]
  exact hinv _

/-- **The command bytes** of a request decode to the request exactly if it is not the abort of a
batch. -/
theorem command_bytes_iff (L : Lib KprotoBody)
    (hinv : ∀ c, L.unpackKineticCommand (L.packKineticCommand c) = some c) {hdr : Kcmdhdr}
    {data : CmdData} (h : Built hdr data) :
    (∃ bytes c, createCommandBytes L hdr data = some bytes ∧
        L.unpackKineticCommand bytes = some c ∧ Carries hdr data c) ↔
      hdr.kchType ≠ .kmtAbortbat := by
  constructor
  · rintro ⟨bytes, c, hbytes, hc, -, hbody⟩ ht
    obtain ⟨ops, rfl⟩ := built_abort h ht
    rw [unpack_createCommandBytes hinv h hbytes, Option.some.injEq] at hc
    rw [← hc, if_pos ht] at hbody
    exact carriedBody_abort ht ops hbody.symm
  · intro hne
    have hbytes : createCommandBytes L hdr data =
        some (Wire.createCommandBytes L hdr (carriedBody hdr data)) := by
      rw [createCommandBytes, stitch_built h, if_neg hne]
      rfl
    refine ⟨_, _, hbytes, unpack_createCommandBytes hinv h hbytes, ⟨_, rfl, headerGiven hdr⟩, ?_⟩
    exact if_neg hne

/-- The requests for a batch carry the body that the switch leaves of theirs. -/
theorem stitch_batch {ops : ℕ}
    (ht : hdr.kchType ∈ [Kmtype.kmtStartbat, .kmtEndbat, .kmtAbortbat]) :
    stitch hdr.kchType (batchData ops) =
      some { batch := (batchCommand hdr (uint32 ops)).body.map fun n => { count := some n } } := by
  simp only [List.mem_cons, List.not_mem_nil, or_false] at ht
  rcases ht with ht | ht | ht <;> simp [ht, stitch, batchData, batchCommand]

end Decode

/-! ### Two requests -/

instance encodableFloat : Encodable (BitVec 32) :=
  Encodable.ofLeftInverse BitVec.toNat (BitVec.ofNat 32) fun x => by simp

deriving instance Encodable for Kditype, Kcachepolicy, KprotoKv, RangeReq, Kgltype,
  KprotoUtilization, KprotoTemperature, KprotoCapacity, KprotoInterface, KprotoConfiguration,
  KprotoStatistics, KprotoLimits, KgetlogDeviceInfo, KprotoGetlog, KprotoBatch, Kfn, KprotoKapplet,
  KprotoBody

/-- A header of the connection of the test. -/
def connHdr (t : Kmtype) (bid : ℕ) : Kcmdhdr :=
  { kchConnid := 1171500672, kchSeq := 7, kchType := t, kchBid := bid }

/-- A getlog of the types 0 to 6. -/
def allTypes : Kgetlog where
  kglType := .ref [.kgltUtilizations, .kgltTemperatures, .kgltCapacities, .kgltConfiguration,
    .kgltStatistics, .kgltMessages, .kgltLimits]
  kglTypecnt := 7

/-- The bytes of the abort of the batch 1000, with a body of no bytes. -/
def abortBytes : List Byte :=
  [0x0a, 0x0f, 0x08, 0x00, 0x18, 0x80, 0xdd, 0xce, 0xae, 0x04, 0x20, 0x07, 0x38, 0x2e, 0x70, 0xe8,
    0x07, 0x12, 0x00]

/-- The commands of the two requests with their bytes. -/
def builtCmds : List (ProtoCmd KprotoBody × List Byte) :=
  [({ header := some (extractToCommandHeader (connHdr .kmtGetlog 0))
      body := { getlog := some (extractToCommandBody allTypes) } }, Wire.testCmdBytes 7),
    ({ header := some (extractToCommandHeader (connHdr .kmtAbortbat 1000)), body := {} },
      abortBytes)]

/-- The libraries, as far as these requests go. -/
def commandLib : Lib KprotoBody where
  packKineticCommand := Wire.tablePack builtCmds
  unpackKineticCommand := Wire.tableUnpack builtCmds
  packKineticMessage := Wire.tablePack []
  unpackKineticMessage := Wire.tableUnpack []
  hmacInitEx key n := if key = [] then none else some (key.take n.toNat)
  hmacSha1 _ _ := List.replicate 20 0

theorem commandLib_inverse (c : ProtoCmd KprotoBody) :
    commandLib.unpackKineticCommand (commandLib.packKineticCommand c) = some c :=
  Wire.tableUnpack_tablePack c builtCmds (by decide) (by decide)

/-- The getlog decodes to itself. -/
theorem getlog_command_bytes :
    ∃ bytes c, createCommandBytes commandLib (connHdr .kmtGetlog 0)
          (.getlog (extractToCommandBody allTypes)) = some bytes ∧
        commandLib.unpackKineticCommand bytes = some c ∧
        Carries (connHdr .kmtGetlog 0) (.getlog (extractToCommandBody allTypes)) c :=
  (command_bytes_iff commandLib commandLib_inverse
    (@Built.getlog {} (connHdr .kmtGetlog 0) allTypes _ rfl rfl)).mpr (by decide)

/-- **The abort of a batch** is built with the count of its operations, and goes out without. -/
theorem abort_command_bytes :
    (∀ c, commandLib.unpackKineticCommand (commandLib.packKineticCommand c) = some c) ∧
      Built (connHdr .kmtAbortbat 1000) (batchData 2) ∧
      createCommandBytes commandLib (connHdr .kmtAbortbat 1000) (batchData 2) = some abortBytes ∧
      ¬ ∃ c, commandLib.unpackKineticCommand abortBytes = some c ∧
        Carries (connHdr .kmtAbortbat 1000) (batchData 2) c := by
  have hbuilt : Built (connHdr .kmtAbortbat 1000) (batchData 2) := .batch 2 (by decide)
  have hbytes : createCommandBytes commandLib (connHdr .kmtAbortbat 1000) (batchData 2) =
      some abortBytes := by
    decide +kernel
  have ht : (connHdr .kmtAbortbat 1000).kchType = .kmtAbortbat := rfl
  refine ⟨commandLib_inverse, hbuilt, hbytes, ?_⟩
  rintro ⟨c, hc, -, hbody⟩
  rw [unpack_createCommandBytes commandLib_inverse hbuilt hbytes, Option.some.injEq] at hc
  rw [← hc, if_pos ht] at hbody
  exact carriedBody_abort ht 2 hbody.symm

end Libkinetic.Kinetic
