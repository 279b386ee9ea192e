import Libkinetic.Base.Outcomes
import Libkinetic.Kinetic.Request
import Libkinetic.Kinetic.Wire

/-! # Logs of a server

`ki_getlog` fills a structure on its stack from the response, in memory that was not initialised and
in arrays that it allocates, and copies it to the caller's when that went well. A field of the
response that is not set leaves the memory as it was. -/

namespace Libkinetic.Kinetic

open Libkinetic.Base.Outcomes

/-! ### The structures -/

/-- A pointer as memory holds it: null, to something, or to an address that nobody stored. -/
inductive Ptr (α : Type)
  | null
  | ref (a : α)
  | wild (addr : ℕ)
deriving DecidableEq

namespace Ptr
variable {α : Type}

def ofOption : Option α → Ptr α
  | none => null
  | some a => ref a

/-- An array of `n` elements that is not allocated for none. -/
def ofList : List α → Ptr (List α)
  | [] => null
  | a :: l => ref (a :: l)

/-- What a pointer of the caller refers to. -/
def get? : Ptr α → Option α
  | ref a => some a
  | null => none
  | wild _ => none

end Ptr

/-- `kgltype_t`; the caller may leave any number there. -/
inductive Kgltype
  | kgltUtilizations | kgltTemperatures | kgltCapacities | kgltConfiguration | kgltStatistics
  | kgltMessages | kgltLimits | kgltLog
  | other (z : ℤ)
deriving DecidableEq

/-- `kutilization_t`; a `float` is its bits. -/
structure Kutilization where
  kuName : Ptr (List Byte) := .null
  kuValue : BitVec 32 := 0
deriving DecidableEq

/-- `ktemperature_t` -/
structure Ktemperature where
  ktName : Ptr (List Byte) := .null
  ktCur : BitVec 32 := 0
  ktMin : BitVec 32 := 0
  ktMax : BitVec 32 := 0
  ktTarget : BitVec 32 := 0
deriving DecidableEq

/-- `kcapacity_t` -/
structure Kcapacity where
  kcTotal : BitVec 64 := 0
  kcUsed : BitVec 32 := 0
deriving DecidableEq

/-- `kinterface_t` -/
structure Kinterface where
  kiName : Ptr (List Byte) := .null
  kiMac : Ptr (List Byte) := .null
  kiIpv4 : Ptr (List Byte) := .null
  kiIpv6 : Ptr (List Byte) := .null
deriving DecidableEq

/-- `kconfiguration_t`; the power level is its number. -/
structure Kconfiguration where
  kcfVendor : Ptr (List Byte) := .null
  kcfModel : Ptr (List Byte) := .null
  kcfSerial : Ptr (List Byte) := .null
  kcfWwn : Ptr (List Byte) := .null
  kcfVersion : Ptr (List Byte) := .null
  kcfCompdate : Ptr (List Byte) := .null
  kcfSrchash : Ptr (List Byte) := .null
  kcfProto : Ptr (List Byte) := .null
  kcfProtocompdate : Ptr (List Byte) := .null
  kcfProtosrchash : Ptr (List Byte) := .null
  kcfInterfaces : Ptr (List Kinterface) := .null
  kcfInterfacescnt : ℕ := 0
  kcfPort : BitVec 32 := 0
  kcfTlsport : BitVec 32 := 0
  kcfPower : ℤ := 0
deriving DecidableEq

/-- `kstatistics_t`; the message type is its number. -/
structure Kstatistics where
  ksMtype : ℤ := 0
  ksCnt : BitVec 64 := 0
  ksBytes : BitVec 64 := 0
  ksMaxlatency : BitVec 64 := 0
deriving DecidableEq

/-- `klimits_t` with all its fields. -/
structure KgetlogLimits extends Klimits where
  klMsglen : ℕ
  klPinlen : ℕ
  klPendrdcnt : ℕ
  klPendwrcnt : ℕ
  klConncnt : ℕ
  klIdcnt : ℕ

/-- `kdevicelog_t` -/
structure Kdevicelog where
  kdlName : Ptr (List Byte) := .null
  kdlLen : ℕ := 0
deriving DecidableEq

/-! ### The response -/

/-- `kproto_utilization_t` -/
structure KprotoUtilization where
  name : Option (List Byte) := none
  value : Option (BitVec 32) := none
deriving DecidableEq

/-- `kproto_temperature_t` -/
structure KprotoTemperature where
  name : Option (List Byte) := none
  current : Option (BitVec 32) := none
  minimum : Option (BitVec 32) := none
  maximum : Option (BitVec 32) := none
  target : Option (BitVec 32) := none
deriving DecidableEq

/-- `kproto_capacity_t` -/
structure KprotoCapacity where
  nominalcapacityinbytes : Option (BitVec 64) := none
  portionfull : Option (BitVec 32) := none
deriving DecidableEq

/-- `kproto_interface_t` -/
structure KprotoInterface where
  name : Option (List Byte) := none
  mac : Option (List Byte) := none
  ipv4address : Option (List Byte) := none
  ipv6address : Option (List Byte) := none
deriving DecidableEq

/-- `kproto_configuration_t` -/
structure KprotoConfiguration where
  vendor : Option (List Byte) := none
  model : Option (List Byte) := none
  serialnumber : Option (List Byte) := none
  worldwidename : Option (List Byte) := none
  version : Option (List Byte) := none
  compilationdate : Option (List Byte) := none
  sourcehash : Option (List Byte) := none
  protocolversion : Option (List Byte) := none
  protocolcompilationdate : Option (List Byte) := none
  protocolsourcehash : Option (List Byte) := none
  interface : List KprotoInterface := []
  port : Option (BitVec 32) := none
  tlsport : Option (BitVec 32) := none
  currentpowerlevel : Option ℤ := none
deriving DecidableEq

/-- `kproto_statistics_t` -/
structure KprotoStatistics where
  messagetype : Option ℤ := none
  count : Option (BitVec 64) := none
  bytes : Option (BitVec 64) := none
  maxlatency : Option (BitVec 64) := none
deriving DecidableEq

/-- `kproto_limits_t` -/
structure KprotoLimits where
  maxkeysize : Option ℕ := none
  maxvaluesize : Option ℕ := none
  maxversionsize : Option ℕ := none
  maxtagsize : Option ℕ := none
  maxconnections : Option ℕ := none
  maxoutstandingreadrequests : Option ℕ := none
  maxoutstandingwriterequests : Option ℕ := none
  maxmessagesize : Option ℕ := none
  maxkeyrangecount : Option ℕ := none
  maxidentitycount : Option ℕ := none
  maxpinsize : Option ℕ := none
  maxoperationcountperbatch : Option ℕ := none
  maxbatchcountperdevice : Option ℕ := none
  maxbatchsize : Option ℕ := none
  maxdeletesperbatch : Option ℕ := none
deriving DecidableEq

/-- `kgetlog_device_info` -/
structure KgetlogDeviceInfo where
  name : Option (List Byte) := none
deriving DecidableEq

/-- `kproto_getlog_t`; a request has types and a device. -/
structure KprotoGetlog where
  types : List Kgltype := []
  utilizations : List KprotoUtilization := []
  temperatures : List KprotoTemperature := []
  capacity : Option KprotoCapacity := none
  configuration : Option KprotoConfiguration := none
  statistics : List KprotoStatistics := []
  messages : Option (List Byte) := none
  limits : Option KprotoLimits := none
  device : Option KgetlogDeviceInfo := none
deriving DecidableEq

/-- The functions that `destroy_protobuf` may refer to. -/
inductive GetlogDestructor
  | destroyProtobufGetlog
deriving DecidableEq

/-- `klimits_t` filled with zeros. -/
def zeroLimits : KgetlogLimits :=
  { klKeylen := 0, klVallen := 0, klVerlen := 0, klDisumlen := 0, klBatlen := 0,
    klRangekeycnt := 0, klBatopscnt := 0, klBatdelcnt := 0, klDevbatcnt := 0, klMsglen := 0,
    klPinlen := 0, klPendrdcnt := 0, klPendwrcnt := 0, klConncnt := 0, klIdcnt := 0 }

/-- `kgetlog_t` -/
structure Kgetlog where
  kglType : Ptr (List Kgltype) := .null
  kglTypecnt : ℕ := 0
  kglUtil : Ptr (List Kutilization) := .null
  kglUtilcnt : ℕ := 0
  kglTemp : Ptr (List Ktemperature) := .null
  kglTempcnt : ℕ := 0
  kglCap : Kcapacity := {}
  kglConf : Kconfiguration := {}
  kglStat : Ptr (List Kstatistics) := .null
  kglStatcnt : ℕ := 0
  kglMsgs : Ptr (List Byte) := .null
  kglMsgslen : ℕ := 0
  kglLimits : KgetlogLimits := zeroLimits
  kglLog : Kdevicelog := {}
  kglProtobuf : Ptr (RespCmd KprotoGetlog) := .null
  destroyProtobuf : Ptr GetlogDestructor := .null

/-! ### The request -/

/-- The types that are asked for. -/
def Kgetlog.types (glog : Kgetlog) : List Kgltype :=
  (glog.kglType.get?.getD []).take glog.kglTypecnt

/-- The types that a request may ask for. -/
def kgltTypes : List Kgltype :=
  [.kgltUtilizations, .kgltTemperatures, .kgltCapacities, .kgltConfiguration, .kgltStatistics,
    .kgltMessages, .kgltLimits, .kgltLog]

/-- `ki_validate_glog` does not fail. -/
def kiValidateGlog (glrq : Kgetlog) : Bool :=
  decide (glrq.kglType ≠ .null ∧ glrq.kglTypecnt ≠ 0) &&
    (glrq.types.all fun t => decide (t ∈ kgltTypes)) &&
    (kgltTypes.all fun t => decide (glrq.types.count t ≤ 1)) &&
    (if .kgltLog ∈ glrq.types then
      decide (glrq.kglLog.kdlName ≠ .null ∧ glrq.kglLog.kdlLen ≠ 0 ∧ glrq.kglLog.kdlLen ≤ 1024)
    else decide (glrq.kglLog.kdlName = .null)) &&
    decide (glrq.kglUtil = .null ∧ glrq.kglUtilcnt = 0 ∧ glrq.kglTemp = .null ∧
      glrq.kglTempcnt = 0 ∧ glrq.kglStat = .null ∧ glrq.kglStatcnt = 0 ∧ glrq.kglMsgs = .null ∧
      glrq.kglMsgslen = 0)

/-- `extract_to_command_body`; the structure of the device gets its memory. -/
def extractToCommandBody (cmdData : Kgetlog) : KprotoGetlog where
  types := cmdData.types
  device :=
    if cmdData.kglLog.kdlName ≠ .null then
      some { name := some (Wire.cString (cmdData.kglLog.kdlName.get?.getD [])) }
    else none

/-- `create_getlog_message` -/
def createGetlogMessage (m : MsgEnv) (hdr : Kcmdhdr) (cmdBody : Kgetlog) :
    Option (Request KprotoGetlog) :=
  createMessage m ⟨hdr, extractToCommandBody cmdBody⟩

/-! ### Extraction -/

/-- What the uninitialised memory holds: the structure on the stack, and the elements of the arrays
when they are allocated. -/
structure GetlogMem where
  glog2 : Kgetlog
  util : ℕ → Kutilization
  temp : ℕ → Ktemperature
  stat : ℕ → Kstatistics
  interface : ℕ → Kinterface

/-- The allocations that succeed. -/
structure GetlogAlloc where
  util : Bool := true
  temp : Bool := true
  stat : Bool := true
  interfaces : Bool := true
  serial : Bool := true
  wwn : Bool := true
  mac : ℕ → Bool := fun _ => true
  ipv4 : ℕ → Bool := fun _ => true
  ipv6 : ℕ → Bool := fun _ => true

/-- `extract_primitive_optional` -/
def extractPrimitiveOptional {α : Type} (field : Option α) (lvar : α) : α := field.getD lvar

/-- The pointer of a field of bytes. -/
def bytesData (b : List Byte) : Ptr (List Byte) := .ofOption (unpackedBytes b)

/-- `helper_bytes_to_str`, without the zero that ends the string. -/
def helperBytesToStr (alloc : Bool) (protoBytes : List Byte) : Ptr (List Byte) :=
  if alloc then .ref protoBytes else .null

/-- What the extraction of an array shares: no array for no elements, and a failure if it cannot be
allocated; the elements are filled one by one in the memory that was allocated. -/
def extractArray {α β : Type} (alloc : Bool) (mem : ℕ → α) (fill : ℕ → α → β → α) (data : List β) :
    Bool × Ptr (List α) :=
  if data.length = 0 then (true, .null)
  else if ¬ alloc then (false, .null)
  else (true, .ref (data.mapIdx fun ndx b => fill ndx (mem ndx) b))

def fillUtilization (ku : Kutilization) (u : KprotoUtilization) : Kutilization where
  kuName := .ofOption u.name
  kuValue := extractPrimitiveOptional u.value ku.kuValue

/-- `extract_utilizations`; the error is the structure that is left by a failure. -/
def extractUtilizations (alloc : Bool) (mem : ℕ → Kutilization) (utilData : List KprotoUtilization)
    (g : Kgetlog) : Except Kgetlog Kgetlog :=
  let (ok, util) := extractArray alloc mem (fun _ => fillUtilization) utilData
  let g := { g with kglUtilcnt := uint32 utilData.length, kglUtil := util }
  if ok then .ok g else .error g

def fillTemperature (kt : Ktemperature) (t : KprotoTemperature) : Ktemperature where
  ktName := .ofOption t.name
  ktCur := extractPrimitiveOptional t.current kt.ktCur
  ktMin := extractPrimitiveOptional t.minimum kt.ktMin
  ktMax := extractPrimitiveOptional t.maximum kt.ktMax
  ktTarget := extractPrimitiveOptional t.target kt.ktTarget

/-- `extract_temperatures` -/
def extractTemperatures (alloc : Bool) (mem : ℕ → Ktemperature) (tempData : List KprotoTemperature)
    (g : Kgetlog) : Except Kgetlog Kgetlog :=
  let (ok, temp) := extractArray alloc mem (fun _ => fillTemperature) tempData
  let g := { g with kglTempcnt := uint32 tempData.length, kglTemp := temp }
  if ok then .ok g else .error g

def fillStatistics (ks : Kstatistics) (s : KprotoStatistics) : Kstatistics where
  ksMtype := extractPrimitiveOptional s.messagetype ks.ksMtype
  ksCnt := extractPrimitiveOptional s.count ks.ksCnt
  ksBytes := extractPrimitiveOptional s.bytes ks.ksBytes
  ksMaxlatency := extractPrimitiveOptional s.maxlatency ks.ksMaxlatency

/-- `extract_statistics` -/
def extractStatistics (alloc : Bool) (mem : ℕ → Kstatistics) (statData : List KprotoStatistics)
    (g : Kgetlog) : Except Kgetlog Kgetlog :=
  let (ok, stat) := extractArray alloc mem (fun _ => fillStatistics) statData
  let g := { g with kglStatcnt := uint32 statData.length, kglStat := stat }
  if ok then .ok g else .error g

def fillInterface (alloc : GetlogAlloc) (ndx : ℕ) (ki : Kinterface) (i : KprotoInterface) :
    Kinterface where
  kiName := .ofOption i.name
  kiMac := extractPrimitiveOptional (i.mac.map (helperBytesToStr (alloc.mac ndx))) ki.kiMac
  kiIpv4 := extractPrimitiveOptional (i.ipv4address.map (helperBytesToStr (alloc.ipv4 ndx))) ki.kiIpv4
  kiIpv6 := extractPrimitiveOptional (i.ipv6address.map (helperBytesToStr (alloc.ipv6 ndx))) ki.kiIpv6

/-- `extract_interfaces` -/
def extractInterfaces (alloc : GetlogAlloc) (mem : ℕ → Kinterface) (ifData : List KprotoInterface) :
    Bool × Ptr (List Kinterface) :=
  extractArray alloc.interfaces mem (fillInterface alloc) ifData

/-- The fields of a configuration up to its interfaces. -/
def fillConfiguration (alloc : GetlogAlloc) (config : KprotoConfiguration) (kcf : Kconfiguration) :
    Kconfiguration :=
  { kcf with
    kcfVendor := .ofOption config.vendor
    kcfModel := .ofOption config.model
    kcfSerial :=
      extractPrimitiveOptional (config.serialnumber.map (helperBytesToStr alloc.serial)) kcf.kcfSerial
    kcfWwn :=
      extractPrimitiveOptional (config.worldwidename.map (helperBytesToStr alloc.wwn)) kcf.kcfWwn
    kcfVersion := .ofOption config.version
    kcfCompdate := .ofOption config.compilationdate
    kcfSrchash := .ofOption config.sourcehash
    kcfProto := .ofOption config.protocolversion
    kcfProtocompdate := .ofOption config.protocolcompilationdate
    kcfProtosrchash := .ofOption config.protocolsourcehash
    kcfPort := extractPrimitiveOptional config.port kcf.kcfPort
    kcfTlsport := extractPrimitiveOptional config.tlsport kcf.kcfTlsport
    kcfPower := extractPrimitiveOptional config.currentpowerlevel kcf.kcfPower }

/-- `extract_configuration` -/
def extractConfiguration (alloc : GetlogAlloc) (mem : ℕ → Kinterface)
    (config : Option KprotoConfiguration) (g : Kgetlog) : Except Kgetlog Kgetlog :=
  match config with
  | none => .ok { g with kglConf := {} }
  | some config =>
    let kcf := fillConfiguration alloc config g.kglConf
    let (ok, interfaces) := extractInterfaces alloc mem config.interface
    let kcf := { kcf with kcfInterfaces := interfaces }
    if ok then
      .ok { g with kglConf := { kcf with kcfInterfacescnt := uint32 config.interface.length } }
    else .error { g with kglConf := kcf }

def fillLimits (limits : KprotoLimits) (kl : KgetlogLimits) : KgetlogLimits where
  klKeylen := extractPrimitiveOptional limits.maxkeysize kl.klKeylen
  klVallen := extractPrimitiveOptional limits.maxvaluesize kl.klVallen
  klVerlen := extractPrimitiveOptional limits.maxversionsize kl.klVerlen
  klDisumlen := extractPrimitiveOptional limits.maxtagsize kl.klDisumlen
  klMsglen := extractPrimitiveOptional limits.maxmessagesize kl.klMsglen
  klPinlen := extractPrimitiveOptional limits.maxpinsize kl.klPinlen
  klBatlen := extractPrimitiveOptional limits.maxbatchsize kl.klBatlen
  klPendrdcnt := extractPrimitiveOptional limits.maxoutstandingreadrequests kl.klPendrdcnt
  klPendwrcnt := extractPrimitiveOptional limits.maxoutstandingwriterequests kl.klPendwrcnt
  klConncnt := extractPrimitiveOptional limits.maxconnections kl.klConncnt
  klIdcnt := extractPrimitiveOptional limits.maxidentitycount kl.klIdcnt
  klRangekeycnt := extractPrimitiveOptional limits.maxkeyrangecount kl.klRangekeycnt
  klBatopscnt := extractPrimitiveOptional limits.maxoperationcountperbatch kl.klBatopscnt
  klBatdelcnt := extractPrimitiveOptional limits.maxdeletesperbatch kl.klBatdelcnt
  klDevbatcnt := extractPrimitiveOptional limits.maxbatchcountperdevice kl.klDevbatcnt

/-- `extract_limits` -/
def extractLimits (g : Kgetlog) (limits : Option KprotoLimits) : Kgetlog :=
  match limits with
  | none => { g with kglLimits := zeroLimits }
  | some limits => { g with kglLimits := fillLimits limits zeroLimits }

/-- The messages, if they are there. -/
def extractMessages (g : Kgetlog) (resp : KprotoGetlog) : Kgetlog :=
  { g with
    kglMsgs := extractPrimitiveOptional (resp.messages.map bytesData) g.kglMsgs
    kglMsgslen := extractPrimitiveOptional (resp.messages.map List.length) g.kglMsgslen }

def extractCapacity (g : Kgetlog) (resp : KprotoGetlog) : Kgetlog :=
  match resp.capacity with
  | none => g
  | some capacity =>
    { g with
      kglCap :=
        { kcTotal := extractPrimitiveOptional capacity.nominalcapacityinbytes g.kglCap.kcTotal
          kcUsed := extractPrimitiveOptional capacity.portionfull g.kglCap.kcUsed } }

/-- The name of the device, if there is one. -/
def extractDevice (g : Kgetlog) (resp : KprotoGetlog) : Kgetlog :=
  match resp.device.bind (·.name) with
  | none => g
  | some name => { g with kglLog := { kdlName := bytesData name, kdlLen := name.length } }

/-- What `extract_getlog` does with the body of the response. -/
def extractBody (alloc : GetlogAlloc) (mem : GetlogMem) (resp : KprotoGetlog) (g : Kgetlog) :
    Except Kgetlog Kgetlog := do
  let g := { g with kglTypecnt := resp.types.length, kglType := .ofList resp.types }
  let g ← extractUtilizations alloc.util mem.util resp.utilizations g
  let g ← extractTemperatures alloc.temp mem.temp resp.temperatures g
  let g ← extractStatistics alloc.stat mem.stat resp.statistics g
  let g := extractMessages g resp
  let g := extractCapacity g resp
  let g ← extractConfiguration alloc mem.interface resp.configuration g
  let g := extractLimits g resp.limits
  return extractDevice g resp

/-! ### Destruction -/

/-- What is done to the memory that a structure refers to. -/
inductive GetlogEv
  | destroyCommand (p : Ptr (RespCmd KprotoGetlog))
  | freeUtil (p : Ptr (List Kutilization))
  | freeTemp (p : Ptr (List Ktemperature))
  | freeStat (p : Ptr (List Kstatistics))
  | freeSerial (p : Ptr (List Byte))
  | freeWwn (p : Ptr (List Byte))
  | freeInterfaces (p : Ptr (List Kinterface))
  /-- A call through a pointer that is no destructor. -/
  | jump (p : Ptr GetlogDestructor)

/-- `KI_FREE` of a pointer that is not null. -/
def freed {α : Type} [DecidableEq α] (ev : Ptr α → GetlogEv) (p : Ptr α) : List GetlogEv :=
  if p ≠ .null then [ev p] else []

/-- `destroy_protobuf_getlog` -/
def destroyProtobufGetlog (g : Kgetlog) : List GetlogEv :=
  .destroyCommand g.kglProtobuf ::
    freed .freeUtil g.kglUtil ++ freed .freeTemp g.kglTemp ++ freed .freeStat g.kglStat ++
      freed .freeSerial g.kglConf.kcfSerial ++ freed .freeWwn g.kglConf.kcfWwn ++
      freed .freeInterfaces g.kglConf.kcfInterfaces

/-- A call of the hook of a structure. -/
def destroyProtobuf (g : Kgetlog) : List GetlogEv :=
  match g.destroyProtobuf with
  | .ref .destroyProtobufGetlog => destroyProtobufGetlog g
  | p => [.jump p]

/-! ### The response of a request -/

/-- **`extract_getlog`**: the status, the structure, and what was destroyed. -/
def extractGetlog (alloc : GetlogAlloc) (mem : GetlogMem) (m : RespMsg KprotoGetlog) (g : Kgetlog) :
    KStatus × Kgetlog × List GetlogEv :=
  match m with
  | .nocmd => (.kEinternal, g, [])
  | .badcmd => (.kEinternal, g, [])
  | .cmd c =>
    let g := { g with kglProtobuf := .ref c, destroyProtobuf := .ref .destroyProtobufGetlog }
    if extractCmdstatusCode c ≠ .kOk then (extractCmdstatusCode c, g, destroyProtobufGetlog g)
    else
      match c.body with
      | none => (.kEinternal, g, destroyProtobufGetlog g)
      | some resp =>
        match extractBody alloc mem resp g with
        | .error g => (.kEinternal, g, destroyProtobufGetlog g)
        | .ok g => (extractCmdstatusCode c, g, [])

/-- What a call returns, what is in the structure of the caller then, and what was destroyed. -/
structure GetlogDone where
  krc : KStatus
  glog : Kgetlog
  events : List GetlogEv := []

/-- What is made of the kio that comes back. -/
def getlogResult (alloc : GetlogAlloc) (mem : GetlogMem) (resp : Resp KprotoGetlog)
    (glog : Kgetlog) : GetlogDone :=
  match resp with
  | .lost => { krc := .kEinternal, glog }
  | .timedout => { krc := .kEtimedout, glog }
  | .failed => { krc := .kEnomsg, glog }
  | .badpdu => { krc := .kEinternal, glog }
  | .badmsg => { krc := .kEinternal, glog }
  | .msg m =>
    let (krc, glog2, events) := extractGetlog alloc mem m mem.glog2
    if krc = .kOk then { krc, glog := glog2, events }
    else { krc, glog, events := events ++ destroyProtobuf glog2 }

section Call
variable (e : IssueEnv) (ses : Ksession) (glog : Kgetlog)

/-- The request of `ki_getlog`; its PDU is on the stack. -/
def getlogRequest : Except KStatus (Request KprotoGetlog × ℕ) :=
  if ¬ e.config then .error .kEbadsess
  else if ¬ kiValidateGlog glog then .error .kEinval
  else
    buildKio { e with pdu := true }
      (createGetlogMessage e.message { ses.ksCh with kchType := .kmtGetlog } glog) .kEinternal

/-- **`ki_getlog`**; `answer` is what becomes of the kio of a request. -/
def kiGetlog (alloc : GetlogAlloc) (mem : GetlogMem)
    (answer : Request KprotoGetlog → Resp KprotoGetlog) : GetlogDone :=
  match getlogRequest e ses glog with
  | .error krc => { krc, glog }
  | .ok (kmreq, _) => getlogResult alloc mem (answer kmreq) glog

end Call

/-! ### What a successful extraction leaves -/

/-- The arrays that the response needs can be allocated. -/
structure ArraysAllocated (alloc : GetlogAlloc) (resp : KprotoGetlog) : Prop where
  util : resp.utilizations ≠ [] → alloc.util = true
  temp : resp.temperatures ≠ [] → alloc.temp = true
  stat : resp.statistics ≠ [] → alloc.stat = true
  interfaces : ∀ config, resp.configuration = some config → config.interface ≠ [] →
    alloc.interfaces = true

/-- The configuration that a response leaves where `kcf` was. -/
def configurationLeft (alloc : GetlogAlloc) (mem : ℕ → Kinterface)
    (config : Option KprotoConfiguration) (kcf : Kconfiguration) : Kconfiguration :=
  match config with
  | none => {}
  | some config =>
    { fillConfiguration alloc config kcf with
      kcfInterfaces := .ofList (config.interface.mapIdx fun ndx i =>
        fillInterface alloc ndx (mem ndx) i)
      kcfInterfacescnt := uint32 config.interface.length }

/-- The structure that the response `resp` in the command `c` leaves. -/
def glogLeft (alloc : GetlogAlloc) (mem : GetlogMem) (c : RespCmd KprotoGetlog)
    (resp : KprotoGetlog) : Kgetlog where
  kglType := .ofList resp.types
  kglTypecnt := resp.types.length
  kglUtil := .ofList (resp.utilizations.mapIdx fun ndx u => fillUtilization (mem.util ndx) u)
  kglUtilcnt := uint32 resp.utilizations.length
  kglTemp := .ofList (resp.temperatures.mapIdx fun ndx t => fillTemperature (mem.temp ndx) t)
  kglTempcnt := uint32 resp.temperatures.length
  kglCap :=
    { kcTotal := (resp.capacity.bind (·.nominalcapacityinbytes)).getD mem.glog2.kglCap.kcTotal
      kcUsed := (resp.capacity.bind (·.portionfull)).getD mem.glog2.kglCap.kcUsed }
  kglConf := configurationLeft alloc mem.interface resp.configuration mem.glog2.kglConf
  kglStat := .ofList (resp.statistics.mapIdx fun ndx s => fillStatistics (mem.stat ndx) s)
  kglStatcnt := uint32 resp.statistics.length
  kglMsgs := (resp.messages.map bytesData).getD mem.glog2.kglMsgs
  kglMsgslen := (resp.messages.map List.length).getD mem.glog2.kglMsgslen
  kglLimits := (resp.limits.map fun limits => fillLimits limits zeroLimits).getD zeroLimits
  kglLog := ((resp.device.bind (·.name)).map fun name =>
    { kdlName := bytesData name, kdlLen := name.length }).getD mem.glog2.kglLog
  kglProtobuf := .ref c
  destroyProtobuf := .ref .destroyProtobufGetlog

section Extract
variable {alloc : GetlogAlloc} {mem : GetlogMem} {c : RespCmd KprotoGetlog} {resp : KprotoGetlog}

theorem extractArray_of_alloc {α β : Type} {ok : Bool} {mem : ℕ → α} {fill : ℕ → α → β → α}
    {data : List β} (h : data ≠ [] → ok = true) :
    extractArray ok mem fill data =
      (true, .ofList (data.mapIdx fun ndx b => fill ndx (mem ndx) b)) := by
  rcases data with _ | ⟨b, data⟩
  · rfl
  · simp [extractArray, h (by simp), List.mapIdx_cons, Ptr.ofList]

theorem extractArray_of_no_alloc {α β : Type} {ok : Bool} {mem : ℕ → α} {fill : ℕ → α → β → α}
    {data : List β} (h : ¬ (data ≠ [] → ok = true)) :
    extractArray ok mem fill data = (false, .null) := by
  obtain ⟨hne, hok⟩ := Classical.not_imp.mp h
  simp [extractArray, hne, hok]

theorem extractCapacity_eq (g : Kgetlog) (resp : KprotoGetlog) :
    extractCapacity g resp =
      { g with
        kglCap :=
          { kcTotal := (resp.capacity.bind (·.nominalcapacityinbytes)).getD g.kglCap.kcTotal
            kcUsed := (resp.capacity.bind (·.portionfull)).getD g.kglCap.kcUsed } } := by
  unfold extractCapacity
  cases resp.capacity <;> rfl

theorem extractLimits_eq (g : Kgetlog) (limits : Option KprotoLimits) :
    extractLimits g limits =
      { g with
        kglLimits := (limits.map fun limits => fillLimits limits zeroLimits).getD zeroLimits } := by
  cases limits <;> rfl

theorem extractDevice_eq (g : Kgetlog) (resp : KprotoGetlog) :
    extractDevice g resp =
      { g with
        kglLog := ((resp.device.bind (·.name)).map fun name =>
          { kdlName := bytesData name, kdlLen := name.length }).getD g.kglLog } := by
  unfold extractDevice
  cases resp.device.bind (·.name) <;> rfl

theorem extractConfiguration_ok {mem : ℕ → Kinterface} {config : Option KprotoConfiguration}
    (h : ∀ c, config = some c → c.interface ≠ [] → alloc.interfaces = true) (g : Kgetlog) :
    extractConfiguration alloc mem config g =
      .ok { g with kglConf := configurationLeft alloc mem config g.kglConf } := by
  unfold extractConfiguration configurationLeft
  rcases config with _ | config
  · rfl
  · dsimp only
    rw [extractInterfaces, extractArray_of_alloc (h config rfl)]
    rfl

/-- **With its arrays** the body of the response is extracted. -/
theorem extractBody_ok (h : ArraysAllocated alloc resp) :
    extractBody alloc mem resp
      { mem.glog2 with kglProtobuf := .ref c, destroyProtobuf := .ref .destroyProtobufGetlog } =
      .ok (glogLeft alloc mem c resp) := by
  obtain ⟨hutil, htemp, hstat, hif⟩ := h
  unfold extractBody extractUtilizations extractTemperatures extractStatistics
  rw [extractArray_of_alloc hutil, extractArray_of_alloc htemp, extractArray_of_alloc hstat]
  simp only [if_true, bind, Except.bind, extractCapacity_eq, extractConfiguration_ok hif,
    extractLimits_eq, extractDevice_eq]
  rfl

/-- Without them it is not. -/
theorem extractBody_error (h : ¬ ArraysAllocated alloc resp) (mem : GetlogMem) (g : Kgetlog) :
    ∃ g', extractBody alloc mem resp g = .error g' := by
  unfold extractBody extractUtilizations extractTemperatures extractStatistics
  by_cases hutil : resp.utilizations ≠ [] → alloc.util = true
  · rw [extractArray_of_alloc hutil]
    by_cases htemp : resp.temperatures ≠ [] → alloc.temp = true
    · rw [extractArray_of_alloc htemp]
      by_cases hstat : resp.statistics ≠ [] → alloc.stat = true
      · rw [extractArray_of_alloc hstat]
        rcases hc : resp.configuration with _ | config
        · exact absurd ⟨hutil, htemp, hstat, fun config hc' => by rw [hc] at hc'; cases hc'⟩ h
        · have hif : ¬ (config.interface ≠ [] → alloc.interfaces = true) := by
            intro hif
            refine h ⟨hutil, htemp, hstat, fun config' hc' => ?_⟩
            rw [hc, Option.some.injEq] at hc'
            rwa [← hc']
          simp only [if_true, bind, Except.bind, extractConfiguration, extractInterfaces,
            extractArray_of_no_alloc hif]
          exact ⟨_, rfl⟩
      · rw [extractArray_of_no_alloc hstat]
        exact ⟨_, rfl⟩
    · rw [extractArray_of_no_alloc htemp]
      exact ⟨_, rfl⟩
  · rw [extractArray_of_no_alloc hutil]
    exact ⟨_, rfl⟩

end Extract

/-! ### What memory has no part in -/

/-- Everything of a utilization that is copied is set. -/
def KprotoUtilization.Full (u : KprotoUtilization) : Prop := u.value.isSome = true

def KprotoTemperature.Full (t : KprotoTemperature) : Prop :=
  t.current.isSome = true ∧ t.minimum.isSome = true ∧ t.maximum.isSome = true ∧
    t.target.isSome = true

def KprotoStatistics.Full (s : KprotoStatistics) : Prop :=
  s.messagetype.isSome = true ∧ s.count.isSome = true ∧ s.bytes.isSome = true ∧
    s.maxlatency.isSome = true

def KprotoInterface.Full (i : KprotoInterface) : Prop :=
  i.mac.isSome = true ∧ i.ipv4address.isSome = true ∧ i.ipv6address.isSome = true

def KprotoConfiguration.Full (config : KprotoConfiguration) : Prop :=
  config.serialnumber.isSome = true ∧ config.worldwidename.isSome = true ∧
    config.port.isSome = true ∧ config.tlsport.isSome = true ∧
    config.currentpowerlevel.isSome = true ∧ ∀ i ∈ config.interface, i.Full

/-- A response that leaves nothing as it was in memory. Limits, and a configuration that is not
there, are filled with zeros first. -/
structure KprotoGetlog.Full (resp : KprotoGetlog) : Prop where
  util : ∀ u ∈ resp.utilizations, u.Full
  temp : ∀ t ∈ resp.temperatures, t.Full
  stat : ∀ s ∈ resp.statistics, s.Full
  messages : resp.messages.isSome = true
  capacity : (resp.capacity.bind (·.nominalcapacityinbytes)).isSome = true ∧
    (resp.capacity.bind (·.portionfull)).isSome = true
  configuration : ∀ config, resp.configuration = some config → config.Full
  device : (resp.device.bind (·.name)).isSome = true

instance nontrivialBitVec {w : ℕ} : Nontrivial (BitVec (w + 1)) := ⟨0, 1, by simp⟩

instance nontrivialPtr {α : Type} : Nontrivial (Ptr α) := ⟨.null, .wild 0, nofun⟩

instance nontrivialKdevicelog : Nontrivial Kdevicelog := ⟨{}, { kdlLen := 1 }, by decide⟩

/-- Memory filled with zeros. -/
def zeroMem : GetlogMem :=
  { glog2 := {}, util := fun _ => {}, temp := fun _ => {}, stat := fun _ => {},
    interface := fun _ => {} }

/-- The same with another structure on the stack. -/
def GetlogMem.withGlog (mem : GetlogMem) (glog2 : Kgetlog) : GetlogMem := { mem with glog2 }

section Determined

theorem Ptr.ofList_injective {α : Type} : Function.Injective (Ptr.ofList (α := α)) := by
  intro l l' h
  rcases l with _ | ⟨a, l⟩ <;> rcases l' with _ | ⟨a', l'⟩
  · rfl
  · cases h
  · cases h
  · exact Ptr.ref.inj h

/-- An array of the structure. -/
theorem determined_array {α β : Type} (part : GetlogMem → ℕ → α) (hs : Function.Surjective part)
    {fill : ℕ → α → β → α} {data : List β} {P : β → Prop}
    (hfill : ∀ ndx b, (Determined fun a => fill ndx a b) ↔ P b) :
    (Determined fun mem => Ptr.ofList (data.mapIdx fun ndx b => fill ndx (part mem ndx) b)) ↔
      ∀ b ∈ data, P b := by
  rw [determined_map_iff Ptr.ofList_injective]
  exact determined_mapIdx_iff part hs hfill

theorem determined_fillUtilization (u : KprotoUtilization) :
    (Determined fun ku => fillUtilization ku u) ↔ u.Full := by
  have hsplit : (Determined fun ku => fillUtilization ku u) ↔
      Determined fun ku : Kutilization => u.value.getD ku.kuValue := by
    simp only [Determined, fillUtilization, extractPrimitiveOptional, Kutilization.mk.injEq,
      true_and]
  rw [hsplit, determined_getD_iff Kutilization.kuValue fun a => ⟨{ kuValue := a }, rfl⟩]
  rfl

theorem determined_fillTemperature (t : KprotoTemperature) :
    (Determined fun kt => fillTemperature kt t) ↔ t.Full := by
  have hsplit : (Determined fun kt => fillTemperature kt t) ↔
      (Determined fun kt : Ktemperature => t.current.getD kt.ktCur) ∧
      (Determined fun kt : Ktemperature => t.minimum.getD kt.ktMin) ∧
      (Determined fun kt : Ktemperature => t.maximum.getD kt.ktMax) ∧
      Determined fun kt : Ktemperature => t.target.getD kt.ktTarget := by
    simp only [Determined, fillTemperature, extractPrimitiveOptional, Ktemperature.mk.injEq,
      true_and, forall_and]
  rw [hsplit, determined_getD_iff Ktemperature.ktCur fun a => ⟨{ ktCur := a }, rfl⟩,
    determined_getD_iff Ktemperature.ktMin fun a => ⟨{ ktMin := a }, rfl⟩,
    determined_getD_iff Ktemperature.ktMax fun a => ⟨{ ktMax := a }, rfl⟩,
    determined_getD_iff Ktemperature.ktTarget fun a => ⟨{ ktTarget := a }, rfl⟩]
  rfl

theorem determined_fillStatistics (s : KprotoStatistics) :
    (Determined fun ks => fillStatistics ks s) ↔ s.Full := by
  have hsplit : (Determined fun ks => fillStatistics ks s) ↔
      (Determined fun ks : Kstatistics => s.messagetype.getD ks.ksMtype) ∧
      (Determined fun ks : Kstatistics => s.count.getD ks.ksCnt) ∧
      (Determined fun ks : Kstatistics => s.bytes.getD ks.ksBytes) ∧
      Determined fun ks : Kstatistics => s.maxlatency.getD ks.ksMaxlatency := by
    simp only [Determined, fillStatistics, extractPrimitiveOptional, Kstatistics.mk.injEq,
      forall_and]
  rw [hsplit, determined_getD_iff Kstatistics.ksMtype fun a => ⟨{ ksMtype := a }, rfl⟩,
    determined_getD_iff Kstatistics.ksCnt fun a => ⟨{ ksCnt := a }, rfl⟩,
    determined_getD_iff Kstatistics.ksBytes fun a => ⟨{ ksBytes := a }, rfl⟩,
    determined_getD_iff Kstatistics.ksMaxlatency fun a => ⟨{ ksMaxlatency := a }, rfl⟩]
  rfl

theorem determined_fillInterface (alloc : GetlogAlloc) (ndx : ℕ) (i : KprotoInterface) :
    (Determined fun ki => fillInterface alloc ndx ki i) ↔ i.Full := by
  have hsplit : (Determined fun ki => fillInterface alloc ndx ki i) ↔
      (Determined fun ki : Kinterface =>
        (i.mac.map (helperBytesToStr (alloc.mac ndx))).getD ki.kiMac) ∧
      (Determined fun ki : Kinterface =>
        (i.ipv4address.map (helperBytesToStr (alloc.ipv4 ndx))).getD ki.kiIpv4) ∧
      Determined fun ki : Kinterface =>
        (i.ipv6address.map (helperBytesToStr (alloc.ipv6 ndx))).getD ki.kiIpv6 := by
    simp only [Determined, fillInterface, extractPrimitiveOptional, Kinterface.mk.injEq,
      true_and, forall_and]
  rw [hsplit, determined_getD_iff Kinterface.kiMac fun a => ⟨{ kiMac := a }, rfl⟩,
    determined_getD_iff Kinterface.kiIpv4 fun a => ⟨{ kiIpv4 := a }, rfl⟩,
    determined_getD_iff Kinterface.kiIpv6 fun a => ⟨{ kiIpv6 := a }, rfl⟩]
  simp only [Option.isSome_map, KprotoInterface.Full]

theorem determined_configurationLeft {alloc : GetlogAlloc} (config : KprotoConfiguration) :
    (Determined fun mem : GetlogMem => configurationLeft alloc mem.interface (some config)
      mem.glog2.kglConf) ↔ config.Full := by
  have hsplit : (Determined fun mem : GetlogMem => configurationLeft alloc mem.interface
      (some config) mem.glog2.kglConf) ↔
      (Determined fun mem : GetlogMem =>
        (config.serialnumber.map (helperBytesToStr alloc.serial)).getD
          mem.glog2.kglConf.kcfSerial) ∧
      (Determined fun mem : GetlogMem =>
        (config.worldwidename.map (helperBytesToStr alloc.wwn)).getD mem.glog2.kglConf.kcfWwn) ∧
      (Determined fun mem : GetlogMem => Ptr.ofList (config.interface.mapIdx fun ndx i =>
        fillInterface alloc ndx (mem.interface ndx) i)) ∧
      (Determined fun mem : GetlogMem => config.port.getD mem.glog2.kglConf.kcfPort) ∧
      (Determined fun mem : GetlogMem => config.tlsport.getD mem.glog2.kglConf.kcfTlsport) ∧
      Determined fun mem : GetlogMem =>
        config.currentpowerlevel.getD mem.glog2.kglConf.kcfPower := by
    simp only [Determined, configurationLeft, fillConfiguration, extractPrimitiveOptional,
      Kconfiguration.mk.injEq, true_and, forall_and]
  have hif := @determined_array _ _ GetlogMem.interface
    (fun a => ⟨{ zeroMem with interface := a }, rfl⟩) _ config.interface _
    (determined_fillInterface alloc)
  rw [hsplit, hif,
    determined_getD_iff (fun mem : GetlogMem => mem.glog2.kglConf.kcfSerial)
      fun a => ⟨zeroMem.withGlog { kglConf := { kcfSerial := a } }, rfl⟩,
    determined_getD_iff (fun mem : GetlogMem => mem.glog2.kglConf.kcfWwn)
      fun a => ⟨zeroMem.withGlog { kglConf := { kcfWwn := a } }, rfl⟩,
    determined_getD_iff (fun mem : GetlogMem => mem.glog2.kglConf.kcfPort)
      fun a => ⟨zeroMem.withGlog { kglConf := { kcfPort := a } }, rfl⟩,
    determined_getD_iff (fun mem : GetlogMem => mem.glog2.kglConf.kcfTlsport)
      fun a => ⟨zeroMem.withGlog { kglConf := { kcfTlsport := a } }, rfl⟩,
    determined_getD_iff (fun mem : GetlogMem => mem.glog2.kglConf.kcfPower)
      fun a => ⟨zeroMem.withGlog { kglConf := { kcfPower := a } }, rfl⟩]
  simp only [Option.isSome_map, KprotoConfiguration.Full]
  tauto

/-- **The structure** that a response leaves does not depend on memory exactly if the response is
full. -/
theorem determined_glogLeft {alloc : GetlogAlloc} (c : RespCmd KprotoGetlog) (resp : KprotoGetlog) :
    (Determined fun mem => glogLeft alloc mem c resp) ↔ resp.Full := by
  have hsplit : (Determined fun mem => glogLeft alloc mem c resp) ↔
      (Determined fun mem : GetlogMem => Ptr.ofList (resp.utilizations.mapIdx fun ndx u =>
        fillUtilization (mem.util ndx) u)) ∧
      (Determined fun mem : GetlogMem => Ptr.ofList (resp.temperatures.mapIdx fun ndx t =>
        fillTemperature (mem.temp ndx) t)) ∧
      ((Determined fun mem : GetlogMem =>
          (resp.capacity.bind (·.nominalcapacityinbytes)).getD mem.glog2.kglCap.kcTotal) ∧
        Determined fun mem : GetlogMem =>
          (resp.capacity.bind (·.portionfull)).getD mem.glog2.kglCap.kcUsed) ∧
      (Determined fun mem : GetlogMem =>
        configurationLeft alloc mem.interface resp.configuration mem.glog2.kglConf) ∧
      (Determined fun mem : GetlogMem => Ptr.ofList (resp.statistics.mapIdx fun ndx s =>
        fillStatistics (mem.stat ndx) s)) ∧
      (Determined fun mem : GetlogMem =>
        (resp.messages.map bytesData).getD mem.glog2.kglMsgs) ∧
      (Determined fun mem : GetlogMem =>
        (resp.messages.map List.length).getD mem.glog2.kglMsgslen) ∧
      Determined fun mem : GetlogMem => ((resp.device.bind (·.name)).map fun name =>
        Kdevicelog.mk (bytesData name) name.length).getD mem.glog2.kglLog := by
    simp only [Determined, glogLeft, Kgetlog.mk.injEq, Kcapacity.mk.injEq, true_and, and_true,
      forall_and]
  have hutil := @determined_array _ _ GetlogMem.util
    (fun a => ⟨{ zeroMem with util := a }, rfl⟩) _ resp.utilizations _
    fun _ => determined_fillUtilization
  have htemp := @determined_array _ _ GetlogMem.temp
    (fun a => ⟨{ zeroMem with temp := a }, rfl⟩) _ resp.temperatures _
    fun _ => determined_fillTemperature
  have hstat := @determined_array _ _ GetlogMem.stat
    (fun a => ⟨{ zeroMem with stat := a }, rfl⟩) _ resp.statistics _
    fun _ => determined_fillStatistics
  have hconf : (Determined fun mem : GetlogMem =>
      configurationLeft alloc mem.interface resp.configuration mem.glog2.kglConf) ↔
      ∀ config, resp.configuration = some config → config.Full := by
    rcases resp.configuration with _ | config
    · constructor
      · intro _ config hc
        cases hc
      · intro _ _ _
        rfl
    · rw [determined_configurationLeft]
      constructor
      · intro h _ hc
        exact Option.some.inj hc ▸ h
      · intro h
        exact h config rfl
  have htotal := determined_getD_iff (fun mem : GetlogMem => mem.glog2.kglCap.kcTotal)
    (fun a => ⟨zeroMem.withGlog { kglCap := { kcTotal := a } }, rfl⟩)
    (o := resp.capacity.bind (·.nominalcapacityinbytes))
  have hused := determined_getD_iff (fun mem : GetlogMem => mem.glog2.kglCap.kcUsed)
    (fun a => ⟨zeroMem.withGlog { kglCap := { kcUsed := a } }, rfl⟩)
    (o := resp.capacity.bind (·.portionfull))
  have hmsgs := determined_getD_iff (fun mem : GetlogMem => mem.glog2.kglMsgs)
    (fun a => ⟨zeroMem.withGlog { kglMsgs := a }, rfl⟩) (o := resp.messages.map bytesData)
  have hmsgslen := determined_getD_iff (fun mem : GetlogMem => mem.glog2.kglMsgslen)
    (fun a => ⟨zeroMem.withGlog { kglMsgslen := a }, rfl⟩) (o := resp.messages.map List.length)
  have hlog := determined_getD_iff (fun mem : GetlogMem => mem.glog2.kglLog)
    (fun a => ⟨zeroMem.withGlog { kglLog := a }, rfl⟩)
    (o := (resp.device.bind (·.name)).map fun name => Kdevicelog.mk (bytesData name) name.length)
  rw [Option.isSome_map] at hmsgs hmsgslen hlog
  rw [hsplit, hutil, htemp, hstat, hconf, htotal, hused, hmsgs, hmsgslen, hlog]
  constructor
  · rintro ⟨hutil, htemp, hcap, hconf, hstat, hmsgs, -, hlog⟩
    exact ⟨hutil, htemp, hstat, hmsgs, hcap, hconf, hlog⟩
  · rintro ⟨hutil, htemp, hstat, hmsgs, hcap, hconf, hlog⟩
    exact ⟨hutil, htemp, hcap, hconf, hstat, hmsgs, hmsgs, hlog⟩

/-! ### A response of success -/

variable {e : IssueEnv} {ses : Ksession} {glog : Kgetlog} {alloc : GetlogAlloc}
  {answer : Request KprotoGetlog → Resp KprotoGetlog} {c : RespCmd KprotoGetlog}

/-- The request of a call goes out, and is answered with the command `c`. -/
def GetlogAnswered (e : IssueEnv) (ses : Ksession) (glog : Kgetlog)
    (answer : Request KprotoGetlog → Resp KprotoGetlog) (c : RespCmd KprotoGetlog) : Prop :=
  ∃ kmreq msglen, getlogRequest e ses glog = .ok (kmreq, msglen) ∧ answer kmreq = .msg (.cmd c)

/-- What the caller sees of a call: the status, and the structure. -/
def getlogSeen (e : IssueEnv) (ses : Ksession) (glog : Kgetlog) (alloc : GetlogAlloc)
    (answer : Request KprotoGetlog → Resp KprotoGetlog) (mem : GetlogMem) : KStatus × Kgetlog :=
  let done := kiGetlog e ses glog alloc mem answer
  (done.krc, done.glog)

theorem getlogSeen_answered (h : GetlogAnswered e ses glog answer c) (mem : GetlogMem) :
    getlogSeen e ses glog alloc answer mem =
      ((getlogResult alloc mem (.msg (.cmd c)) glog).krc,
        (getlogResult alloc mem (.msg (.cmd c)) glog).glog) := by
  obtain ⟨kmreq, msglen, hreq, hans⟩ := h
  unfold getlogSeen kiGetlog
  rw [hreq, ← hans]

theorem getlogSeen_ok (h : GetlogAnswered e ses glog answer c)
    (hok : extractCmdstatusCode c = .kOk) {resp : KprotoGetlog} (hbody : c.body = some resp)
    (ha : ArraysAllocated alloc resp) (mem : GetlogMem) :
    getlogSeen e ses glog alloc answer mem = (.kOk, glogLeft alloc mem c resp) := by
  rw [getlogSeen_answered h]
  simp only [getlogResult, extractGetlog, hok, hbody, extractBody_ok ha, ne_eq, not_true_eq_false,
    if_false, if_true]

/-- Without a body, or without the arrays for it, nothing is handed over. -/
theorem getlogSeen_failed (h : GetlogAnswered e ses glog answer c)
    (hok : extractCmdstatusCode c = .kOk)
    (hbody : ∀ resp, c.body = some resp → ¬ ArraysAllocated alloc resp) (mem : GetlogMem) :
    getlogSeen e ses glog alloc answer mem = (.kEinternal, glog) := by
  rw [getlogSeen_answered h]
  rcases hb : c.body with _ | resp
  · simp [getlogResult, extractGetlog, hok, hb]
  · obtain ⟨g', hg'⟩ := extractBody_error (hbody resp hb) mem
      { mem.glog2 with kglProtobuf := .ref c, destroyProtobuf := .ref .destroyProtobufGetlog }
    simp [getlogResult, extractGetlog, hok, hb, hg']

/-- **What a getlog hands over** after a response of success is determined by the response exactly if
the response is full, or nothing is handed over at all. -/
theorem getlog_determined_iff (h : GetlogAnswered e ses glog answer c)
    (hok : extractCmdstatusCode c = .kOk) :
    Determined (getlogSeen e ses glog alloc answer) ↔
      ∀ resp, c.body = some resp → ArraysAllocated alloc resp → resp.Full := by
  by_cases hex : ∃ resp, c.body = some resp ∧ ArraysAllocated alloc resp
  · obtain ⟨resp, hbody, ha⟩ := hex
    have hseen : getlogSeen e ses glog alloc answer =
        fun mem => (KStatus.kOk, glogLeft alloc mem c resp) :=
      funext fun mem => getlogSeen_ok h hok hbody ha mem
    rw [hseen, determined_map_iff (Prod.mk_right_injective _), determined_glogLeft]
    constructor
    · intro hfull resp' hbody' _
      rw [hbody, Option.some.injEq] at hbody'
      exact hbody' ▸ hfull
    · intro hall
      exact hall resp hbody ha
  · have hnone : ∀ resp, c.body = some resp → ¬ ArraysAllocated alloc resp := fun resp hbody ha =>
      hex ⟨resp, hbody, ha⟩
    have hseen : getlogSeen e ses glog alloc answer = fun _ => (KStatus.kEinternal, glog) :=
      funext fun mem => getlogSeen_failed h hok hnone mem
    rw [hseen]
    constructor
    · intro _ resp hbody ha
      exact absurd ha (hnone resp hbody)
    · intro _
      exact determined_const _

end Determined

/-! ### Two responses -/

/-- A session and a request for the log of a device. -/
def logSes : Ksession := { ksL := smallLimits }

def logRequest : Kgetlog :=
  { kglType := .ref [.kgltCapacities, .kgltLog], kglTypecnt := 2
    kglLog := { kdlName := .ref [119, 0], kdlLen := 1 } }

/-- A response in which everything is set, with one element in each array. -/
def fullLog : RespCmd KprotoGetlog where
  status := some .kOk
  body := some
    { types := [.kgltCapacities, .kgltLog]
      utilizations := [{ name := some [72], value := some 7 }]
      temperatures :=
        [{ current := some 1, minimum := some 2, maximum := some 3, target := some 4 }]
      capacity := some { nominalcapacityinbytes := some 4096, portionfull := some 5 }
      configuration := some
        { serialnumber := some [49], worldwidename := some [50], port := some 8123
          tlsport := some 8443, currentpowerlevel := some 0
          interface := [{ mac := some [48], ipv4address := some [49], ipv6address := some [50] }] }
      statistics :=
        [{ messagetype := some 2, count := some 1, bytes := some 512, maxlatency := some 9 }]
      messages := some [33]
      device := some { name := some [119] } }

/-- Memory has no part in what is handed over of it. -/
theorem fullLog_determined :
    Determined (getlogSeen { pack := some 40 } logSes logRequest {} fun _ => .msg (.cmd fullLog)) := by
  refine (getlog_determined_iff (c := fullLog) ⟨_, _, rfl, rfl⟩ rfl).mpr ?_
  rintro _ ⟨⟩ _
  refine ⟨?_, ?_, ?_, rfl, ⟨rfl, rfl⟩, ?_, rfl⟩
  · simp [KprotoUtilization.Full]
  · simp [KprotoTemperature.Full]
  · simp [KprotoStatistics.Full]
  · rintro _ ⟨⟩
    simp [KprotoConfiguration.Full, KprotoInterface.Full]

/-- **The limits alone**: the pointer to the messages is what was on the stack. -/
theorem limits_not_determined :
    ¬ Determined (getlogSeen { pack := some 40 } logSes
      { kglType := .ref [.kgltLimits], kglTypecnt := 1 } {} fun _ =>
        .msg (.cmd ⟨some .kOk, some { types := [.kgltLimits]
                                      limits := some { maxkeysize := some 4096 } }⟩)) := by
  intro h
  have hmsgs := congrArg (fun seen => seen.2.kglMsgs)
    (h zeroMem (zeroMem.withGlog { kglMsgs := .wild 24 }))
  exact absurd hmsgs (by decide)

end Libkinetic.Kinetic
