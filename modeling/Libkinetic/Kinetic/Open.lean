import Libkinetic.Kinetic.Decode
import Libkinetic.Kinetic.Destroy

/-! # Opening a connection

`ki_open`: a session with presets, and the unsolicited status of the server, from which the session
gets its limits, its configuration and the header of its commands. The presets are not merged with
what the server says of the header, but with zeros; and from where the status is looked at on, the
descriptor that is returned is that of `ktli_open`. -/

namespace Libkinetic.Kinetic

open Wire (Lib ProtoCmd ProtoCmdhdr ProtoMsg)

deriving instance DecidableEq for GetlogEv

/-! ### The session -/

/-- `NORMAL` -/
def priNormal : ℕ := 5

/-- `ksession_t` of a connection that is opened. -/
structure OpenSession where
  ksBid : ℕ := 0
  ksBats : ℕ := 0
  ksL : KgetlogLimits := zeroLimits
  ksConf : Kconfiguration := {}
  ksCh : Kcmdhdr := {}

/-- The session as the operations have it. -/
def OpenSession.session (ks : OpenSession) : Ksession :=
  { ksBid := ks.ksBid, ksBats := ks.ksBats, ksL := ks.ksL.toKlimits, ksCh := ks.ksCh }

/-- The presets of the header. -/
def presetCh : Kcmdhdr :=
  { kchClustvers := -1, kchConnid := -1, kchTimeout := 0, kchPri := priNormal, kchQuanta := 0,
    kchQexit := 0 }

/-- What `ki_open` returns, and the session that it leaves with the connection. -/
structure OpenDone where
  ktd : ℤ
  ks : OpenSession

/-! ### The function -/

/-- What the environment answers during a call. -/
structure OpenEnv where
  /-- The memory for the configuration and the session. -/
  memory : Bool := true
  /-- What `ktli_open` returns. -/
  ktd : ℤ
  connect : Bool := true
  /-- The message that the wait for an unsolicited one ends with. -/
  received : Option (List Byte)
  alloc : GetlogAlloc := {}
  mem : GetlogMem
  /-- There is memory to unpack the command a second time. -/
  again : Bool := true

section Open
variable (L : Lib (RespCmd KprotoGetlog))

/-- A message, as an extraction sees it. -/
def respMsg (m : ProtoMsg) : RespMsg KprotoGetlog :=
  match m.commandbytes with
  | none => .nocmd
  | some cb =>
    match L.unpackKineticCommand cb with
    | none => .badcmd
    | some cmd => .cmd cmd.body

/-- The library when the command is unpacked a second time. -/
def secondLib (again : Bool) : Lib (RespCmd KprotoGetlog) :=
  if again then L else { L with unpackKineticCommand := fun _ => none }

/-- A call of the hook comes back: it is the destructor, and nothing that it destroys was destroyed
`before`. -/
def comesBack (before : List GetlogEv) (g : Kgetlog) : Bool :=
  (destroyProtobuf g).all fun ev =>
    match ev with
    | .jump _ => false
    | .destroyCommand .null => true
    | ev => ev ∉ before

/-- From `oex1` on. -/
def oex1 (before : List GetlogEv) (glog : Kgetlog) (done : OpenDone) : Option OpenDone :=
  if comesBack before glog then some done else none

/-- What is made of the unsolicited message, with the session `ks`. -/
def openResponse (e : OpenEnv) (ks : OpenSession) (msg : List Byte) : Option OpenDone :=
  match L.unpackKineticMessage msg with
  | none => some { ktd := e.ktd, ks }
  | some kmresp =>
    -- the structure on the stack is filled with zeros
    let (krc, glog, before) := extractGetlog e.alloc e.mem (respMsg L kmresp) {}
    if krc ≠ .kOk then oex1 before glog { ktd := e.ktd, ks }
    else
      let ks := { ks with ksL := glog.kglLimits, ksConf := glog.kglConf }
      match extractCmdhdr (secondLib L e.again) (some kmresp) {} with
      | none => none
      | some (krc, cmdHdr) =>
        if krc ≠ .kOk then oex1 before glog { ktd := e.ktd, ks }
        else
          oex1 before glog
            { ktd := e.ktd, ks := { ks with ksCh := cmdHdr, ksBid := kfirstbid, ksBats := 0 } }

/-- **`ki_open`**; without a result it faults, or waits without end. -/
def kiOpen (e : OpenEnv) : Option OpenDone :=
  if ¬ e.memory then none
  else
    let ks : OpenSession := { ksCh := presetCh }
    if e.ktd < 0 then some { ktd := -1, ks }
    else if ¬ e.connect then some { ktd := -1, ks }
    else
      match e.received with
      | none => none
      | some msg => openResponse L e ks msg

end Open

/-! ### What the call promises -/

section Promise
variable (L : Lib (RespCmd KprotoGetlog)) (e : OpenEnv) (msg : List Byte)

/-- The header of the command in a message, if all of it can be unpacked. -/
def respHeader : Option ProtoCmdhdr := do
  let m ← L.unpackKineticMessage msg
  let cb ← m.commandbytes
  let cmd ← L.unpackKineticCommand cb
  cmd.header

/-- What a header carries of the fields that are read of it is in `ch`. -/
structure CarriedStored (hdr : Option ProtoCmdhdr) (ch : Kcmdhdr) : Prop where
  clustvers : ∀ v, hdr.bind (·.clusterversion) = some v → ch.kchClustvers = v
  connid : ∀ v, hdr.bind (·.connectionid) = some v → ch.kchConnid = v
  timeout : ∀ v, hdr.bind (·.timeout) = some v → ch.kchTimeout = v
  pri : ∀ v, hdr.bind (·.priority) = some v → ch.kchPri = v
  quanta : ∀ v, hdr.bind (·.timequanta) = some v → ch.kchQuanta = v
  bid : ∀ v, hdr.bind (·.batchid) = some v → ch.kchBid = v

/-- **What a header does not carry** is as it was preset in `ch`; the flag for a quick exit is never
read of it. -/
structure PresetsKept (hdr : Option ProtoCmdhdr) (ch : Kcmdhdr) : Prop where
  clustvers : hdr.bind (·.clusterversion) = none → ch.kchClustvers = presetCh.kchClustvers
  connid : hdr.bind (·.connectionid) = none → ch.kchConnid = presetCh.kchConnid
  timeout : hdr.bind (·.timeout) = none → ch.kchTimeout = presetCh.kchTimeout
  pri : hdr.bind (·.priority) = none → ch.kchPri = presetCh.kchPri
  quanta : hdr.bind (·.timequanta) = none → ch.kchQuanta = presetCh.kchQuanta
  bid : hdr.bind (·.batchid) = none → ch.kchBid = presetCh.kchBid
  qexit : ch.kchQexit = presetCh.kchQexit

/-- **The session is set up**: the message unpacks, both extractions return `K_OK`, and what they give
is in the session. -/
structure SetUp (ks : OpenSession) : Prop where
  stored : ∃ m glog events, L.unpackKineticMessage msg = some m ∧
    extractGetlog e.alloc e.mem (respMsg L m) {} = (.kOk, glog, events) ∧
    (∃ ch, extractCmdhdr (secondLib L e.again) (some m) {} = some (.kOk, ch)) ∧
    ks.ksL = glog.kglLimits ∧ ks.ksConf = glog.kglConf
  header : CarriedStored (respHeader L msg) ks.ksCh
  bid : ks.ksBid = kfirstbid
  bats : ks.ksBats = 0

/-- **A connection as it should be opened**, when `msg` was received on it. -/
structure OpenKept (done : Option OpenDone) : Prop where
  returns : done.isSome = true
  opened : ∀ d ∈ done, 0 ≤ d.ktd ↔ SetUp L e msg d.ks
  presets : ∀ d ∈ done, PresetsKept (respHeader L msg) d.ks.ksCh

/-- The server is there, and sends `msg`. -/
structure OpenEnv.Receives : Prop where
  memory : e.memory = true
  ktd : 0 ≤ e.ktd
  connect : e.connect = true
  received : e.received = some msg

/-- **A status of use**: it can be extracted, and its header has the three fields that are not preset
to zero. -/
def Announces : Prop :=
  ∃ m cb cmd hdr, L.unpackKineticMessage msg = some m ∧ m.commandbytes = some cb ∧
    L.unpackKineticCommand cb = some cmd ∧ Extracts e.alloc (.cmd cmd.body) ∧ e.again = true ∧
    cmd.header = some hdr ∧ hdr.clusterversion.isSome = true ∧ hdr.connectionid.isSome = true ∧
    hdr.priority.isSome = true

end Promise

/-! ### The hook -/

section Hook
variable {g : Kgetlog} {c : RespCmd KprotoGetlog}

theorem mem_freed {α : Type} [DecidableEq α] {ev : Ptr α → GetlogEv} {p : Ptr α} {x : GetlogEv}
    (h : x ∈ freed ev p) : x = ev p := by
  unfold freed at h
  split_ifs at h
  · exact List.mem_singleton.mp h
  · cases h

/-- The destructor does not jump anywhere. -/
theorem not_jump_mem_destroyProtobufGetlog (p : Ptr GetlogDestructor) :
    GetlogEv.jump p ∉ destroyProtobufGetlog g := by
  intro h
  simp only [destroyProtobufGetlog, List.cons_append, List.mem_cons, List.mem_append] at h
  rcases h with h | ((((h | h) | h) | h) | h) | h
  · cases h
  all_goals cases mem_freed h

/-- **The first call of a hook** comes back. -/
theorem comesBack_first (h : g.owner = (.ref c, .ref .destroyProtobufGetlog)) :
    comesBack [] g = true := by
  rw [comesBack, destroyProtobuf_owned h, List.all_eq_true]
  intro ev hev
  match ev with
  | .jump p => exact absurd hev (not_jump_mem_destroyProtobufGetlog p)
  | .destroyCommand .null => rfl
  | .destroyCommand (.ref _) | .destroyCommand (.wild _) => rfl
  | .freeUtil _ | .freeTemp _ | .freeStat _ | .freeSerial _ | .freeWwn _ | .freeInterfaces _ => rfl

/-- A second one does not. -/
theorem not_comesBack_again (h : g.owner = (.ref c, .ref .destroyProtobufGetlog)) :
    ¬ comesBack (destroyProtobufGetlog g) g = true := by
  have hcmd : g.kglProtobuf = .ref c := congrArg Prod.fst h
  have hmem : GetlogEv.destroyCommand (.ref c) ∈ destroyProtobufGetlog g := by
    rw [destroyProtobufGetlog, hcmd]
    simp
  intro hback
  rw [comesBack, destroyProtobuf_owned h, List.all_eq_true] at hback
  have hnot := hback _ hmem
  simp [hmem] at hnot

end Hook

/-! ### The outcome of a status -/

section Outcome
variable {L : Lib (RespCmd KprotoGetlog)} {e : OpenEnv} {ks : OpenSession} {msg : List Byte}
  {m : ProtoMsg}

theorem respMsg_cmd {c : RespCmd KprotoGetlog} (h : respMsg L m = .cmd c) :
    ∃ cb cmd, m.commandbytes = some cb ∧ L.unpackKineticCommand cb = some cmd ∧ cmd.body = c := by
  unfold respMsg at h
  cases hcb : m.commandbytes with
  | none =>
    rw [hcb] at h
    cases h
  | some cb =>
    simp only [hcb] at h
    cases hcmd : L.unpackKineticCommand cb with
    | none =>
      rw [hcmd] at h
      cases h
    | some cmd =>
      rw [hcmd] at h
      exact ⟨cb, cmd, rfl, hcmd, RespMsg.cmd.inj h⟩

/-- **A status that cannot be extracted**: the command is destroyed twice, or a null pointer is
called. -/
theorem openResponse_refused (hm : L.unpackKineticMessage msg = some m)
    (h : ¬ Extracts e.alloc (respMsg L m)) : openResponse L e ks msg = none := by
  unfold openResponse
  simp only [hm]
  cases hr : respMsg L m with
  | nocmd | badcmd => rfl
  | cmd c =>
    rw [hr] at h
    obtain ⟨krc, g, howner, ⟨hext, -, -⟩ | ⟨-, hk, hx⟩⟩ := extractGetlog_cases e.alloc e.mem c {}
    · exact absurd hext h
    · simp only [hx, if_pos hk, oex1, if_neg (not_comesBack_again howner)]

/-- **A status that can be extracted**, and what is made of its header. -/
theorem openResponse_extracts (hm : L.unpackKineticMessage msg = some m)
    (h : Extracts e.alloc (respMsg L m)) : ∃ glog,
    extractGetlog e.alloc e.mem (respMsg L m) {} = (.kOk, glog, []) ∧
      openResponse L e ks msg = (extractCmdhdr (secondLib L e.again) (some m) {}).map fun r =>
        { ktd := e.ktd
          ks := if r.1 = .kOk then
              { ksBid := kfirstbid, ksBats := 0, ksL := glog.kglLimits, ksConf := glog.kglConf,
                ksCh := r.2 }
            else { ks with ksL := glog.kglLimits, ksConf := glog.kglConf } } := by
  obtain ⟨c, resp, hc, -⟩ := id h
  rw [hc] at h
  obtain ⟨krc, g, howner, ⟨-, rfl, hx⟩ | ⟨hext, -, -⟩⟩ := extractGetlog_cases e.alloc e.mem c {}
  · have hback : comesBack [] g = true := comesBack_first howner
    rw [hc]
    refine ⟨g, hx, ?_⟩
    unfold openResponse
    simp only [hm, hc, hx]
    cases hch : extractCmdhdr (secondLib L e.again) (some m) {} with
    | none => rfl
    | some r =>
      obtain ⟨krc, ch⟩ := r
      by_cases hk : krc = .kOk <;> simp [oex1, hback, hk]
  · exact absurd h hext

/-- The header of a command that is unpacked a second time. -/
theorem extractCmdhdr_second {cb : List Byte} {cmd : ProtoCmd (RespCmd KprotoGetlog)}
    (hcb : m.commandbytes = some cb) (hcmd : L.unpackKineticCommand cb = some cmd)
    (hst : cmd.body.status = some .kOk) : extractCmdhdr (secondLib L e.again) (some m) {} =
      if e.again then cmd.header.map fun hdr => (.kOk, mergeCmdhdr hdr {})
      else some (.kEinternal, {}) := by
  have hok : extractCmdstatusCode cmd.body = .kOk := extractCmdstatusCode_ok.mpr hst
  unfold extractCmdhdr secondLib
  rw [Option.bind_some, hcb]
  cases e.again with
  | false => rfl
  | true =>
    simp only [if_true, hcmd, hok]
    cases cmd.header <;> rfl

/-- A field that is not carried is that of the zeros. -/
theorem preset_merged_iff {α : Type} (field : Option α) (zero preset : α) :
    (field = none → extractPrimitiveOptional field zero = preset) ↔
      field.isSome = true ∨ zero = preset := by
  cases field <;> simp [extractPrimitiveOptional]

/-- **The presets are kept** if the header carries those that are not zero. -/
theorem presetsKept_merge_iff (hdr : ProtoCmdhdr) : PresetsKept (some hdr) (mergeCmdhdr hdr {}) ↔
    hdr.clusterversion.isSome = true ∧ hdr.connectionid.isSome = true ∧
      hdr.priority.isSome = true := by
  constructor
  · intro h
    have hversion := (preset_merged_iff hdr.clusterversion 0 (-1)).mp h.clustvers
    have hconnid := (preset_merged_iff hdr.connectionid 0 (-1)).mp h.connid
    have hpri := (preset_merged_iff hdr.priority 0 priNormal).mp h.pri
    exact ⟨hversion.resolve_right (by decide), hconnid.resolve_right (by decide),
      hpri.resolve_right (by decide)⟩
  · rintro ⟨hversion, hconnid, hpri⟩
    constructor
    · exact (preset_merged_iff hdr.clusterversion 0 (-1)).mpr (.inl hversion)
    · exact (preset_merged_iff hdr.connectionid 0 (-1)).mpr (.inl hconnid)
    · exact (preset_merged_iff hdr.timeout 0 0).mpr (.inr rfl)
    · exact (preset_merged_iff hdr.priority 0 priNormal).mpr (.inl hpri)
    · exact (preset_merged_iff hdr.timequanta 0 0).mpr (.inr rfl)
    · exact (preset_merged_iff hdr.batchid 0 0).mpr (.inr rfl)
    · rfl

/-- What a header carries gets into any header it is merged with. -/
theorem carriedStored_merge (hdr : ProtoCmdhdr) (ch : Kcmdhdr) :
    CarriedStored (some hdr) (mergeCmdhdr hdr ch) := by
  refine ⟨?_, ?_, ?_, ?_, ?_, ?_⟩ <;> intro v hv <;> rw [Option.bind_some] at hv <;>
    simp [mergeCmdhdr, hv, extractPrimitiveOptional]

theorem respHeader_eq {cb : List Byte} {cmd : ProtoCmd (RespCmd KprotoGetlog)}
    (hm : L.unpackKineticMessage msg = some m) (hcb : m.commandbytes = some cb)
    (hcmd : L.unpackKineticCommand cb = some cmd) : respHeader L msg = cmd.header := by
  simp [respHeader, hm, hcb, hcmd]

theorem kiOpen_receives (h : e.Receives msg) :
    kiOpen L e = openResponse L e { ksCh := presetCh } msg := by
  have hktd : ¬ e.ktd < 0 := not_lt.mpr h.ktd
  unfold kiOpen
  rw [if_neg (not_not.mpr h.memory)]
  simp only [if_neg hktd, h.connect, not_true, if_false, h.received]

/-- **With a status that can be extracted** the connection is as it should be if its command can be
unpacked again and the header has the three fields. -/
theorem openKept_extracts {cb : List Byte} {cmd : ProtoCmd (RespCmd KprotoGetlog)}
    (h : e.Receives msg) (hm : L.unpackKineticMessage msg = some m) (hcb : m.commandbytes = some cb)
    (hcmd : L.unpackKineticCommand cb = some cmd) (hext : Extracts e.alloc (respMsg L m))
    (hst : cmd.body.status = some .kOk) : OpenKept L e msg (kiOpen L e) ↔
      e.again = true ∧ ∃ hdr, cmd.header = some hdr ∧ hdr.clusterversion.isSome = true ∧
        hdr.connectionid.isSome = true ∧ hdr.priority.isSome = true := by
  obtain ⟨glog, hx, hdone⟩ :=
    @openResponse_extracts L e { ksCh := presetCh } msg m hm hext
  rw [extractCmdhdr_second hcb hcmd hst] at hdone
  have hsecond := @extractCmdhdr_second L e m cb cmd hcb hcmd hst
  have hheader := respHeader_eq hm hcb hcmd
  rw [kiOpen_receives h, hdone]
  cases hagain : e.again with
  | false =>
    -- the descriptor is returned all the same
    refine iff_of_false (fun hk => ?_) (by simp)
    rw [hagain] at hsecond
    obtain ⟨m', glog', events, hm', -, ⟨ch, hch⟩, -⟩ :=
      ((hk.opened _ rfl).mp h.ktd).stored
    obtain rfl : m = m' := Option.some.inj (hm.symm.trans hm')
    rw [hagain, hsecond] at hch
    cases hch
  | true =>
    cases hhdr : cmd.header with
    | none =>
      refine iff_of_false (fun hk => ?_) (by simp)
      have hret := hk.returns
      cases hret
    | some hdr =>
      rw [hhdr] at hheader
      have hmerge := presetsKept_merge_iff hdr
      rw [hhdr, hagain] at hsecond
      constructor
      · intro hk
        have hpresets := hk.presets _ rfl
        rw [hheader] at hpresets
        exact ⟨rfl, hdr, rfl, hmerge.mp hpresets⟩
      · rintro ⟨-, hdr', heq, hfields⟩
        obtain rfl := Option.some.inj heq
        refine ⟨rfl, ?_, ?_⟩
        · rintro d ⟨⟩
          refine iff_of_true h.ktd ⟨⟨m, glog, [], hm, hx, ⟨mergeCmdhdr hdr {}, ?_⟩, rfl, rfl⟩, ?_, rfl, rfl⟩
          · rw [hagain]
            exact hsecond
          · rw [hheader]
            exact carriedStored_merge hdr {}
        · rintro d ⟨⟩
          rw [hheader]
          exact hmerge.mpr hfields

/-- **When a connection is opened as it should be.** -/
theorem open_kept_iff (L : Lib (RespCmd KprotoGetlog)) (e : OpenEnv) (msg : List Byte)
    (h : e.Receives msg) : OpenKept L e msg (kiOpen L e) ↔ Announces L e msg := by
  cases hm : L.unpackKineticMessage msg with
  | none =>
    -- the descriptor is returned all the same
    have hdone : kiOpen L e = some { ktd := e.ktd, ks := { ksCh := presetCh } } := by
      rw [kiOpen_receives h]
      simp only [openResponse, hm]
    refine iff_of_false (fun hk => ?_) ?_
    · obtain ⟨m, -, -, hm', -⟩ := ((hk.opened _ hdone).mp h.ktd).stored
      rw [hm] at hm'
      cases hm'
    · rintro ⟨m, -, -, -, hm', -⟩
      rw [hm] at hm'
      cases hm'
  | some m =>
    by_cases hext : Extracts e.alloc (respMsg L m)
    · obtain ⟨c, resp, hc, hst, -⟩ := id hext
      obtain ⟨cb, cmd, hcb, hcmd, rfl⟩ := respMsg_cmd hc
      rw [openKept_extracts h hm hcb hcmd hext hst]
      constructor
      · rintro ⟨hagain, hdr, hhdr, hfields⟩
        rw [hc] at hext
        exact ⟨m, cb, cmd, hdr, hm, hcb, hcmd, hext, hagain, hhdr, hfields⟩
      · rintro ⟨m', cb', cmd', hdr, hm', hcb', hcmd', -, hagain, hhdr, hfields⟩
        obtain rfl : m = m' := Option.some.inj (hm.symm.trans hm')
        obtain rfl : cb = cb' := Option.some.inj (hcb.symm.trans hcb')
        obtain rfl : cmd = cmd' := Option.some.inj (hcmd.symm.trans hcmd')
        exact ⟨hagain, hdr, hhdr, hfields⟩
    · refine iff_of_false (fun hk => ?_) ?_
      · have hret := hk.returns
        rw [kiOpen_receives h, openResponse_refused hm hext] at hret
        cases hret
      · rintro ⟨m', cb', cmd', hdr, hm', hcb', hcmd', hext', -⟩
        obtain rfl : m = m' := Option.some.inj (hm.symm.trans hm')
        have hc : respMsg L m = .cmd cmd'.body := by simp [respMsg, hcb', hcmd']
        rw [hc] at hext
        exact hext hext'

/-- **A call that returns** has not destroyed its command twice. -/
theorem openOwn_of_returns (h : (openResponse L e ks msg).isSome = true) (cmdhdr : Bool) :
    Owned (openOwn e.alloc e.mem cmdhdr ((L.unpackKineticMessage msg).map (respMsg L))) := by
  rw [openOwn_iff]
  intro m' hm'
  obtain ⟨m, hm, rfl⟩ := Option.map_eq_some_iff.mp hm'
  by_contra hext
  rw [openResponse_refused hm hext] at h
  cases h

/-- **The session of a connection as it should be** has no batch yet, and the limits and the header
that the server sent. -/
theorem session_of_announces (h : e.Receives msg) (ha : Announces L e msg) :
    ∃ d glog events hdr, kiOpen L e = some d ∧ d.ktd = e.ktd ∧ respHeader L msg = some hdr ∧
      (∃ m, L.unpackKineticMessage msg = some m ∧
        extractGetlog e.alloc e.mem (respMsg L m) {} = (.kOk, glog, events)) ∧
      d.ks.session = { ksL := glog.kglLimits.toKlimits, ksCh := mergeCmdhdr hdr presetCh } := by
  obtain ⟨m, cb, cmd, hdr, hm, hcb, hcmd, hext, hagain, hhdr, hversion, hconnid, hpri⟩ := ha
  have hc : respMsg L m = .cmd cmd.body := by simp [respMsg, hcb, hcmd]
  obtain ⟨c, resp, hceq, hst, -⟩ := id hext
  obtain rfl := RespMsg.cmd.inj hceq
  rw [← hc] at hext
  obtain ⟨glog, hx, hdone⟩ := @openResponse_extracts L e { ksCh := presetCh } msg m hm hext
  rw [extractCmdhdr_second hcb hcmd hst, hagain, hhdr, ← kiOpen_receives h] at hdone
  refine ⟨_, glog, [], hdr, hdone, rfl, (respHeader_eq hm hcb hcmd).trans hhdr, ⟨m, hm, hx⟩, ?_⟩
  -- the three fields of the header make up for the zeros
  obtain ⟨version, hversion⟩ := Option.isSome_iff_exists.mp hversion
  obtain ⟨connid, hconnid⟩ := Option.isSome_iff_exists.mp hconnid
  obtain ⟨pri, hpri⟩ := Option.isSome_iff_exists.mp hpri
  simp [OpenSession.session, mergeCmdhdr, presetCh, hversion, hconnid, hpri,
    extractPrimitiveOptional]

end Outcome

/-! ### Three statuses -/

/-- The command of a status with the limits of the server: without and with a priority in the
header. -/
def plainCommand : List Byte :=
  [0x0a, 0x04, 0x08, 0x00, 0x18, 0x05, 0x12, 0x09, 0x32, 0x07, 0x08, 0x06, 0x42, 0x03, 0x08, 0x80,
    0x20, 0x1a, 0x02, 0x08, 0x01]

def fullCommand : List Byte :=
  [0x0a, 0x06, 0x08, 0x00, 0x18, 0x05, 0x60, 0x05, 0x12, 0x09, 0x32, 0x07, 0x08, 0x06, 0x42, 0x03,
    0x08, 0x80, 0x20, 0x1a, 0x02, 0x08, 0x01]

/-- The command of a server that has an internal error. -/
def errorCommand : List Byte := [0x1a, 0x02, 0x08, 0x05]

/-- The message of an unsolicited status. -/
def statusMessage (cmd : List Byte) : List Byte :=
  [0x20, 0x03, 0x3a, Fin.ofNat 256 cmd.length] ++ cmd

/-- The limits in the first two. -/
def limitsLog : RespCmd KprotoGetlog :=
  { status := some .kOk
    body := some { types := [.kgltLimits], limits := some { maxkeysize := some 4096 } } }

/-- The header of the second. -/
def fullHeader : ProtoCmdhdr :=
  { clusterversion := some 0, connectionid := some 5, priority := some priNormal }

/-- The library on the three. -/
def statusLib : Lib (RespCmd KprotoGetlog) where
  packKineticCommand _ := []
  packKineticMessage _ := []
  unpackKineticCommand b :=
    if b = plainCommand then
      some { header := some { fullHeader with priority := none }, body := limitsLog }
    else if b = fullCommand then some { header := some fullHeader, body := limitsLog }
    else if b = errorCommand then
      some { header := none, body := { status := some .kEinternal, body := none } }
    else none
  unpackKineticMessage b :=
    if b = statusMessage plainCommand then
      some { authtype := some .katUnsolicited, commandbytes := some plainCommand }
    else if b = statusMessage fullCommand then
      some { authtype := some .katUnsolicited, commandbytes := some fullCommand }
    else if b = statusMessage errorCommand then
      some { authtype := some .katUnsolicited, commandbytes := some errorCommand }
    else none
  hmacInitEx _ _ := none
  hmacSha1 _ _ := List.replicate 20 0

/-- A connection on which this is received. -/
def openEnv (msg : List Byte) : OpenEnv := { ktd := 3, received := some msg, mem := zeroMem }

theorem openEnv_receives (msg : List Byte) : (openEnv msg).Receives msg :=
  ⟨rfl, by simp [openEnv], rfl, rfl⟩

theorem limitsLog_extracts : Extracts {} (.cmd limitsLog) :=
  ⟨limitsLog, _, rfl, rfl, rfl, fun _ => rfl, fun _ => rfl, fun _ => rfl, fun _ _ _ => rfl⟩

/-- With all three fields in the header the connection is as it should be. -/
theorem full_status_kept : OpenKept statusLib (openEnv (statusMessage fullCommand))
    (statusMessage fullCommand) (kiOpen statusLib (openEnv (statusMessage fullCommand))) := by
  refine (open_kept_iff statusLib _ _ (openEnv_receives _)).mpr ?_
  exact ⟨{ authtype := some .katUnsolicited, commandbytes := some fullCommand }, fullCommand,
    { header := some fullHeader, body := limitsLog }, fullHeader, by decide, rfl, by decide,
    limitsLog_extracts, rfl, rfl, rfl, rfl, rfl⟩

/-- **A status without a priority** leaves 0 for it; bytes that are no message leave the descriptor of
`ktli_open` with a session that knows nothing; and after an error of the server nothing comes
back. -/
theorem statuses_lost :
    (kiOpen statusLib (openEnv (statusMessage plainCommand))).map (fun d => d.ks.ksCh.kchPri) =
        some 0 ∧
      presetCh.kchPri = 5 ∧
      (kiOpen statusLib (openEnv [0x46])).map (fun d => (d.ktd, d.ks.ksBid)) = some (3, 0) ∧
      (kiOpen statusLib (openEnv (statusMessage errorCommand))).isSome = false ∧
      ¬ OpenKept statusLib (openEnv (statusMessage plainCommand)) (statusMessage plainCommand)
        (kiOpen statusLib (openEnv (statusMessage plainCommand))) ∧
      ¬ OpenKept statusLib (openEnv [0x46]) [0x46] (kiOpen statusLib (openEnv [0x46])) ∧
      ¬ OpenKept statusLib (openEnv (statusMessage errorCommand)) (statusMessage errorCommand)
        (kiOpen statusLib (openEnv (statusMessage errorCommand))) := by
  refine ⟨by decide, rfl, by decide, by decide, fun h => ?_, fun h => ?_, fun h => ?_⟩
  · have hpri := (h.presets _ rfl).pri (by decide)
    exact absurd hpri (by decide)
  · obtain ⟨m, -, -, hm, -⟩ := ((h.opened _ rfl).mp (by decide)).stored
    have hnone : statusLib.unpackKineticMessage [0x46] = none := by decide
    rw [hnone] at hm
    cases hm
  · have hret := h.returns
    exact absurd hret (by decide)

end Libkinetic.Kinetic
