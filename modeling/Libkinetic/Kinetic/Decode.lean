import Libkinetic.Kinetic.Getlog
import Libkinetic.Ktli.Recvmsg

/-! # The header of a response

`ki_getaseq`, by which the receiver finds the request that a message answers, and `extract_cmdhdr`,
by which a new connection learns about itself. Both unpack the message and the command in it; the
first looks at neither of the two results, and none of them at whether the command has a header.
Without a result a function follows a null pointer. -/

namespace Libkinetic.Kinetic

open Wire (Lib ProtoCmd ProtoCmdhdr ProtoMsg unpackPdu)

/-! ### The functions -/

/-- `KIOV_MSG` -/
def kiovMsg : ℤ := 1

section Functions
variable {β : Type} (L : Lib (RespCmd β))

/-- The sequence number that is acknowledged, of the packed message; -1 for none. -/
def getaseq (packed : List Byte) : Option (BitVec 64) :=
  match L.unpackKineticMessage packed with
  | none => some 0
  | some tmpMsg => do
    -- without command bytes their pointer is null, and their length 0
    let tmpCmd ← L.unpackKineticCommand (tmpMsg.commandbytes.getD [])
    let hdr ← tmpCmd.header
    some (hdr.acksequence.getD (-1))

/-- **`ki_getaseq`**, of the first `msgcnt` vectors of a message. -/
def kiGetaseq (msg : List (List Byte)) (msgcnt : ℤ) : Option (BitVec 64) :=
  if kiovMsg ≥ msgcnt then some 0
  else
    match msg with
    | pdu :: packed :: _ => getaseq L (packed.take (unpackPdu pdu).kpMsglen)
    | _ => none

/-- The fields of a response's header that are set replace those of `cmdhdr`. -/
def mergeCmdhdr (hdr : ProtoCmdhdr) (cmdhdr : Kcmdhdr) : Kcmdhdr :=
  { cmdhdr with
    kchClustvers := extractPrimitiveOptional hdr.clusterversion cmdhdr.kchClustvers
    kchConnid := extractPrimitiveOptional hdr.connectionid cmdhdr.kchConnid
    kchTimeout := extractPrimitiveOptional hdr.timeout cmdhdr.kchTimeout
    kchPri := extractPrimitiveOptional hdr.priority cmdhdr.kchPri
    kchQuanta := extractPrimitiveOptional hdr.timequanta cmdhdr.kchQuanta
    kchBid := extractPrimitiveOptional hdr.batchid cmdhdr.kchBid }

/-- **`extract_cmdhdr`**, of the message, if it was unpacked. -/
def extractCmdhdr (kineticMsg : Option ProtoMsg) (cmdhdr : Kcmdhdr) :
    Option (KStatus × Kcmdhdr) :=
  match kineticMsg.bind (·.commandbytes) with
  | none => some (.kEinternal, cmdhdr)
  | some cb =>
    match L.unpackKineticCommand cb with
    | none => some (.kEinternal, cmdhdr)
    | some cmd => do
      let hdr ← cmd.header
      some (extractCmdstatusCode cmd.body, mergeCmdhdr hdr cmdhdr)

end Functions

/-! ### Messages as they are received -/

/-- The vectors of `ktli_recvmsg`: the buffer for the message has the length in the PDU. -/
structure Received where
  pdu : List Byte
  msg : List Byte
  val : List Byte
  fits : msg.length = (unpackPdu pdu).kpMsglen

/-- The three vectors. -/
def Received.vec (r : Received) : List (List Byte) := [r.pdu, r.msg, r.val]

section Safety
variable {β : Type} (L : Lib (RespCmd β))

/-- The bytes unpack to a command with a header. -/
def HasHeader (cb : List Byte) : Prop :=
  ∃ cmd, L.unpackKineticCommand cb = some cmd ∧ cmd.header.isSome = true

/-- A message with a header in its command; no command bytes are taken for an empty command. -/
def CarriesHeader (packed : List Byte) : Prop :=
  ∀ m, L.unpackKineticMessage packed = some m → HasHeader L (m.commandbytes.getD [])

variable {L}

theorem getaseq_isSome_iff (packed : List Byte) :
    (getaseq L packed).isSome = true ↔ CarriesHeader L packed := by
  unfold getaseq CarriesHeader HasHeader
  rcases L.unpackKineticMessage packed with _ | m
  · simp
  · have hm : ∀ m', some m = some m' ↔ m' = m := fun m' => by rw [Option.some.injEq, eq_comm]
    simp only [hm, forall_eq]
    rcases L.unpackKineticCommand (m.commandbytes.getD []) with _ | cmd
    · simp
    · rcases hhdr : cmd.header with _ | hdr <;> simp [hhdr]

/-- Of a message that was received, all of it is unpacked. -/
theorem kiGetaseq_received (r : Received) : kiGetaseq L r.vec 3 = getaseq L r.msg := by
  have htake : r.msg.take (unpackPdu r.pdu).kpMsglen = r.msg := by
    rw [← r.fits, List.take_length]
  have hcnt : ¬ kiovMsg ≥ 3 := by decide
  simp only [kiGetaseq, Received.vec, if_neg hcnt, htake]

theorem extractCmdhdr_isSome_iff (m : Option ProtoMsg) (cmdhdr : Kcmdhdr) :
    (extractCmdhdr L m cmdhdr).isSome = true ↔
      ∀ cb, m.bind (·.commandbytes) = some cb → ∀ cmd, L.unpackKineticCommand cb = some cmd →
        cmd.header.isSome = true := by
  unfold extractCmdhdr
  rcases m.bind (·.commandbytes) with _ | cb
  · simp
  · rcases hcmd : L.unpackKineticCommand cb with _ | cmd
    · simp [hcmd]
    · rcases hhdr : cmd.header with _ | hdr <;> simp [hcmd, hhdr]

/-- The header that `ki_getaseq` relies on is enough for `extract_cmdhdr`. -/
theorem extractCmdhdr_of_carriesHeader {packed : List Byte} (h : CarriesHeader L packed)
    (cmdhdr : Kcmdhdr) :
    (extractCmdhdr L (L.unpackKineticMessage packed) cmdhdr).isSome = true := by
  rw [extractCmdhdr_isSome_iff]
  intro cb hcb cmd hcmd
  obtain ⟨m, hm, hmcb⟩ := Option.bind_eq_some_iff.mp hcb
  obtain ⟨cmd', hcmd', hhdr⟩ := h m hm
  rw [hmcb, Option.getD_some, hcmd, Option.some.injEq] at hcmd'
  rw [hcmd']
  exact hhdr

/-- **The message part of a response**: `ki_getaseq` and `extract_cmdhdr` return without an absent
command or header if and only if the bytes are no message, or the message has a command with a
header. -/
theorem header_decode_iff (L : Lib (RespCmd β)) (r : Received) (cmdhdr : Kcmdhdr) :
    ((kiGetaseq L r.vec 3).isSome = true ∧
        (extractCmdhdr L (L.unpackKineticMessage r.msg) cmdhdr).isSome = true) ↔
      CarriesHeader L r.msg := by
  rw [kiGetaseq_received, getaseq_isSome_iff]
  constructor
  · rintro ⟨h, -⟩
    exact h
  · intro h
    exact ⟨h, extractCmdhdr_of_carriesHeader h cmdhdr⟩

end Safety

/-! ### What the receiver makes of it -/

/-- The session's helper, asked about a message. -/
def withAseq (e : Ktli.RecvEnv) (aseq : BitVec 64) : Ktli.RecvEnv := { e with aseq := aseq.toInt }

/-- **No acknowledged number** makes a message an unsolicited one. -/
theorem aseq_unsolicited_iff {β : Type} {L : Lib (RespCmd β)} {packed : List Byte}
    {aseq : BitVec 64} {m : ProtoMsg} {cmd : ProtoCmd (RespCmd β)} {hdr : ProtoCmdhdr}
    (hm : L.unpackKineticMessage packed = some m)
    (hcmd : L.unpackKineticCommand (m.commandbytes.getD []) = some cmd)
    (hhdr : cmd.header = some hdr) (h : getaseq L packed = some aseq) (e : Ktli.RecvEnv) :
    (withAseq e aseq).aseq = -1 ↔ hdr.acksequence = none ∨ hdr.acksequence = some (-1) := by
  have haseq : hdr.acksequence.getD (-1) = aseq := by
    simpa [getaseq, hm, hcmd, hhdr] using h
  have hneg : (-1 : BitVec 64).toInt = -1 := by decide
  have hint : (withAseq e aseq).aseq = -1 ↔ aseq = -1 := by
    rw [← BitVec.toInt_inj, hneg]
    rfl
  rw [hint, ← haseq]
  rcases hdr.acksequence with _ | a
  · simp
  · simp

/-! ### Two messages without a header -/

/-- The messages of an unsolicited status without command bytes, and of one whose command has an
empty status only. -/
def bareLib : Lib (RespCmd Unit) where
  packKineticCommand _ := []
  packKineticMessage _ := []
  unpackKineticCommand b :=
    if b = [] ∨ b = [0x1a, 0x00] then some { header := none, body := { status := none, body := none } }
    else none
  unpackKineticMessage b :=
    if b = [0x20, 0x03] then some { authtype := some .katUnsolicited }
    else if b = [0x20, 0x03, 0x3a, 0x02, 0x1a, 0x00] then
      some { authtype := some .katUnsolicited, commandbytes := some [0x1a, 0x00] }
    else none
  hmacInitEx _ _ := none
  hmacSha1 _ _ := List.replicate 20 0

def noCommand : Received where
  pdu := [0x46, 0, 0, 0, 2, 0, 0, 0, 0]
  msg := [0x20, 0x03]
  val := []
  fits := by decide

def noHeader : Received where
  pdu := [0x46, 0, 0, 0, 6, 0, 0, 0, 0]
  msg := [0x20, 0x03, 0x3a, 0x02, 0x1a, 0x00]
  val := []
  fits := by decide

/-- **The receiver crashes** on a message of two bytes that has no command; a message whose command
has no header brings both functions down. -/
theorem bare_messages_crash :
    kiGetaseq bareLib noCommand.vec 3 = none ∧ kiGetaseq bareLib noHeader.vec 3 = none ∧
      extractCmdhdr bareLib (bareLib.unpackKineticMessage noHeader.msg) {} = none := by
  decide

end Libkinetic.Kinetic
