import Libkinetic.Base.Memory
import Libkinetic.Kinetic.Types
import Mathlib.Data.List.TakeWhile
import Mathlib.Tactic.DeriveEncodable

/-! # Messages on the wire

A request is a PDU, a packed message and the value. The message carries the packed command and its
authentication. A request is built before its sequence number is known, with the key of the session
in the place of the HMAC; when it is sent, `ki_setseq` puts the number into the command, computes
the HMAC, packs the message again and corrects its length in the PDU. Packing and HMAC-SHA1 come
from libraries. -/

namespace Libkinetic.Kinetic.Wire

open Libkinetic.Base.Memory (digit)

/-! ### The PDU -/

/-- `kpdu_t` -/
structure Kpdu where
  kpMagic : Byte
  kpMsglen : ℕ
  kpVallen : ℕ
deriving DecidableEq

/-- The length of a packed PDU. -/
def pduLen : ℕ := 9

/-- The byte `n` of a 32-bit word. -/
def wordByte (d n : ℕ) : Byte := digit d n

/-- The bytes of a word, the least significant one first. -/
def wordBytes (d : ℕ) : List Byte := [wordByte d 0, wordByte d 1, wordByte d 2, wordByte d 3]

/-- The word in four bytes, shifted and joined. -/
def word (b0 b1 b2 b3 : Byte) : ℕ := b3 * 256 ^ 3 + b2 * 256 ^ 2 + b1 * 256 + b0

/-- `htonl` and `ntohl` on a little-endian host: the bytes of a word in the other order. -/
def htonl (d : ℕ) : ℕ := word (wordByte d 3) (wordByte d 2) (wordByte d 1) (wordByte d 0)

/-- `UNPACK_PDU` -/
def unpackPdu (p : List Byte) : Kpdu where
  kpMagic := p.getD 0 0
  kpMsglen := htonl (word (p.getD 1 0) (p.getD 2 0) (p.getD 3 0) (p.getD 4 0))
  kpVallen := htonl (word (p.getD 5 0) (p.getD 6 0) (p.getD 7 0) (p.getD 8 0))

/-- `PACK_PDU` -/
def packPdu (pdu : Kpdu) : List Byte :=
  pdu.kpMagic :: wordBytes (htonl pdu.kpMsglen) ++ wordBytes (htonl pdu.kpVallen)

theorem word_lt (b0 b1 b2 b3 : Byte) : word b0 b1 b2 b3 < 2 ^ 32 := by
  have h0 := b0.isLt
  have h1 := b1.isLt
  have h2 := b2.isLt
  have h3 := b3.isLt
  unfold word
  omega

theorem htonl_lt (d : ℕ) : htonl d < 2 ^ 32 := word_lt ..

/-- The bytes of a word give the word. -/
theorem word_wordByte {d : ℕ} (h : d < 2 ^ 32) :
    word (wordByte d 0) (wordByte d 1) (wordByte d 2) (wordByte d 3) = d := by
  simp only [word, wordByte, digit]
  omega

theorem wordByte_word (b0 b1 b2 b3 : Byte) :
    wordByte (word b0 b1 b2 b3) 0 = b0 ∧ wordByte (word b0 b1 b2 b3) 1 = b1 ∧
      wordByte (word b0 b1 b2 b3) 2 = b2 ∧ wordByte (word b0 b1 b2 b3) 3 = b3 := by
  have h0 := b0.isLt
  have h1 := b1.isLt
  have h2 := b2.isLt
  have h3 := b3.isLt
  simp only [word, wordByte, digit, Fin.ext_iff]
  omega

theorem htonl_htonl {d : ℕ} (h : d < 2 ^ 32) : htonl (htonl d) = d := by
  obtain ⟨e0, e1, e2, e3⟩ := wordByte_word (wordByte d 3) (wordByte d 2) (wordByte d 1) (wordByte d 0)
  unfold htonl at *
  rw [e0, e1, e2, e3, word_wordByte h]

/-- A word that was stored in network order is read back. -/
theorem htonl_word_htonl {d : ℕ} (h : d < 2 ^ 32) :
    htonl (word (wordByte (htonl d) 0) (wordByte (htonl d) 1) (wordByte (htonl d) 2)
      (wordByte (htonl d) 3)) = d := by
  rw [word_wordByte (htonl_lt _), htonl_htonl h]

/-- **The PDU keeps its fields** when it is packed. -/
theorem unpackPdu_packPdu {pdu : Kpdu} (hm : pdu.kpMsglen < 2 ^ 32) (hv : pdu.kpVallen < 2 ^ 32) :
    unpackPdu (packPdu pdu) = pdu := by
  simp only [unpackPdu, packPdu, wordBytes, List.cons_append, List.nil_append,
    List.getD_cons_zero, List.getD_cons_succ, htonl_word_htonl hm, htonl_word_htonl hv]

theorem kpMsglen_lt (p : List Byte) : (unpackPdu p).kpMsglen < 2 ^ 32 := htonl_lt _

theorem kpVallen_lt (p : List Byte) : (unpackPdu p).kpVallen < 2 ^ 32 := htonl_lt _

/-- A length as it stands before the bytes that are authenticated, most significant byte first. -/
def bigEndian (n : ℕ) : List Byte := [wordByte n 3, wordByte n 2, wordByte n 1, wordByte n 0]

theorem wordBytes_htonl (n : ℕ) : wordBytes (htonl n) = bigEndian n := by
  obtain ⟨e0, e1, e2, e3⟩ := wordByte_word (wordByte n 3) (wordByte n 2) (wordByte n 1) (wordByte n 0)
  unfold htonl wordBytes bigEndian
  rw [e0, e1, e2, e3]

/-- Only the low bits of a length count. -/
theorem bigEndian_uint32 (n : ℕ) : bigEndian (uint32 n) = bigEndian n := by
  simp only [bigEndian, wordByte, digit, uint32, List.cons.injEq, Fin.mk.injEq, and_true]
  omega

/-! ### Commands and messages -/

/-- `kproto_cmdhdr_t` -/
structure ProtoCmdhdr where
  clusterversion : Option ℤ := none
  connectionid : Option ℤ := none
  sequence : Option (BitVec 64) := none
  acksequence : Option (BitVec 64) := none
  messagetype : Option Kmtype := none
  timeout : Option ℕ := none
  earlyexit : Option Bool := none
  priority : Option ℕ := none
  timequanta : Option ℕ := none
  batchid : Option ℕ := none
deriving DecidableEq

/-- `kproto_cmd_t`: the header, and the body of the request. -/
structure ProtoCmd (β : Type) where
  header : Option ProtoCmdhdr
  body : β
deriving DecidableEq

/-- `kauth_t` -/
inductive Kauth
  | katInvalid | katHmac | katPin | katUnsolicited
deriving DecidableEq

/-- `kauth_hmac`; an empty field and no field are unpacked to a null pointer. -/
structure KauthHmac where
  identity : Option ℤ := none
  hmac : Option (List Byte) := none
deriving DecidableEq

/-- `kproto_msg_t`; of the authentication by pin only the pin. -/
structure ProtoMsg where
  authtype : Option Kauth := none
  hmacauth : Option KauthHmac := none
  pinauth : Option (Option (List Byte)) := none
  commandbytes : Option (List Byte) := none
deriving DecidableEq

/-- The libraries: packing and unpacking, with the memory they need, and HMAC-SHA1. -/
structure Lib (β : Type) where
  packKineticCommand : ProtoCmd β → List Byte
  unpackKineticCommand : List Byte → Option (ProtoCmd β)
  packKineticMessage : ProtoMsg → List Byte
  unpackKineticMessage : List Byte → Option ProtoMsg
  /-- `HMAC_Init_ex` with a new context: the key that it takes from a buffer and a length. No bytes
  stand for a null pointer. -/
  hmacInitEx : List Byte → ℤ → Option (List Byte)
  hmacSha1 : List Byte → List Byte → List Byte

/-- What the libraries promise. -/
structure Lib.Sound {β : Type} (L : Lib β) : Prop where
  command : ∀ c, L.unpackKineticCommand (L.packKineticCommand c) = some c
  message : ∀ m, L.unpackKineticMessage (L.packKineticMessage m) = some m
  /-- The header is a field of the command. -/
  command_ne : ∀ c, c.header.isSome = true → L.packKineticCommand c ≠ []
  init : ∀ key, key ≠ [] → key.length < 2 ^ 31 → L.hmacInitEx key key.length = some key
  /-- A new context has no key that could be used again. -/
  null : ∀ n, L.hmacInitEx [] n = none
  digest : ∀ key data, (L.hmacSha1 key data).length = 20

/-- `extract_to_command_header` -/
def extractToCommandHeader (hdr : Kcmdhdr) : ProtoCmdhdr where
  clusterversion := some hdr.kchClustvers
  connectionid := some hdr.kchConnid
  messagetype := some hdr.kchType
  sequence := some (BitVec.ofNat 64 hdr.kchSeq)
  timeout := if hdr.kchTimeout ≠ 0 then some hdr.kchTimeout else none
  priority := if hdr.kchPri ≠ 0 then some hdr.kchPri else none
  timequanta := if hdr.kchQuanta ≠ 0 then some hdr.kchQuanta else none
  batchid := if hdr.kchBid ≠ 0 then some hdr.kchBid else none

section Building
variable {β : Type}

/-- `create_command_bytes`, for a body with the slot of the request's type. -/
def createCommandBytes (L : Lib β) (hdr : Kcmdhdr) (body : β) : List Byte :=
  L.packKineticCommand { header := some (extractToCommandHeader hdr), body }

/-- `kmsghdr_t`; the key is a string of the caller. -/
structure Kmsghdr where
  kmhAtype : Kauth
  kmhId : ℤ := 0
  kmhHmac : List Byte := []
  kmhPin : List Byte := []
deriving DecidableEq

/-- The bytes of a string, up to the first zero. -/
def cString (s : List Byte) : List Byte := s.takeWhile (· ≠ 0)

/-- `create_message`; the key of the session stands where the HMAC will be. -/
def createMessage (hdr : Kmsghdr) (cmdBytes : List Byte) : Option ProtoMsg :=
  let commandbytes := if cmdBytes = [] then none else some cmdBytes
  match hdr.kmhAtype with
  | .katHmac =>
    some
      { authtype := some .katHmac
        hmacauth := some { identity := some hdr.kmhId, hmac := some (cString hdr.kmhHmac) }
        commandbytes }
  | .katPin =>
    some { authtype := some .katPin, pinauth := some (some hdr.kmhPin), commandbytes }
  | .katInvalid | .katUnsolicited => none

/-! ### The final message -/

/-- `compute_hmac`: the result, and the message with its HMAC unless the key is not accepted. -/
def computeHmac (L : Lib β) (m : ProtoMsg) (auth : KauthHmac) (key : List Byte) (keyLen : ℕ) :
    ℤ × ProtoMsg :=
  match L.hmacInitEx key (int32 keyLen) with
  | none => (-1, m)
  | some key =>
    let data :=
      match m.commandbytes with
      | none => []
      | some cb => wordBytes (htonl (uint32 cb.length)) ++ cb
    (1, { m with hmacauth := some { auth with hmac := some (L.hmacSha1 key data) } })

/-- **`ki_setseq`** on the vectors of a request; without a result it follows a null pointer. -/
def kiSetseq (L : Lib β) (msg : List (List Byte)) (seq : BitVec 64) : Option (List (List Byte)) :=
  match msg with
  | pdu :: packed :: vals =>
    match L.unpackKineticMessage packed with
    | none => some msg
    | some tmpMsg => do
      let tmpCmd ← L.unpackKineticCommand (tmpMsg.commandbytes.getD [])
      let hdr ← tmpCmd.header
      let auth ← tmpMsg.hmacauth
      let cb := L.packKineticCommand { tmpCmd with header := some { hdr with sequence := some seq } }
      let tmpMsg := { tmpMsg with commandbytes := tmpMsg.commandbytes.map fun _ => cb }
      let key := auth.hmac.getD []
      -- the result is not looked at
      let (_, tmpMsg) := computeHmac L tmpMsg auth key (uint32 key.length)
      let packed := L.packKineticMessage tmpMsg
      let pdu := packPdu { unpackPdu pdu with kpMsglen := uint32 packed.length }
      some (pdu :: packed :: vals)
  | _ => some msg

end Building

/-! ### What is sent -/

section Signing
variable {β : Type} (L : Lib β)

/-- The command with another sequence number. -/
def ProtoCmd.withSeq (c : ProtoCmd β) (seq : BitVec 64) : ProtoCmd β :=
  { c with header := c.header.map fun hdr => { hdr with sequence := some seq } }

/-- The bytes that are authenticated: the length of the command bytes, and the bytes. -/
def authData (cb : List Byte) : List Byte := bigEndian cb.length ++ cb

/-- A request that was sent as it should be: `m` is the message before, `pdu` the PDU before. -/
def Signed (m : ProtoMsg) (key : List Byte) (c : ProtoCmd β) (seq : BitVec 64) (pdu : List Byte)
    (vals out : List (List Byte)) : Prop :=
  ∃ pdu' packed m' auth auth' cb, out = pdu' :: packed :: vals ∧
    L.unpackKineticMessage packed = some m' ∧ m'.authtype = m.authtype ∧
    m.hmacauth = some auth ∧ m'.hmacauth = some auth' ∧ auth'.identity = auth.identity ∧
    m'.commandbytes = some cb ∧ L.unpackKineticCommand cb = some (c.withSeq seq) ∧
    auth'.hmac = some (L.hmacSha1 key (authData cb)) ∧
    (unpackPdu pdu').kpMsglen = packed.length ∧
    (unpackPdu pdu').kpMagic = (unpackPdu pdu).kpMagic ∧
    (unpackPdu pdu').kpVallen = (unpackPdu pdu).kpVallen

/-- A message for a command, with `hmac` where the HMAC stands. -/
def hmacMessage (id : ℤ) (hmac : List Byte) (c : ProtoCmd β) : ProtoMsg where
  authtype := some .katHmac
  hmacauth := some { identity := some id, hmac := some hmac }
  commandbytes := some (L.packKineticCommand c)

/-- `HMAC_Init_ex` takes the key of the session, or another one that gives the same HMAC. -/
def KeyTaken (key data : List Byte) : Prop :=
  ∃ key', L.hmacInitEx key (int32 (uint32 key.length)) = some key' ∧
    L.hmacSha1 key' data = L.hmacSha1 key data

variable {L}

theorem cString_of_notMem {s : List Byte} (h : 0 ∉ s) : cString s = s := by
  refine List.takeWhile_eq_self_iff.mpr fun b hb => ?_
  have hne : b ≠ 0 := fun h0 => h (h0 ▸ hb)
  simpa using hne

theorem createMessage_hmac (hL : L.Sound) (id : ℤ) {key : List Byte} (hkey : 0 ∉ key)
    {c : ProtoCmd β} (hc : c.header.isSome = true) :
    createMessage { kmhAtype := .katHmac, kmhId := id, kmhHmac := key } (L.packKineticCommand c) =
      some (hmacMessage L id key c) := by
  simp [createMessage, hmacMessage, cString_of_notMem hkey, hL.command_ne c hc]

/-- The keys of a usual length that are taken are those with a byte. -/
theorem keyTaken_iff (hL : L.Sound) {key data : List Byte} (hlen : key.length < 2 ^ 31) :
    KeyTaken L key data ↔ key ≠ [] := by
  have hlen' : int32 (uint32 key.length) = (key.length : ℤ) := by
    rw [uint32_of_lt (by omega), int32_of_lt hlen]
  unfold KeyTaken
  rw [hlen']
  constructor
  · rintro ⟨key', hk, -⟩ rfl
    rw [hL.null] at hk
    cases hk
  · intro hne
    exact ⟨key, hL.init key hne hlen, rfl⟩

/-- What `ki_setseq` does to a request of `create_message`. -/
theorem kiSetseq_hmacMessage (hL : L.Sound) (id : ℤ) (key : List Byte) {c : ProtoCmd β}
    (hc : c.header.isSome = true) (seq : BitVec 64) (pdu : List Byte) (vals : List (List Byte)) :
    kiSetseq L (pdu :: L.packKineticMessage (hmacMessage L id key c) :: vals) seq =
      let hmac :=
        match L.hmacInitEx key (int32 (uint32 key.length)) with
        | none => key
        | some key' => L.hmacSha1 key' (authData (L.packKineticCommand (c.withSeq seq)))
      let packed := L.packKineticMessage (hmacMessage L id hmac (c.withSeq seq))
      some (packPdu { unpackPdu pdu with kpMsglen := uint32 packed.length } :: packed :: vals) := by
  obtain ⟨hdr, hhdr⟩ := Option.isSome_iff_exists.mp hc
  have hseq : c.withSeq seq = { c with header := some { hdr with sequence := some seq } } := by
    simp [ProtoCmd.withSeq, hhdr]
  have hdata : ∀ cb : List Byte, wordBytes (htonl (uint32 cb.length)) ++ cb = authData cb := by
    intro cb
    rw [wordBytes_htonl, bigEndian_uint32, authData]
  rw [hseq]
  rcases hi : L.hmacInitEx key (int32 (uint32 key.length)) with _ | key'
  · simp [kiSetseq, hL.message, hL.command, hmacMessage, hhdr, computeHmac, hi]
  · simp [kiSetseq, hL.message, hL.command, hmacMessage, hhdr, computeHmac, hi, hdata]

/-- A key that is not taken is sent as it is, which is no HMAC. -/
theorem not_signed (hL : L.Sound) (id : ℤ) {key : List Byte} {c : ProtoCmd β}
    (hc : c.header.isSome = true) (seq : BitVec 64) (pdu : List Byte) (vals : List (List Byte))
    (hinit : L.hmacInitEx key (int32 (uint32 key.length)) = none) :
    ¬ ∃ out, kiSetseq L (pdu :: L.packKineticMessage (hmacMessage L id key c) :: vals) seq =
        some out ∧ Signed L (hmacMessage L id key c) key c seq pdu vals out := by
  rintro ⟨out, hout, hsigned⟩
  rw [kiSetseq_hmacMessage hL id key hc, hinit] at hout
  obtain ⟨pdu', packed, m', auth, auth', cb, rfl, hm', -, -, hauth', -, -, -, hhmac, -⟩ := hsigned
  cases hout
  rw [hL.message] at hm'
  cases hm'
  cases hauth'
  -- the field still holds the key
  have hkey : key = L.hmacSha1 key (authData cb) := Option.some.inj hhmac
  have hlen : key.length = 20 := by
    rw [hkey]
    exact hL.digest _ _
  have hne : key ≠ [] := by
    rintro rfl
    simp at hlen
  have hcast : int32 (uint32 key.length) = (key.length : ℤ) := by
    rw [uint32_of_lt (by omega), int32_of_lt (by omega)]
  rw [hcast, hL.init key hne (by omega)] at hinit
  cases hinit

/-- **Sending a request**: it is signed, with its sequence number and its length in place, if and
only if `HMAC_Init_ex` takes the key of the session and the length of the message fits the PDU. -/
theorem setseq_signed_iff (L : Lib β) (hL : L.Sound) (id : ℤ) (key : List Byte) (hkey : 0 ∉ key)
    (c : ProtoCmd β) (hc : c.header.isSome = true) (seq : BitVec 64) (pdu : List Byte)
    (vals : List (List Byte)) (m : ProtoMsg)
    (hm : createMessage { kmhAtype := .katHmac, kmhId := id, kmhHmac := key }
      (L.packKineticCommand c) = some m) :
    (∃ out, kiSetseq L (pdu :: L.packKineticMessage m :: vals) seq = some out ∧
        Signed L m key c seq pdu vals out) ↔
      KeyTaken L key (authData (L.packKineticCommand (c.withSeq seq))) ∧
        (L.packKineticMessage (hmacMessage L id
          (L.hmacSha1 key (authData (L.packKineticCommand (c.withSeq seq))))
          (c.withSeq seq))).length < 2 ^ 32 := by
  rw [createMessage_hmac hL id hkey hc] at hm
  cases hm
  rcases hinit : L.hmacInitEx key (int32 (uint32 key.length)) with _ | key'
  · refine iff_of_false (not_signed hL id hc seq pdu vals hinit) ?_
    rintro ⟨⟨key', hk, -⟩, -⟩
    rw [hinit] at hk
    cases hk
  · have hset := kiSetseq_hmacMessage hL id key hc seq pdu vals
    rw [hinit] at hset
    set data := authData (L.packKineticCommand (c.withSeq seq)) with hdata
    constructor
    · rintro ⟨out, hout, hsigned⟩
      rw [hset] at hout
      obtain ⟨pdu', packed, m', auth, auth', cb, rfl, hm', -, -, hauth', -, hcb, -, hhmac, hlen, -⟩ :=
        hsigned
      cases hout
      rw [hL.message] at hm'
      cases hm'
      cases hauth'
      cases hcb
      have hsame : L.hmacSha1 key' data = L.hmacSha1 key data := Option.some.inj hhmac
      refine ⟨⟨key', hinit, hsame⟩, ?_⟩
      rw [← hsame, ← hlen]
      exact htonl_lt _
    · rintro ⟨⟨key'', hk, hsame⟩, hlen⟩
      rw [hinit] at hk
      cases hk
      rw [← hsame] at hlen
      have hpdu := @unpackPdu_packPdu
        { unpackPdu pdu with
          kpMsglen := uint32 (L.packKineticMessage (hmacMessage L id (L.hmacSha1 key' data)
            (c.withSeq seq))).length }
        (by rw [uint32_of_lt hlen]; exact hlen) (kpVallen_lt pdu)
      refine ⟨_, hset, _, _, _, _, _, _, rfl, hL.message _, rfl, rfl, rfl, rfl, rfl, hL.command _,
        ?_, ?_, ?_, ?_⟩
      · exact congrArg some hsame
      · rw [hpdu]
        exact uint32_of_lt hlen
      · rw [hpdu]
      · rw [hpdu]

end Signing

/-! ### The request of the library's own test

Its bytes are those of the test of the HMAC: a getlog of all types, with the key `asdfasdf`. -/

section Table
variable {α : Type} [DecidableEq α] [Encodable α]

/-- Packing with given bytes for some values; the others start with a byte that no packed value of
the table starts with. -/
def tablePack : List (α × List Byte) → α → List Byte
  | [], x => 0 :: List.replicate (Encodable.encode x) 0
  | (y, b) :: t, x => if x = y then b else tablePack t x

def tableUnpack : List (α × List Byte) → List Byte → Option α
  | [], [] => none
  | [], _ :: zeros => Encodable.decode zeros.length
  | (y, b) :: t, bytes => if bytes = b then some y else tableUnpack t bytes

theorem tablePack_mem (x : α) : ∀ t : List (α × List Byte),
    tablePack t x ∈ t.map Prod.snd ∨ (tablePack t x).head? = some 0
  | [] => .inr rfl
  | (y, b) :: t => by
    unfold tablePack
    split_ifs
    · exact .inl List.mem_cons_self
    · exact (tablePack_mem x t).imp_left (List.mem_cons_of_mem _)

theorem tableUnpack_tablePack (x : α) : ∀ t : List (α × List Byte),
    (t.map Prod.snd).Nodup → (∀ b ∈ t.map Prod.snd, b.head? ≠ some 0) →
      tableUnpack t (tablePack t x) = some x
  | [], _, _ => by
    simp only [tablePack, tableUnpack, List.length_replicate, Encodable.encodek]
  | (y, b) :: t, hnodup, hhead => by
    simp only [List.map_cons, List.nodup_cons] at hnodup
    unfold tablePack tableUnpack
    by_cases hxy : x = y
    · rw [if_pos hxy, if_pos rfl, hxy]
    · have hne : tablePack t x ≠ b := by
        rcases tablePack_mem x t with hmem | hzero
        · exact fun h => hnodup.1 (h ▸ hmem)
        · exact fun h => hhead b List.mem_cons_self (h ▸ hzero)
      rw [if_neg hxy, if_neg hne]
      exact tableUnpack_tablePack x t hnodup.2 fun b hb => hhead b (List.mem_cons_of_mem _ hb)

end Table

instance encodableBitVec : Encodable (BitVec 64) :=
  Encodable.ofLeftInverse BitVec.toNat (BitVec.ofNat 64) fun x => by simp

deriving instance Encodable for Kmtype, ProtoCmdhdr, ProtoCmd, Kauth, KauthHmac, ProtoMsg

/-- The getlog of all types. -/
def testCmd (seq : BitVec 64) : ProtoCmd (List ℕ) where
  header := some
    { clusterversion := some 0, connectionid := some 1171500672, sequence := some seq
      messagetype := some .kmtGetlog }
  body := [0, 1, 2, 3, 4, 5, 6]

def testCmdBytes (seq : Byte) : List Byte :=
  [0x0a, 0x0c, 0x08, 0x00, 0x18, 0x80, 0xdd, 0xce, 0xae, 0x04, 0x20, seq, 0x38, 0x18, 0x12, 0x10,
    0x32, 0x0e, 0x08, 0x00, 0x08, 0x01, 0x08, 0x02, 0x08, 0x03, 0x08, 0x04, 0x08, 0x05, 0x08, 0x06]

/-- `asdfasdf` -/
def testKey : List Byte := [0x61, 0x73, 0x64, 0x66, 0x61, 0x73, 0x64, 0x66]

def testHmac : List Byte :=
  [0x78, 0x7c, 0x3c, 0x91, 0xd4, 0x0b, 0x9d, 0x26, 0x83, 0x5a, 0x8b, 0x55, 0xce, 0x3d, 0x51,
    0xa2, 0x79, 0xfd, 0xad, 0x63]

/-- The message of the identity 1 with `hmac` where the HMAC stands. -/
def testMsg (hmac : List Byte) (seq : Byte) : ProtoMsg where
  authtype := some .katHmac
  hmacauth := some { identity := some 1, hmac := some hmac }
  commandbytes := some (testCmdBytes seq)

/-- Its bytes, with the lengths of the authentication and of the HMAC. -/
def testMsgBytes (authLen hmacLen : Byte) (hmac : List Byte) (seq : Byte) : List Byte :=
  [0x20, 0x01, 0x2a, authLen, 0x08, 0x01, 0x12, hmacLen] ++ hmac ++ 0x3a :: 0x20 :: testCmdBytes seq

/-- The commands with the sequence numbers 7 and 0. -/
def testCmds : List (ProtoCmd (List ℕ) × List Byte) :=
  [(testCmd 7, testCmdBytes 7), (testCmd 0, testCmdBytes 0)]

/-- The messages with the key, with no key, and with the HMAC. -/
def testMsgs : List (ProtoMsg × List Byte) :=
  [(testMsg testKey 7, testMsgBytes 0x0c 0x08 testKey 7),
    (testMsg [] 7, testMsgBytes 0x04 0x00 [] 7),
    (testMsg [] 0, testMsgBytes 0x04 0x00 [] 0),
    (testMsg testHmac 0, testMsgBytes 0x18 0x14 testHmac 0)]

/-- The libraries, as far as the test goes. -/
def testLib : Lib (List ℕ) where
  packKineticCommand := tablePack testCmds
  unpackKineticCommand := tableUnpack testCmds
  packKineticMessage := tablePack testMsgs
  unpackKineticMessage := tableUnpack testMsgs
  hmacInitEx key n := if key = [] then none else some (key.take n.toNat)
  hmacSha1 key data :=
    if key = testKey ∧ data = authData (testCmdBytes 0) then testHmac else List.replicate 20 0

theorem testLib_sound : testLib.Sound where
  command c := tableUnpack_tablePack c testCmds (by decide) (by decide)
  message m := tableUnpack_tablePack m testMsgs (by decide) (by decide)
  command_ne c _ := by
    intro h
    rcases tablePack_mem c testCmds with hmem | hzero
    · rw [show tablePack testCmds c = [] from h] at hmem
      revert hmem
      decide
    · rw [show tablePack testCmds c = [] from h] at hzero
      cases hzero
  init key hne _ := by simp [testLib, hne]
  null n := by simp [testLib]
  digest key data := by
    simp only [testLib]
    split_ifs <;> rfl

/-- The PDU before the request is signed: no value, and the length of the message with the key. -/
def testPdu : List Byte := [0x46, 0x00, 0x00, 0x00, 0x32, 0x00, 0x00, 0x00, 0x00]

/-- The request of the test is signed when it is sent. -/
theorem setseq_signed_test :
    ∃ out, kiSetseq testLib
        [testPdu, testLib.packKineticMessage (hmacMessage testLib 1 testKey (testCmd 7))] 0 =
          some out ∧
      Signed testLib (hmacMessage testLib 1 testKey (testCmd 7)) testKey (testCmd 7) 0 testPdu []
        out :=
  (setseq_signed_iff testLib testLib_sound 1 testKey (by decide) (testCmd 7) rfl 0 testPdu [] _
    (createMessage_hmac testLib_sound 1 (by decide) rfl)).mpr
    ⟨(keyTaken_iff testLib_sound (by decide)).mpr (by decide), by decide⟩

/-- The bytes are those that the test expects. -/
example : kiSetseq testLib [testPdu, testMsgBytes 0x0c 0x08 testKey 7] 0 =
    some [[0x46, 0x00, 0x00, 0x00, 0x3e, 0x00, 0x00, 0x00, 0x00],
      testMsgBytes 0x18 0x14 testHmac 0] := by
  decide

/-- **With an empty key** the request goes out without an HMAC. -/
theorem empty_key_not_signed :
    createMessage { kmhAtype := .katHmac, kmhId := 1, kmhHmac := [] }
        (testLib.packKineticCommand (testCmd 7)) =
          some (hmacMessage testLib 1 [] (testCmd 7)) ∧
      ¬ ∃ out, kiSetseq testLib
          [testPdu, testLib.packKineticMessage (hmacMessage testLib 1 [] (testCmd 7))] 0 =
            some out ∧
        Signed testLib (hmacMessage testLib 1 [] (testCmd 7)) [] (testCmd 7) 0 testPdu [] out :=
  ⟨createMessage_hmac testLib_sound 1 (by decide) rfl,
    not_signed testLib_sound 1 rfl 0 testPdu [] (testLib_sound.null _)⟩

end Libkinetic.Kinetic.Wire
