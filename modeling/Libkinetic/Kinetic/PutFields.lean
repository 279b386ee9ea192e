import Libkinetic.Base.Buffers
import Libkinetic.Kinetic.Command

/-! # The fields of a put

`kv_t` with its pointers and their lengths, `ki_validate_kv`, and the command that
`create_put_message` builds. A null pointer with a length passes the validation, and a version that
is null is sent if the other one is not. Following a null pointer, or writing past a buffer, has no
result. -/

namespace Libkinetic.Kinetic.PutFields

open Libkinetic.Base.Buffers
open Wire (Lib extractToCommandHeader)

/-! ### The structure -/

/-- `kv_t`; the vectors are null, or have their elements. -/
structure KvPtrs where
  kvKey : Option (List (Buf Byte)) := none
  kvVal : Option (List (Buf Byte)) := none
  kvVer : Buf Byte := .null 0
  kvNewver : Buf Byte := .null 0
  kvDisum : Buf Byte := .null 0
  kvDitype : Kditype := .other 0
  kvCpolicy : Kcachepolicy := .other 0
deriving DecidableEq

/-- The lengths of a vector, added up without a bound. -/
def size (l : List (Buf Byte)) : ℕ := (l.map Buf.len).sum

/-- The lengths of a vector, added up in a `size_t`. -/
def sizeT (l : List (Buf Byte)) : ℕ := size l % 2 ^ 64

/-- A pointer that is not null has between 1 and `max` bytes. -/
def bufOk (max : ℕ) (b : Buf Byte) : Bool := b.isNull || decide (1 ≤ b.len ∧ b.len ≤ max)

/-- `ki_validate_kv` does not fail. -/
def kiValidateKv (kv : KvPtrs) (verck valck : Bool) (lim : Klimits) : Bool :=
  (kv.kvKey.any fun key => decide (1 ≤ key.length ∧ sizeT key ≤ lim.klKeylen)) &&
    (!valck || kv.kvVal.any fun val => decide (1 ≤ val.length ∧ sizeT val ≤ lim.klVallen)) &&
    bufOk lim.klVerlen kv.kvVer && bufOk lim.klVerlen kv.kvNewver &&
    (!verck || !kv.kvVer.isNull) &&
    bufOk lim.klDisumlen kv.kvDisum &&
    (kv.kvDisum.isNull || match kv.kvDitype with | .other _ => false | _ => true) &&
    match kv.kvCpolicy with | .other z => z == 0 | _ => true

/-! ### The command -/

/-- `kproto_kv_t` as a put fills it, before it is packed. -/
structure PutBody where
  key : Key
  newversion : Option (Buf Byte)
  dbversion : Option (Buf Byte)
  force : Bool
  synchronization : Kcachepolicy
  algorithm : Kditype
  tag : Option (Buf Byte)

/-- Packing reads the bytes of the fields that are set. -/
def PutBody.read (b : PutBody) : Option KprotoKv := do
  let newversion ← readOptional b.newversion
  let dbversion ← readOptional b.dbversion
  let tag ← readOptional b.tag
  some
    { key := some b.key, newversion, dbversion, tag, algorithm := some b.algorithm
      force := some b.force, synchronization := some b.synchronization }

/-- `keyname_to_proto`: the failure, or the key. The buffer has as many bytes as a `size_t` says. -/
def keynameToProto (alloc : Bool) (keynames : Option (List (Buf Byte))) : Option (Option Key) :=
  match keynames with
  | none => some none
  | some keynames =>
    if ¬ alloc then some none
    else if sizeT keynames < size keynames then none
    else (readAll keynames).map some

/-- The structure that `create_put_message` hands on. -/
def putBody (key : Key) (cmdData : KvPtrs) (shouldforce : Bool) : PutBody :=
  let versions := !cmdData.kvNewver.isNull || !cmdData.kvVer.isNull
  { key
    newversion := if versions then some cmdData.kvNewver else none
    dbversion := if versions then some cmdData.kvVer else none
    force := shouldforce
    synchronization := cmdData.kvCpolicy
    algorithm := cmdData.kvDitype
    tag := some cmdData.kvDisum }

/-- **`create_put_message`**: the failure, or the bytes of the command in the message. -/
def createPutMessage (L : Lib KprotoBody) (m : MsgEnv) (hdr : Kcmdhdr) (cmdData : KvPtrs)
    (shouldforce : Bool) : Option (Option (List Byte)) := do
  match ← keynameToProto m.key cmdData.kvKey with
  | none => some none
  | some key =>
    if ¬ m.command then some none
    else
      let body ← (putBody key cmdData shouldforce).read
      let bytes ← createCommandBytes L hdr (.keyvalue body)
      if ¬ m.message then some none else some (some bytes)

/-- The message that `p_put_aio_generic` creates. -/
def putMessage (L : Lib KprotoBody) (m : MsgEnv) (hdr : Kcmdhdr) (kv : KvPtrs) (verck : Bool) :
    Option (Option (List Byte)) :=
  createPutMessage L m { hdr with kchType := .kmtPut } kv (!verck)

/-! ### What it is to decode to -/

/-- The bytes of the key. -/
def KvPtrs.key (kv : KvPtrs) : Key := ((kv.kvKey.getD []).map Buf.elems).flatten

/-- **The fields of the command are those of the structure.** -/
structure SaysPut (kv : KvPtrs) (verck : Bool) (d : KprotoKv) : Prop where
  key : d.key = some kv.key
  tag : d.tag.getD [] = kv.kvDisum.elems
  algorithm : d.algorithm = some kv.kvDitype
  synchronization : d.synchronization = some kv.kvCpolicy
  force : d.force = some true ↔ verck = false
  dbversion : d.dbversion = kv.kvVer.get?
  newversion : d.newversion = kv.kvNewver.get?

/-- The creation of the message has a result, and if it has command bytes they decode so. -/
def PutDecodes (L : Lib KprotoBody) (m : MsgEnv) (hdr : Kcmdhdr) (kv : KvPtrs) (verck : Bool) :
    Prop :=
  ∃ r, putMessage L m hdr kv verck = some r ∧ ∀ bytes, r = some bytes →
    ∃ c d, L.unpackKineticCommand bytes = some c ∧ c.body.keyvalue = some d ∧ SaysPut kv verck d

/-- The elements of the key can be copied. -/
def KeyReadable (kv : KvPtrs) : Prop :=
  ∀ key ∈ kv.kvKey, (∀ b ∈ key, b.Readable) ∧ size key < 2 ^ 64

/-- Both versions are there or none is; or the message is not created after all. -/
def VersionsMeet (m : MsgEnv) (kv : KvPtrs) : Prop :=
  kv.kvVer.isNull = kv.kvNewver.isNull ∨
    kv.kvVer.Readable ∧ kv.kvNewver.Readable ∧ m.message = false

/-- What is read can be read, as far as the message gets, and the versions go together. -/
def PutMeets (m : MsgEnv) (kv : KvPtrs) : Prop :=
  m.key = false ∨ KeyReadable kv ∧
    (m.command = false ∨ kv.kvDisum.Readable ∧ VersionsMeet m kv)

section Put
variable {L : Lib KprotoBody} {m : MsgEnv} {hdr : Kcmdhdr} {kv : KvPtrs} {verck valck : Bool}
  {lim : Klimits} {key : List (Buf Byte)} {b : PutBody}

theorem key_of_validate (h : kiValidateKv kv verck valck lim = true) :
    ∃ key, kv.kvKey = some key := by
  simp only [kiValidateKv, Bool.and_eq_true] at h
  obtain ⟨key, hkey, -⟩ := Option.any_eq_true _ _ |>.mp h.1.1.1.1.1.1.1
  exact ⟨key, hkey⟩

theorem keynameToProto_eq (h : (∀ b ∈ key, b.Readable) ∧ size key < 2 ^ 64) :
    keynameToProto true (some key) = some (some (key.map Buf.elems).flatten) := by
  have hsize : ¬ sizeT key < size key := by
    rw [sizeT, Nat.mod_eq_of_lt h.2]
    exact lt_irrefl _
  rw [keynameToProto, if_neg (by simp), if_neg hsize, readAll_eq h.1]
  rfl

theorem keynameToProto_eq_none (h : ¬ ((∀ b ∈ key, b.Readable) ∧ size key < 2 ^ 64)) :
    keynameToProto true (some key) = none := by
  rw [keynameToProto, if_neg (by simp)]
  by_cases hsize : size key < 2 ^ 64
  · rw [if_neg (by rw [sizeT, Nat.mod_eq_of_lt hsize]; exact lt_irrefl _),
      readAll_eq_none fun hall => h ⟨hall, hsize⟩]
    rfl
  · rw [if_pos]
    unfold sizeT
    omega

/-- The versions are sent. -/
def KvPtrs.versions (kv : KvPtrs) : Bool := !kv.kvNewver.isNull || !kv.kvVer.isNull

/-- The body as it is packed. -/
def packedBody (key : Key) (kv : KvPtrs) (shouldforce : Bool) : KprotoKv where
  key := some key
  newversion := if kv.versions then some kv.kvNewver.elems else none
  dbversion := if kv.versions then some kv.kvVer.elems else none
  force := some shouldforce
  synchronization := some kv.kvCpolicy
  algorithm := some kv.kvDitype
  tag := some kv.kvDisum.elems

/-- What packing reads can be read. -/
def BodyReadable (kv : KvPtrs) : Prop :=
  kv.kvDisum.Readable ∧ (kv.versions = true → kv.kvVer.Readable ∧ kv.kvNewver.Readable)

theorem read_putBody (h : BodyReadable kv) (key : Key) (f : Bool) :
    (putBody key kv f).read = some (packedBody key kv f) := by
  unfold PutBody.read putBody packedBody
  rw [readOptional_some h.1]
  cases hv : kv.versions with
  | false =>
    have hversions : (!kv.kvNewver.isNull || !kv.kvVer.isNull) = false := hv
    simp [hversions, readOptional]
  | true =>
    have hversions : (!kv.kvNewver.isNull || !kv.kvVer.isNull) = true := hv
    simp only [hversions, if_true, readOptional_some (h.2 hv).1, readOptional_some (h.2 hv).2,
      Option.bind_eq_bind, Option.bind_some]

theorem bodyReadable_of_read {f : Bool} {k : Key} {d : KprotoKv}
    (h : (putBody k kv f).read = some d) : BodyReadable kv := by
  obtain ⟨nv, hnv, h⟩ := Option.bind_eq_some_iff.mp h
  obtain ⟨dv, hdv, h⟩ := Option.bind_eq_some_iff.mp h
  obtain ⟨t, ht, -⟩ := Option.bind_eq_some_iff.mp h
  refine ⟨readable_of_readOptional ht, fun hv => ?_⟩
  have hversions : (!kv.kvNewver.isNull || !kv.kvVer.isNull) = true := hv
  simp only [putBody, hversions, if_true] at hnv hdv
  exact ⟨readable_of_readOptional hdv, readable_of_readOptional hnv⟩

theorem read_putBody_none (h : ¬ BodyReadable kv) (k : Key) (f : Bool) :
    (putBody k kv f).read = none := by
  by_contra hne
  obtain ⟨d, hd⟩ := Option.ne_none_iff_exists'.mp hne
  exact h (bodyReadable_of_read hd)

/-- The bytes of the command of a put. -/
def putBytes (L : Lib KprotoBody) (hdr : Kcmdhdr) (kv : KvPtrs) (verck : Bool) : List Byte :=
  Wire.createCommandBytes L { hdr with kchType := .kmtPut }
    { keyvalue := some (packedBody kv.key kv (!verck)) }

/-! How far the creation of the message gets. -/

theorem putMessage_noKey (hk : kv.kvKey = some key) (h : m.key = false) :
    putMessage L m hdr kv verck = some none := by
  rw [putMessage, createPutMessage, hk, keynameToProto, if_pos (by simp [h])]
  rfl

theorem putMessage_key_unread (hk : kv.kvKey = some key) (hm : m.key = true)
    (h : ¬ KeyReadable kv) : putMessage L m hdr kv verck = none := by
  have hread : ¬ ((∀ b ∈ key, b.Readable) ∧ size key < 2 ^ 64) := by
    intro hread
    refine h fun key' hkey' => ?_
    obtain rfl := Option.some.inj (hk.symm.trans hkey')
    exact hread
  rw [putMessage, createPutMessage, hk, hm, keynameToProto_eq_none hread]
  rfl

theorem keynameToProto_kvKey (hk : kv.kvKey = some key) (h : KeyReadable kv) :
    keynameToProto true kv.kvKey = some (some kv.key) := by
  rw [hk, keynameToProto_eq (h key hk), KvPtrs.key, hk]
  rfl

theorem putMessage_noCommand (hk : kv.kvKey = some key) (hm : m.key = true) (h : KeyReadable kv)
    (hc : m.command = false) : putMessage L m hdr kv verck = some none := by
  rw [putMessage, createPutMessage, hm, keynameToProto_kvKey hk h, Option.bind_eq_bind,
    Option.bind_some]
  exact if_pos (by simp [hc])

theorem putMessage_unread (hk : kv.kvKey = some key) (hm : m.key = true) (h : KeyReadable kv)
    (hc : m.command = true) (hb : ¬ BodyReadable kv) : putMessage L m hdr kv verck = none := by
  rw [putMessage, createPutMessage, hm, keynameToProto_kvKey hk h, Option.bind_eq_bind,
    Option.bind_some]
  refine (if_neg (by simp [hc])).trans ?_
  rw [read_putBody_none hb]
  rfl

theorem putMessage_eq (hk : kv.kvKey = some key) (hm : m.key = true) (h : KeyReadable kv)
    (hc : m.command = true) (hb : BodyReadable kv) : putMessage L m hdr kv verck =
      some (if m.message then some (putBytes L hdr kv verck) else none) := by
  rw [putMessage, createPutMessage, hm, keynameToProto_kvKey hk h, Option.bind_eq_bind,
    Option.bind_some]
  refine (if_neg (by simp [hc])).trans ?_
  rw [read_putBody hb]
  cases m.message <;> rfl

/-- **The versions** in the command are those of the structure if both are null or none is. -/
theorem saysPut_iff (verck : Bool) : SaysPut kv verck (packedBody kv.key kv (!verck)) ↔
    kv.kvVer.isNull = kv.kvNewver.isNull := by
  have hversions : (packedBody kv.key kv (!verck)).dbversion = kv.kvVer.get? ∧
      (packedBody kv.key kv (!verck)).newversion = kv.kvNewver.get? ↔
        kv.kvVer.isNull = kv.kvNewver.isNull := by
    unfold packedBody KvPtrs.versions
    cases kv.kvVer <;> cases kv.kvNewver <;> simp [Buf.isNull, Buf.get?]
  rw [← hversions]
  constructor
  · exact fun h => ⟨h.dbversion, h.newversion⟩
  · rintro ⟨hdb, hnew⟩
    exact ⟨rfl, rfl, rfl, rfl, by simp [packedBody], hdb, hnew⟩

/-- Versions that go together can be read if they are sent. -/
theorem bodyReadable_and_iff (hd : kv.kvDisum.Readable) :
    BodyReadable kv ∧ (m.message = false ∨ kv.kvVer.isNull = kv.kvNewver.isNull) ↔
      VersionsMeet m kv := by
  have hnull : kv.kvVer.isNull = kv.kvNewver.isNull → BodyReadable kv := by
    refine fun heq => ⟨hd, fun hv => ?_⟩
    unfold KvPtrs.versions at hv
    rw [heq, Bool.or_self, Bool.not_eq_true'] at hv
    exact ⟨Buf.readable_of_not_null (heq.trans hv), Buf.readable_of_not_null hv⟩
  have hsent : kv.kvVer.isNull ≠ kv.kvNewver.isNull → kv.versions = true := by
    unfold KvPtrs.versions
    cases kv.kvVer.isNull <;> cases kv.kvNewver.isNull <;> simp
  unfold VersionsMeet
  constructor
  · rintro ⟨hb, hmess | heq⟩
    · refine or_iff_not_imp_left.mpr fun hne => ?_
      obtain ⟨hver, hnew⟩ := hb.2 (hsent hne)
      exact ⟨hver, hnew, hmess⟩
    · exact .inl heq
  · rintro (heq | ⟨hver, hnew, hmess⟩)
    · exact ⟨hnull heq, .inr heq⟩
    · exact ⟨⟨hd, fun _ => ⟨hver, hnew⟩⟩, .inl hmess⟩

/-- **When the command of a put says what the structure does**: what is read can be read, and both
versions are given or none is. -/
theorem put_decodes_iff (L : Lib KprotoBody)
    (hinv : ∀ c, L.unpackKineticCommand (L.packKineticCommand c) = some c) (m : MsgEnv)
    (hdr : Kcmdhdr) (kv : KvPtrs) (verck valck : Bool) (lim : Klimits)
    (h : kiValidateKv kv verck valck lim = true) :
    PutDecodes L m hdr kv verck ↔ PutMeets m kv := by
  obtain ⟨key, hk⟩ := key_of_validate h
  have hnone : putMessage L m hdr kv verck = none → ¬ PutDecodes L m hdr kv verck := by
    rintro hret ⟨r, hr, -⟩
    rw [hret] at hr
    cases hr
  have hfailure : putMessage L m hdr kv verck = some none → PutDecodes L m hdr kv verck :=
    fun hret => ⟨none, hret, fun bytes hbytes => by cases hbytes⟩
  unfold PutMeets
  cases hm : m.key with
  | false => exact iff_of_true (hfailure (putMessage_noKey hk hm)) (.inl rfl)
  | true =>
    rw [or_iff_right (by simp)]
    by_cases hkey : KeyReadable kv
    swap
    · exact iff_of_false (hnone (putMessage_key_unread hk hm hkey)) fun h => hkey h.1
    rw [and_iff_right hkey]
    cases hc : m.command with
    | false => exact iff_of_true (hfailure (putMessage_noCommand hk hm hkey hc)) (.inl rfl)
    | true =>
      rw [or_iff_right (by simp)]
      by_cases hb : BodyReadable kv
      swap
      · refine iff_of_false (hnone (putMessage_unread hk hm hkey hc hb)) fun hmeets => hb ?_
        exact ((bodyReadable_and_iff hmeets.1).mpr hmeets.2).1
      have hret : putMessage L m hdr kv verck = _ := putMessage_eq hk hm hkey hc hb
      rw [and_iff_right hb.1, ← bodyReadable_and_iff hb.1, and_iff_right hb]
      unfold PutDecodes
      rw [hret]
      cases hmess : m.message with
      | false => exact iff_of_true ⟨none, rfl, fun bytes hbytes => by cases hbytes⟩ (.inl rfl)
      | true =>
        rw [or_iff_right (by simp), ← saysPut_iff verck]
        have hunpack : L.unpackKineticCommand (putBytes L hdr kv verck) = some
            { header := some (extractToCommandHeader { hdr with kchType := .kmtPut })
              body := { keyvalue := some (packedBody kv.key kv (!verck)) } } := hinv _
        constructor
        · rintro ⟨r, hr, hall⟩
          obtain ⟨c, d, hc, hd, hsays⟩ := hall _ (Option.some.inj hr).symm
          rw [hunpack, Option.some.injEq] at hc
          rw [← hc, Option.some.injEq] at hd
          exact hd ▸ hsays
        · intro hsays
          refine ⟨_, rfl, fun bytes hbytes => ?_⟩
          obtain rfl := Option.some.inj hbytes
          exact ⟨_, _, hunpack, rfl, hsays⟩

/-! ### Structures whose pointers can be read -/

/-- The structure without the lengths of its null pointers. -/
def KvPtrs.toKv (kv : KvPtrs) : Kv where
  kvKey := kv.kvKey.map fun key => key.map Buf.get?
  kvVal := kv.kvVal.map fun val => val.map fun b => { bytes := b.elems }
  kvVer := kv.kvVer.get?
  kvNewver := kv.kvNewver.get?
  kvDisum := kv.kvDisum.get?
  kvDitype := kv.kvDitype
  kvCpolicy := kv.kvCpolicy

theorem fragments_get? (key : List (Buf Byte)) :
    fragments (key.map Buf.get?) = key.map Buf.elems := by
  rw [fragments, List.map_map]
  rfl

theorem isSome_get? (b : Buf Byte) : b.get?.isSome = !b.isNull := by
  cases b <;> rfl

/-- **Where everything can be read** the message is that of the model without null pointers that
have a length. -/
theorem putMessage_toKv (hkey : KeyReadable kv) (hb : BodyReadable kv) :
    putMessage L m hdr kv verck =
      some ((Kinetic.createPutMessage m { hdr with kchType := .kmtPut } kv.toKv (!verck)).bind
        fun req => createCommandBytes L { hdr with kchType := .kmtPut } (.keyvalue req.body)) := by
  unfold Kinetic.createPutMessage
  cases hk : kv.kvKey with
  | none =>
    rw [putMessage, createPutMessage, hk]
    simp only [KvPtrs.toKv, hk]
    rfl
  | some key =>
    have hkeys : kv.toKv.kvKey.map fragments = some (key.map Buf.elems) := by
      rw [KvPtrs.toKv, hk, Option.map_some, Option.map_some, fragments_get?]
    rw [hkeys]
    cases hm : m.key with
    | false =>
      rw [putMessage_noKey hk hm]
      rfl
    | true =>
      cases hc : m.command with
      | false =>
        rw [putMessage_noCommand hk hm hkey hc]
        simp [Kinetic.keynameToProto, createMessage, hc]
      | true =>
        rw [putMessage_eq hk hm hkey hc hb]
        cases hmess : m.message with
        | false => simp [Kinetic.keynameToProto, createMessage, hc, hmess]
        | true =>
          have hbody : kv.key = (key.map Buf.elems).flatten := by
            rw [KvPtrs.key, hk]
            rfl
          simp [Kinetic.keynameToProto, createMessage, hc, hmess, createCommandBytes, stitch,
            putBytes, packedBody, KvPtrs.versions, KvPtrs.toKv, isSome_get?, setBytesOptional,
            hbody, Buf.elems]

end Put

/-! ### Three puts -/

/-- The key `[1]` with a checksum. -/
def plainPut : KvPtrs where
  kvKey := some [.ref [1]]
  kvVal := some [.ref []]
  kvDisum := .ref [1]
  kvDitype := .kdiSha1
  kvCpolicy := .kcWb

/-- The same with a new version for a key that has none. -/
def versionedPut : KvPtrs := { plainPut with kvNewver := .ref [2] }

/-- And with the length of a stored version that is null. -/
def stalePut : KvPtrs := { versionedPut with kvVer := .null 8 }

/-- The commands of the first two puts with their bytes. -/
def putCmds : List (Wire.ProtoCmd KprotoBody × List Byte) :=
  [({ header := some (extractToCommandHeader (connHdr .kmtPut 0))
      body := { keyvalue := some (packedBody [1] plainPut true) } },
    [0x0a, 0x0c, 0x08, 0x00, 0x18, 0x80, 0xdd, 0xce, 0xae, 0x04, 0x20, 0x07, 0x38, 0x04, 0x12, 0x0e,
      0x0a, 0x0c, 0x1a, 0x01, 0x01, 0x2a, 0x01, 0x01, 0x30, 0x01, 0x40, 0x01, 0x48, 0x02]),
    ({ header := some (extractToCommandHeader (connHdr .kmtPut 0))
       body := { keyvalue := some (packedBody [1] versionedPut true) } },
    [0x0a, 0x0c, 0x08, 0x00, 0x18, 0x80, 0xdd, 0xce, 0xae, 0x04, 0x20, 0x07, 0x38, 0x04, 0x12, 0x13,
      0x0a, 0x11, 0x12, 0x01, 0x02, 0x1a, 0x01, 0x01, 0x22, 0x00, 0x2a, 0x01, 0x01, 0x30, 0x01,
      0x40, 0x01, 0x48, 0x02])]

/-- The libraries, as far as these puts go. -/
def putLib : Lib KprotoBody where
  packKineticCommand := Wire.tablePack putCmds
  unpackKineticCommand := Wire.tableUnpack putCmds
  packKineticMessage := Wire.tablePack []
  unpackKineticMessage := Wire.tableUnpack []
  hmacInitEx key n := if key = [] then none else some (key.take n.toNat)
  hmacSha1 _ _ := List.replicate 20 0

theorem putLib_inverse (c : Wire.ProtoCmd KprotoBody) :
    putLib.unpackKineticCommand (putLib.packKineticCommand c) = some c :=
  Wire.tableUnpack_tablePack c putCmds (by decide) (by decide)

theorem plainPut_decodes : PutDecodes putLib {} (connHdr .kmtPut 0) plainPut false :=
  (put_decodes_iff putLib putLib_inverse {} (connHdr .kmtPut 0) plainPut false true smallLimits
    (by decide)).mpr
    (.inr ⟨fun key hkey => by
      obtain rfl := Option.some.inj hkey
      exact ⟨by decide, by decide⟩, .inr ⟨by decide, .inl rfl⟩⟩)

theorem versionedPut_keyReadable : KeyReadable versionedPut := by
  intro key hkey
  obtain rfl := Option.some.inj hkey
  exact ⟨by decide, by decide⟩

theorem versionedPut_not_decodes :
    ¬ PutDecodes putLib {} (connHdr .kmtPut 0) versionedPut false := by
  have hb : BodyReadable versionedPut := ⟨by decide, fun _ => ⟨by decide, by decide⟩⟩
  rintro ⟨r, hr, hall⟩
  rw [putMessage_eq rfl rfl versionedPut_keyReadable rfl hb, Option.some.injEq] at hr
  obtain ⟨c, d, hc, hd, hsays⟩ := hall _ hr.symm
  have hunpack : putLib.unpackKineticCommand
      (putBytes putLib (connHdr .kmtPut 0) versionedPut false) = some
        { header := some (extractToCommandHeader (connHdr .kmtPut 0))
          body := { keyvalue := some (packedBody versionedPut.key versionedPut true) } } :=
    putLib_inverse _
  rw [hunpack, Option.some.injEq] at hc
  rw [← hc, Option.some.injEq] at hd
  have hsame := (saysPut_iff _).mp (hd ▸ hsays)
  revert hsame
  decide

theorem stalePut_not_decodes : ¬ PutDecodes putLib {} (connHdr .kmtPut 0) stalePut false := by
  have hb : ¬ BodyReadable stalePut := fun h => absurd (h.2 (by decide)).1 (by decide)
  rintro ⟨r, hr, -⟩
  have hnone : putMessage putLib {} (connHdr .kmtPut 0) stalePut false = none :=
    putMessage_unread rfl rfl versionedPut_keyReadable rfl hb
  rw [hnone] at hr
  cases hr

/-- **A new version alone** takes an empty stored version with it, that the structure does not have;
and where the null pointer has a length, that many bytes are read from it. -/
theorem lone_version_sent :
    (kiValidateKv versionedPut false true smallLimits = true ∧
        ¬ PutDecodes putLib {} (connHdr .kmtPut 0) versionedPut false) ∧
      kiValidateKv stalePut false true smallLimits = true ∧
        ¬ PutDecodes putLib {} (connHdr .kmtPut 0) stalePut false :=
  ⟨⟨by decide, versionedPut_not_decodes⟩, by decide, stalePut_not_decodes⟩

end Libkinetic.Kinetic.PutFields
