import Libkinetic.Kinetic.Command

/-! # The keys of a request

Four builders copy the caller's keys with `keyname_to_proto`, which returns 1, or 0 if it gets no
buffer. Gets and puts give up on 0. A delete tests for a negative result and a range does not test at
all, and both go on with a body without the key. -/

namespace Libkinetic.Kinetic

/-! ### Ranges -/

/-- What the environment answers while the request of a range is created. -/
structure RangekeyEnv where
  startkey : Bool := true
  endkey : Bool := true
  /-- `create_command_bytes` gets a buffer, and packs the command. -/
  command : Bool := true
  /-- `create_message` gets its memory. -/
  message : Bool := true
deriving DecidableEq

/-- The body of a range. -/
def rangekeyBody (e : RangekeyEnv) (kr : Krange) : RangeReq :=
  { createRangekeyMessage kr with
    startkey := keynameToProto e.startkey kr.krStart
    endkey := keynameToProto e.endkey kr.krEnd }

theorem rangekeyBody_data (e : RangekeyEnv) (kr : Krange) :
    rangekeyData e.startkey e.endkey kr = .range (rangekeyBody e kr) := rfl

/-- With its buffers it is the body of the model of ranges. -/
theorem rangekeyBody_of_buffers {e : RangekeyEnv} (hs : e.startkey = true) (he : e.endkey = true)
    (kr : Krange) : rangekeyBody e kr = createRangekeyMessage kr := by
  rw [rangekeyBody, hs, he]
  rfl

/-- **`create_rangekey_message`**: without command bytes the message is created, with no command. -/
def createRangekeyMessageIn (e : RangekeyEnv) (hdr : Kcmdhdr) (kr : Krange) :
    Option (Option (Request RangeReq)) :=
  if ¬ e.message then none
  else if ¬ e.command then some none
  else some (some { hdr, body := rangekeyBody e kr })

/-! ### Keys carried in full -/

/-- A message that is created carries the key of `kv`, all elements of it. -/
def CarriesKey (kv : Kv) (created : Option (Request KprotoKv)) : Prop :=
  ∀ req, created = some req → ∃ key, kv.kvKey = some key ∧ req.body.key = some (keyBytes key)

/-- A message that is created carries the start and the end of `kr`, if they are set. -/
def CarriesRange (kr : Krange) (created : Option (Option (Request RangeReq))) : Prop :=
  ∀ req, created = some req →
    (∀ key, kr.krStart = some key → ∃ c, req = some c ∧ c.body.startkey = some key.flatten) ∧
    ∀ key, kr.krEnd = some key → ∃ c, req = some c ∧ c.body.endkey = some key.flatten

section Keys
variable {kv : Kv} {kr : Krange} {key : List (Option Key)} {verck valck : Bool} {lim : Klimits}

theorem keynameToProto_some {alloc : Bool} {keynames : Option Keyvec} {k : Key}
    (h : keynameToProto alloc keynames = some k) :
    alloc = true ∧ ∃ names, keynames = some names ∧ k = names.flatten := by
  cases keynames with
  | none => cases h
  | some names =>
    cases alloc with
    | false => cases h
    | true => exact ⟨rfl, names, rfl, (Option.some.inj h).symm⟩

theorem createMessage_some {β : Type*} {m : MsgEnv} {r req : Request β}
    (h : createMessage m r = some req) : m.command = true ∧ m.message = true ∧ req = r := by
  cases hc : m.command <;> cases hm : m.message <;> simp [createMessage, hc, hm] at h
  exact ⟨rfl, rfl, h.symm⟩

/-- A builder that gives up without a key. -/
theorem carriesKey_of_match {m : MsgEnv} {body : Key → Request KprotoKv}
    (hbody : ∀ k, (body k).body.key = some k) :
    CarriesKey kv (match keynameToProto m.key (kv.kvKey.map fragments) with
      | none => none
      | some k => createMessage m (body k)) := by
  intro req hreq
  cases hk : keynameToProto m.key (kv.kvKey.map fragments) with
  | none =>
    rw [hk] at hreq
    cases hreq
  | some k =>
    rw [hk] at hreq
    obtain ⟨-, names, hnames, rfl⟩ := keynameToProto_some hk
    obtain ⟨key, hkey, rfl⟩ := Option.map_eq_some_iff.mp hnames
    obtain ⟨-, -, rfl⟩ := createMessage_some hreq
    exact ⟨key, hkey, hbody _⟩

theorem carriesKey_getkey (m : MsgEnv) (hdr : Kcmdhdr) (kv : Kv) :
    CarriesKey kv (createGetkeyMessage m hdr kv) :=
  carriesKey_of_match fun _ => rfl

theorem carriesKey_put (m : MsgEnv) (hdr : Kcmdhdr) (kv : Kv) (shouldforce : Bool) :
    CarriesKey kv (createPutMessage m hdr kv shouldforce) :=
  carriesKey_of_match fun _ => rfl

/-- **A delete** carries its key if there was a buffer for it, and is created without. -/
theorem carriesKey_del (h : kiValidateKv kv verck valck lim = true) (m : MsgEnv) (hdr : Kcmdhdr)
    (shouldforce : Bool) : CarriesKey kv (createDelkeyMessage m hdr kv shouldforce) ↔
      m.key = true ∨ m.command = false ∨ m.message = false := by
  obtain ⟨key, hkey⟩ := kvKey_of_valid h
  unfold createDelkeyMessage createMessage
  rw [hkey]
  cases hk : m.key <;> cases hc : m.command <;> cases hm : m.message <;>
    simp [CarriesKey, hkey, keynameToProto, keyBytes]

/-- **A range** carries the keys that got a buffer. -/
theorem carriesRange_iff (e : RangekeyEnv) (hdr : Kcmdhdr) (kr : Krange) :
    CarriesRange kr (createRangekeyMessageIn e hdr kr) ↔
      e.message = false ∨
        (kr.krStart.isSome = true → e.command = true ∧ e.startkey = true) ∧
        (kr.krEnd.isSome = true → e.command = true ∧ e.endkey = true) := by
  unfold createRangekeyMessageIn CarriesRange
  cases hm : e.message <;> cases hc : e.command <;> cases hs : e.startkey <;>
    cases he : e.endkey <;> cases hks : kr.krStart <;> cases hke : kr.krEnd <;>
    simp [rangekeyBody, hs, he, hks, hke, keynameToProto]

/-- **When a message that is created carries the caller's keys.** -/
theorem keys_carried_iff (kv : Kv) (verck valck shouldforce : Bool) (kr : Krange) (lim : Klimits)
    (hdr : Kcmdhdr) (m : MsgEnv) (e : RangekeyEnv) :
    (kiValidateKv kv verck valck lim = true →
      CarriesKey kv (createGetkeyMessage m hdr kv) ∧
      CarriesKey kv (createPutMessage m hdr kv shouldforce) ∧
      (CarriesKey kv (createDelkeyMessage m hdr kv shouldforce) ↔
        m.key = true ∨ m.command = false ∨ m.message = false)) ∧
    (kiValidateRange kr lim = true → (CarriesRange kr (createRangekeyMessageIn e hdr kr) ↔
      e.message = false ∨
        (kr.krStart.isSome = true → e.command = true ∧ e.startkey = true) ∧
        (kr.krEnd.isSome = true → e.command = true ∧ e.endkey = true))) :=
  ⟨fun h => ⟨carriesKey_getkey m hdr kv, carriesKey_put m hdr kv shouldforce,
      carriesKey_del h m hdr shouldforce⟩,
    fun _ => carriesRange_iff e hdr kr⟩

/-- The keys from `[1]` to `[9]`. -/
def boundedRange : Krange := { krStart := some [[1]], krEnd := some [[9]], krCount := 5 }

/-- Without memory for the start of a range the message is created all the same, and does not carry
it. -/
theorem boundedRange_start_lost :
    ¬ CarriesRange boundedRange (createRangekeyMessageIn { startkey := false } {} boundedRange) ∧
      CarriesKey firstKv (createGetkeyMessage {} {} firstKv) := by
  have hcarried := keys_carried_iff firstKv false true true boundedRange smallLimits {} {}
    { startkey := false }
  have hkeys := hcarried.1 (by decide)
  have hrange := hcarried.2 (by decide)
  refine ⟨fun h => ?_, hkeys.1⟩
  exact absurd (hrange.mp h) (by decide)

/-- A delete goes out without its key, and a range reaches from the first key of the server. -/
theorem del_without_key :
    (dDelAioGeneric { message := { key := false }, pack := some 40 } getSes firstKv none false).req.map
        (fun r => r.cmd.body.key) = some none ∧
      createRangekeyMessageIn { startkey := false } {} boundedRange = some (some
        { hdr := {}
          body :=
            { startkey := none, endkey := some [9], startkeyinclusive := false,
              endkeyinclusive := false, reverse := false, maxreturned := 5 } }) ∧
      ¬ CarriesKey firstKv (createDelkeyMessage { key := false } {} firstKv true) := by
  refine ⟨by decide, by decide, fun h => ?_⟩
  obtain ⟨key, -, hkey⟩ := h _ rfl
  cases hkey

end Keys

end Libkinetic.Kinetic
