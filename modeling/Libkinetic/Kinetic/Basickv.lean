import Libkinetic.Base.Rounds
import Libkinetic.Kinetic.Store

/-! # Large values

`bkv_putn` cuts a value into pieces and puts them under numbered keys, `bkv_getn` gets and joins
them, and `bkv_deln` deletes the keys. The three loops use one `kv_t` for all of their requests,
into which each response writes; `ki_clean` leaves a `kv_t` as it is. The pointers of the caller are
taken not to be null. -/

namespace Libkinetic.Kinetic

open Libkinetic.Base.Rounds

/-! ### Numbered keys -/

/-- `BKV_N_MAXKEYS` -/
def bkvNMaxkeys : ℕ := 256

/-- `BKV_N_MAXKEYS_DIGITS` -/
def bkvNMaxkeysDigits : ℕ := 3

/-- What `BKV_N_MAXKEYS_FORMAT` makes of a number below 1000: a dot and three digits. -/
def bkvNMaxkeysFormat (i : ℕ) : Key :=
  [46, Fin.ofNat 256 (48 + i / 100), Fin.ofNat 256 (48 + i / 10 % 10), Fin.ofNat 256 (48 + i % 10)]

/-- The key with a number. -/
def numbered (key : Key) (i : ℕ) : Key := key ++ bkvNMaxkeysFormat i

theorem length_numbered (key : Key) (i : ℕ) : (numbered key i).length = key.length + 4 := by
  simp [numbered, bkvNMaxkeysFormat]

/-- **The numbered keys are distinct.** -/
theorem numbered_inj {key : Key} {i j : ℕ} (hi : i < 1000) (hj : j < 1000)
    (h : numbered key i = numbered key j) : i = j := by
  have hsuffix := List.append_cancel_left h
  simp only [bkvNMaxkeysFormat, List.cons.injEq, Fin.ext_iff, Fin.val_ofNat, and_true,
    true_and] at hsuffix
  omega

/-! ### The calls -/

/-- What the environment decides about a call. -/
structure BkvEnv where
  /-- `ki_limits` finds the session. -/
  config : Bool := true
  /-- `ki_create` gets its memory. -/
  create : Bool := true
  /-- `bkv_getn` gets its arrays. -/
  arrays : Bool := true
  /-- `bkv_getn` gets the buffer for the value. -/
  value : Bool := true
  /-- The requests, in the order of the rounds. -/
  turn : ℕ → Turn

/-- The call gets what it needs, and its `n` requests are served. -/
structure BkvEnv.Works (c : BkvEnv) (n : ℕ) : Prop where
  config : c.config = true
  create : c.create = true
  arrays : c.arrays = true
  value : c.value = true
  turn : ∀ i < n, (c.turn i).Serves

/-- `ki_limits` -/
def kiLimits (config : Bool) (ses : Ksession) : Klimits :=
  if config then ses.ksL
  else
    { klKeylen := 0, klVallen := 0, klVerlen := 0, klDisumlen := 0, klBatlen := 0,
      klRangekeycnt := 0, klBatopscnt := 0, klBatdelcnt := 0, klDevbatcnt := 0 }

/-- The structure with the key and the buffer of the number, and one element for the value. -/
def numberedKv (key : Key) : Kv := { kvKey := some [some key, some []], kvVal := some [{}] }

/-- The number is printed into its buffer, which is the second element of the key unless a response
has replaced the key. -/
def hangNumber (i : ℕ) (kv : Kv) : Kv :=
  { kv with kvKey := kv.kvKey.map fun key => key.set 1 (some (bkvNMaxkeysFormat i)) }

/-- What `bkv_putn` and `bkv_deln` return, unless they still wait, and what becomes of the store. -/
structure BkvOutcome where
  rc : Option ℤ
  store : Store

section Putn
variable (c : BkvEnv) (ses : Ksession)

/-- What `bkv_putn` carries from one round to the next. -/
structure PutnState where
  kv : Kv
  store : Store
  /-- What `pval` points to. -/
  pval : List Byte
  pvlen : ℕ

/-- The structure for the puts. -/
def putnKv (key : Key) : Kv :=
  { numberedKv key with
    kvNewver := some (List.replicate 8 48)
    kvDisum := some [0, 0, 0, 0]
    kvDitype := .kdiCrc32
    kvCpolicy := .kcWt }

/-- A round of `bkv_putn`. -/
def putnRound (n vlen i : ℕ) (s : PutnState) : Except (Option KStatus × Store) PutnState :=
  let rest := vlen % ses.ksL.klVallen
  let pvlen := if i = n - 1 ∧ rest ≠ 0 then rest else s.pvlen
  let kv := hangNumber i (hangVal (some (s.pval.take pvlen)) s.kv)
  let r := kiPut (c.turn i) ses s.store kv
  if r.krc = some .kOk then
    .ok { kv := r.kv, store := r.store, pval := s.pval.drop pvlen, pvlen }
  else .error (r.krc, r.store)

/-- **`bkv_putn`**; a limit of 0 for the values would be a division by zero. -/
def bkvPutn (st : Store) (key val : List Byte) : BkvOutcome :=
  let lim := kiLimits c.config ses
  if key = [] ∨ val = [] then { rc := some (-1), store := st }
  else if lim.klKeylen = 0 then { rc := some (-1), store := st }
  else if lim.klKeylen < key.length + 1 + bkvNMaxkeysDigits then { rc := some (-1), store := st }
  else
    let n := uint32 (pieces lim.klVallen val.length)
    if bkvNMaxkeys < n then { rc := some (-1), store := st }
    else if ¬ c.create then { rc := some (-1), store := st }
    else
      match rounds (putnRound c ses n val.length) n
        { kv := putnKv key, store := st, pval := val, pvlen := lim.klVallen } with
      | .ok s => { rc := some n, store := s.store }
      | .error (krc, store) => { rc := krc.map fun _ => -1, store }

end Putn

section Getn
variable (c : BkvEnv) (ses : Ksession) (st : Store)

/-- What `bkv_getn` carries from one round to the next: the structure and the values. -/
structure GetnState where
  kv : Kv
  ival : List (List Byte)

/-- What `bkv_getn` returns, unless it still waits, and `*val` with `*vlen`, if they are set. -/
structure GetnOutcome where
  rc : Option ℤ
  out : Option (Option (List Byte) × ℕ) := none
deriving DecidableEq

/-- What the first element of the value vector refers to. -/
def hungVal (kv : Kv) : List Byte := ((kv.kvVal.bind List.head?).map Valbuf.bytes).getD []

/-- A round of `bkv_getn`. -/
def getnRound (i : ℕ) (s : GetnState) : Except (Option KStatus) GetnState :=
  let r := kiGetFrom (c.turn i) ses st (hangNumber i s.kv)
  if r.krc = some .kOk then .ok { kv := r.kv, ival := s.ival ++ [hungVal r.kv] }
  else .error r.krc

/-- **`bkv_getn`** -/
def bkvGetn (key : Key) (n : ℕ) : GetnOutcome :=
  let lim := kiLimits c.config ses
  if key = [] ∨ n = 0 then { rc := some (-1) }
  else if bkvNMaxkeys < n then { rc := some (-1) }
  else if lim.klKeylen = 0 then { rc := some (-1) }
  else if lim.klKeylen < key.length + 1 + bkvNMaxkeysDigits then { rc := some (-1) }
  else if ¬ c.create then { rc := some (-1) }
  else if ¬ c.arrays then { rc := some (-1), out := some (none, 0) }
  else
    match rounds (getnRound c ses st) n { kv := numberedKv key, ival := [] } with
    | .ok s =>
      if ¬ c.value then { rc := some (-1), out := some (none, 0) }
      else { rc := some n, out := some (s.ival.flatten, (s.ival.map List.length).sum) }
    | .error none => { rc := none }
    | .error (some _) => { rc := some (-1), out := some (none, 0) }

end Getn

section Deln
variable (c : BkvEnv) (ses : Ksession)

/-- What `bkv_deln` carries from one round to the next. -/
structure DelnState where
  kv : Kv
  store : Store

/-- A round of `bkv_deln`. -/
def delnRound (i : ℕ) (s : DelnState) : Except (Option KStatus × Store) DelnState :=
  let r := kiDel (c.turn i) ses s.store (hangNumber i s.kv)
  if r.krc = some .kOk then .ok { kv := r.kv, store := r.store } else .error (r.krc, r.store)

/-- **`bkv_deln`** -/
def bkvDeln (st : Store) (key : Key) (n : ℕ) : BkvOutcome :=
  let lim := kiLimits c.config ses
  if key = [] ∨ n = 0 then { rc := some (-1), store := st }
  else if bkvNMaxkeys < n then { rc := some (-1), store := st }
  else if lim.klKeylen = 0 then { rc := some (-1), store := st }
  else if lim.klKeylen < key.length + 1 + bkvNMaxkeysDigits then { rc := some (-1), store := st }
  else if ¬ c.create then { rc := some (-1), store := st }
  else
    match rounds (delnRound c ses) n
      { kv := { numberedKv key with kvCpolicy := .kcWt }, store := st } with
    | .ok s => { rc := some n, store := s.store }
    | .error (krc, store) => { rc := krc.map fun _ => -1, store }

end Deln

/-- A check that a call which returns a number of keys has passed. -/
theorem passed {α : Type*} (rc : α → Option ℤ) {p : Prop} [Decidable p] {refused rest r : α} {n : ℕ}
    (h : (if p then refused else rest) = r) (hrc : rc r = some (n : ℤ))
    (hrefused : rc refused = some (-1)) : rest = r := by
  by_cases hp : p
  · rw [if_pos hp] at h
    rw [h, hrc, Option.some.injEq] at hrefused
    omega
  · rwa [if_neg hp] at h

/-! ### The structure between the requests -/

/-- The metadata that `ki_validate_kv` looks at. -/
structure MetaOk (lim : Klimits) (kv : Kv) : Prop where
  ver : optLen lim.klVerlen kv.kvVer = true
  newver : optLen lim.klVerlen kv.kvNewver = true
  disum : optLen lim.klDisumlen kv.kvDisum = true
  ditype : kv.kvDisum.isSome → ∀ z, kv.kvDitype ≠ .other z
  cpolicy : ∀ z, kv.kvCpolicy = .other z → z = 0

theorem kiValidateKv_iff (kv : Kv) (lim : Klimits) :
    kiValidateKv kv false true lim = true ↔
      (∃ key, kv.kvKey = some key ∧ 1 ≤ key.length ∧ (keyBytes key).length ≤ lim.klKeylen) ∧
        (∃ val, kv.kvVal = some val ∧ 1 ≤ val.length ∧ valLen val ≤ lim.klVallen) ∧
        MetaOk lim kv := by
  unfold kiValidateKv
  simp only [Bool.and_eq_true, Option.any_eq_true, decide_eq_true_eq,
    Bool.not_true, Bool.false_or, Bool.not_false, Bool.true_or, and_true]
  constructor
  · rintro ⟨⟨⟨⟨⟨⟨hkey, hval⟩, hver⟩, hnewver⟩, hdisum⟩, hdi⟩, hcp⟩
    refine ⟨hkey, hval, hver, hnewver, hdisum, ?_, ?_⟩
    · intro hsome z hz
      rw [hz] at hdi
      obtain ⟨d, hd⟩ := Option.isSome_iff_exists.mp hsome
      simp [hd] at hdi
    · intro z hz
      rw [hz] at hcp
      simpa using hcp
  · rintro ⟨hkey, hval, hver, hnewver, hdisum, hdi, hcp⟩
    refine ⟨⟨⟨⟨⟨⟨hkey, hval⟩, hver⟩, hnewver⟩, hdisum⟩, ?_⟩, ?_⟩
    · rcases hd : kv.kvDisum with _ | d
      · rfl
      · rcases ht : kv.kvDitype with _ | _ | _ | _ | _ | _ | z
        case other => exact absurd ht (hdi (by simp [hd]) z)
        all_goals rfl
    · rcases ht : kv.kvCpolicy with _ | _ | _ | z
      case other => simpa using hcp z ht
      all_goals rfl

/-- What is stored is in the limits; the tag may be empty. -/
structure Entry.Fine (lim : Klimits) (e : Entry) : Prop where
  value : e.value.length ≤ lim.klVallen
  version : optLen lim.klVerlen e.version = true
  tag : ∃ b, e.tag = some b ∧ optLen lim.klDisumlen (unpackedBytes b) = true ∧
    ((unpackedBytes b).isSome → ∃ d, e.algorithm = some d ∧ ∀ z, d ≠ .other z)

section Metadata
variable {lim : Klimits} {kv : Kv} {e : Entry} {t : Turn} {key : Key}

theorem optLen_extractBytesOptional {m : ℕ} {field ptr : Option (List Byte)}
    (hfield : optLen m field = true) (hptr : optLen m ptr = true) :
    optLen m (extractBytesOptional field ptr) = true := by
  rcases field with _ | b
  · exact hptr
  · unfold extractBytesOptional unpackedBytes
    dsimp only
    split_ifs
    · rfl
    · exact hfield

theorem optLen_ite {m : ℕ} {b : Option (List Byte)} (h : optLen m b = true) (p : Bool) :
    optLen m (if p then b else none) = true := by
  cases p
  · rfl
  · exact h

/-- A response about a stored entry leaves metadata that the next request may have. -/
theorem MetaOk.echo (h : MetaOk lim kv) (he : e.Fine lim) :
    MetaOk lim (echoKv (t.tells.response key e) kv) where
  ver := optLen_extractBytesOptional (optLen_ite he.version _) h.ver
  newver := h.newver
  disum := by
    obtain ⟨b, hb, hlen, -⟩ := he.tag
    by_cases ht : t.tells.tag = true
    · simpa [echoKv, Tells.response, ht, hb, extractBytesOptional] using hlen
    · simpa [echoKv, Tells.response, ht, extractBytesOptional] using h.disum
  ditype := by
    obtain ⟨b, hb, -, hknown⟩ := he.tag
    by_cases ht : t.tells.tag = true
    · simp only [echoKv, Tells.response, ht, if_true, hb, extractBytesOptional]
      intro hsome z
      obtain ⟨d, hd, hz⟩ := hknown hsome
      simpa [hd] using hz z
    · simpa [echoKv, Tells.response, ht, extractBytesOptional] using h.ditype
  cpolicy := h.cpolicy

theorem MetaOk.filled (h : MetaOk lim kv) (he : e.Fine lim) :
    MetaOk lim (filledKv t key e kv) where
  ver := by
    rcases hver : kv.kvVer with _ | ver
    · simp only [filledKv, fillKv, hangVal, hver]
      exact optLen_extractBytesOptional (optLen_ite he.version _) rfl
    · simp only [filledKv, fillKv, hangVal, hver]
      exact hver ▸ h.ver
  newver := h.newver
  disum := by
    obtain ⟨b, hb, hlen, -⟩ := he.tag
    rcases hdisum : kv.kvDisum with _ | disum
    · by_cases ht : t.tells.tag = true
      · simpa [filledKv, fillKv, hangVal, hdisum, Tells.response, ht, hb, extractBytesOptional]
          using hlen
      · simp [filledKv, fillKv, hangVal, hdisum, Tells.response, ht, extractBytesOptional, optLen]
    · simp only [filledKv, fillKv, hangVal, hdisum]
      exact hdisum ▸ h.disum
  ditype := by
    obtain ⟨b, hb, -, hknown⟩ := he.tag
    rcases hdisum : kv.kvDisum with _ | disum
    · by_cases ht : t.tells.tag = true
      · simp only [filledKv, fillKv, hangVal, hdisum, Tells.response, ht, if_true, hb,
          extractBytesOptional]
        intro hsome z
        obtain ⟨d, hd, hz⟩ := hknown hsome
        simpa [hd] using hz z
      · simp [filledKv, fillKv, hangVal, hdisum, Tells.response, ht, extractBytesOptional]
    · simp only [filledKv, fillKv, hangVal, hdisum]
      exact fun _ => h.ditype (by simp [hdisum])
  cpolicy := h.cpolicy

end Metadata

/-- **The structure is ready** for a request with the next number. -/
structure Ready (lim : Klimits) (key : Key) (kv : Kv) : Prop where
  key : ∃ suffix, kv.kvKey = some [some key, some suffix]
  val : ∃ b, kv.kvVal = some [b] ∧ b.bytes.length ≤ lim.klVallen
  metaonly : kv.kvMetaonly = 0
  metadata : MetaOk lim kv

section Numbering
variable {lim : Klimits} {kv : Kv} {e : Entry} {t : Turn} {key : Key} {i : ℕ}

theorem kvKey_hangNumber (h : ∃ suffix, kv.kvKey = some [some key, some suffix]) (i : ℕ) :
    (hangNumber i kv).kvKey = some [some key, some (bkvNMaxkeysFormat i)] := by
  obtain ⟨suffix, hkey⟩ := h
  simp [hangNumber, hkey]

theorem keyBytes_numbered (key : Key) (i : ℕ) :
    keyBytes [some key, some (bkvNMaxkeysFormat i)] = numbered key i := by
  simp [keyBytes, fragments, numbered]

theorem Ready.valid (h : Ready lim key kv) (hlen : key.length + 4 ≤ lim.klKeylen) (i : ℕ) :
    kiValidateKv (hangNumber i kv) false true lim = true := by
  obtain ⟨b, hval, hb⟩ := h.val
  rw [kiValidateKv_iff]
  refine ⟨⟨_, kvKey_hangNumber h.key i, by simp, ?_⟩, ⟨_, hval, by simp, by simpa [valLen] using hb⟩,
    ⟨h.metadata.ver, h.metadata.newver, h.metadata.disum, h.metadata.ditype, h.metadata.cpolicy⟩⟩
  rw [keyBytes_numbered, length_numbered]
  exact hlen

theorem Ready.hangNumber (h : Ready lim key kv) (i : ℕ) : Ready lim key (hangNumber i kv) where
  key := ⟨_, kvKey_hangNumber h.key i⟩
  val := h.val
  metaonly := h.metaonly
  metadata := ⟨h.metadata.ver, h.metadata.newver, h.metadata.disum, h.metadata.ditype,
    h.metadata.cpolicy⟩

/-- A get leaves the structure ready, with the value hung on it. -/
theorem Ready.filled (h : Ready lim key kv) (he : e.Fine lim) (k : Key) :
    Ready lim key (filledKv t k e kv) ∧ hungVal (filledKv t k e kv) = e.value := by
  obtain ⟨suffix, hkey⟩ := h.key
  obtain ⟨b, hval, -⟩ := h.val
  have hval' : (filledKv t k e kv).kvVal = some [{ bytes := e.value }] := by
    simp [filledKv, fillKv, hangVal, hval]
  refine ⟨⟨⟨suffix, ?_⟩, ⟨_, hval', he.value⟩, h.metaonly, h.metadata.filled he⟩, ?_⟩
  · simp [filledKv, fillKv, hangVal, hkey]
  · simp [hungVal, hval']

/-- A delete leaves it ready unless the response names the key. -/
theorem Ready.echo (h : Ready lim key kv) (he : e.Fine lim) (k : Key)
    (ht : t.tells.key = false) : Ready lim key (echoKv (t.tells.response k e) kv) where
  key := by
    obtain ⟨suffix, hkey⟩ := h.key
    exact ⟨suffix, by simp [echoKv, Tells.response, ht, hkey]⟩
  val := h.val
  metaonly := h.metaonly
  metadata := h.metadata.echo he

theorem ready_numberedKv (lim : Klimits) (key : Key) : Ready lim key (numberedKv key) where
  key := ⟨_, rfl⟩
  val := ⟨_, rfl, Nat.zero_le _⟩
  metaonly := rfl
  metadata := ⟨rfl, rfl, rfl, by simp [numberedKv], by simp [numberedKv]⟩

end Numbering

/-! ### Putting -/

/-- `m` pieces of a value are stored, and nothing else has changed. -/
structure Stored (lim : Klimits) (st0 st : Store) (key val : List Byte) (m : ℕ) : Prop where
  entry : ∀ j < m, ∃ e, st (numbered key j) = some e ∧ e.value = piece lim.klVallen val j ∧
    e.Fine lim
  frame : ∀ k, (∀ j < m, k ≠ numbered key j) → st k = st0 k

/-- What is true before round `i` of `bkv_putn`. -/
structure PutnInv (lim : Klimits) (st0 : Store) (key val : List Byte) (n i : ℕ) (s : PutnState) :
    Prop where
  kvKey : ∃ suffix, s.kv.kvKey = some [some key, some suffix]
  kvVal : ∃ b, s.kv.kvVal = some [b]
  newver : s.kv.kvNewver.isSome
  pval : i < n → s.pval = val.drop (i * lim.klVallen)
  pvlen : i < n → s.pvlen = lim.klVallen
  stored : Stored lim st0 s.store key val i

section Putting
variable {c : BkvEnv} {ses : Ksession} {st0 : Store} {key val : List Byte} {n i : ℕ}

/-- What a valid structure with a value of one element stores. -/
theorem kvEntry_fine {lim : Klimits} {kv : Kv} {b : Valbuf} (hval : kv.kvVal = some [b])
    (hnewver : kv.kvNewver.isSome) (hvalid : kiValidateKv kv false true lim = true) :
    (kvEntry kv).value = b.bytes ∧ (kvEntry kv).Fine lim := by
  obtain ⟨-, ⟨v, hv, -, hlen⟩, hmeta⟩ := (kiValidateKv_iff kv lim).mp hvalid
  obtain rfl : [b] = v := by rwa [hval, Option.some.injEq] at hv
  have hvalue : (kvEntry kv).value = b.bytes := by simp [kvEntry, hval]
  refine ⟨hvalue, ⟨?_, ?_, kv.kvDisum.getD [], rfl, ?_, ?_⟩⟩
  · rw [hvalue]
    simpa [valLen] using hlen
  · obtain ⟨newver, hn⟩ := Option.isSome_iff_exists.mp hnewver
    have hok := hmeta.newver
    rw [hn] at hok
    simpa [kvEntry, hn, setBytesOptional] using hok
  · rcases hd : kv.kvDisum with _ | d
    · rfl
    · have hok := hd ▸ hmeta.disum
      unfold unpackedBytes
      split_ifs
      · rfl
      · exact hok
  · intro hsome
    refine ⟨kv.kvDitype, rfl, hmeta.ditype ?_⟩
    rcases hd : kv.kvDisum with _ | d
    · simp [hd, unpackedBytes] at hsome
    · rfl

theorem numbered_ne {j : ℕ} (hi : i < bkvNMaxkeys) (hj : j < i) :
    numbered key j ≠ numbered key i := by
  intro heq
  unfold bkvNMaxkeys at hi
  have := numbered_inj (by omega) (by omega) heq
  omega

theorem Stored.next {lim : Klimits} {st : Store} {e : Entry} (h : Stored lim st0 st key val i)
    (hi : i < bkvNMaxkeys) (hvalue : e.value = piece lim.klVallen val i) (hfine : e.Fine lim) :
    Stored lim st0 (Function.update st (numbered key i) (some e)) key val (i + 1) := by
  constructor
  · intro j hj
    by_cases hji : j = i
    · subst hji
      exact ⟨e, Function.update_self .., hvalue, hfine⟩
    · rw [Function.update_of_ne (numbered_ne hi (by omega))]
      exact h.entry j (by omega)
  · intro k hk
    rw [Function.update_of_ne (hk i (by omega))]
    exact h.frame k fun j hj => hk j (by omega)

/-- **A round of `bkv_putn`** stores one piece. -/
theorem PutnInv.round {s s' : PutnState} (hv : 0 < ses.ksL.klVallen)
    (hn : n = pieces ses.ksL.klVallen val.length) (hi : i < n) (hmax : n ≤ bkvNMaxkeys)
    (h : PutnInv ses.ksL st0 key val n i s)
    (hr : putnRound c ses n val.length i s = .ok s') :
    PutnInv ses.ksL st0 key val n (i + 1) s' := by
  -- the piece, which is the remainder in the last round
  obtain ⟨pvlen, hpvlen⟩ : ∃ pvlen, pvlen = if i = n - 1 ∧ val.length % ses.ksL.klVallen ≠ 0 then
    val.length % ses.ksL.klVallen else s.pvlen := ⟨_, rfl⟩
  have hpiece : s.pval.take pvlen = piece ses.ksL.klVallen val i := by
    rw [h.pval hi, hpvlen]
    split_ifs with hlast
    · exact take_mod_eq_piece val hv (by omega) hlast.2
    · rw [h.pvlen hi]
      rfl
  have hnext : i + 1 < n → pvlen = ses.ksL.klVallen := by
    intro hi1
    have hlast : i ≠ n - 1 := by omega
    rw [hpvlen, if_neg fun hl => hlast hl.1]
    exact h.pvlen hi
  -- the put
  obtain ⟨kv, hkv⟩ : ∃ kv, kv = hangNumber i (hangVal (some (s.pval.take pvlen)) s.kv) := ⟨_, rfl⟩
  have hkey : kv.kvKey = some [some key, some (bkvNMaxkeysFormat i)] := by
    rw [hkv]
    exact kvKey_hangNumber h.kvKey i
  have hval : kv.kvVal = some [{ bytes := piece ses.ksL.klVallen val i }] := by
    obtain ⟨b, hb⟩ := h.kvVal
    simp [hkv, hangNumber, hangVal, hb, hpiece]
  have hnewver : kv.kvNewver.isSome := by
    rw [hkv]
    exact h.newver
  unfold putnRound at hr
  dsimp only at hr
  rw [← hpvlen, ← hkv] at hr
  by_cases hok : (kiPut (c.turn i) ses s.store kv).krc = some .kOk
  case neg =>
    rw [if_neg hok] at hr
    cases hr
  rw [if_pos hok] at hr
  cases hr
  obtain ⟨key', hkey', hvalid, hkv', hstore⟩ := kiPut_ok hok
  obtain rfl : [some key, some (bkvNMaxkeysFormat i)] = key' := by
    rwa [hkey, Option.some.injEq] at hkey'
  rw [keyBytes_numbered] at hstore
  obtain ⟨hvalue, hfine⟩ := kvEntry_fine hval hnewver hvalid
  have hresp : (echoKv (c.turn i).putResp kv).kvKey = kv.kvKey := by
    simp only [echoKv, (c.turn i).putResp.2]
  refine ⟨⟨bkvNMaxkeysFormat i, by rw [hkv', hresp, hkey]⟩, ⟨_, by rw [hkv']; exact hval⟩,
    by rw [hkv']; exact hnewver, ?_, hnext, ?_⟩
  · intro hi1
    show s.pval.drop pvlen = val.drop ((i + 1) * ses.ksL.klVallen)
    rw [h.pval hi, List.drop_drop, hnext hi1, Nat.succ_mul]
  · show Stored ses.ksL st0 (kiPut (c.turn i) ses s.store kv).store key val (i + 1)
    rw [hstore]
    exact h.stored.next (by omega) hvalue hfine

theorem stored_zero (lim : Klimits) (st : Store) (key val : List Byte) :
    Stored lim st st key val 0 :=
  ⟨fun _ hj => absurd hj (Nat.not_lt_zero _), fun _ _ => rfl⟩

/-- **`bkv_putn`** has stored the value when it returns a number. -/
theorem bkvPutn_ok {st : Store} (hv : 0 < ses.ksL.klVallen)
    (hmax : val.length ≤ ses.ksL.klVallen * bkvNMaxkeys)
    (h : (bkvPutn c ses st key val).rc = some (n : ℤ)) :
    key ≠ [] ∧ key.length + 4 ≤ ses.ksL.klKeylen ∧ 0 < n ∧ n ≤ bkvNMaxkeys ∧
      n = pieces ses.ksL.klVallen val.length ∧
      Stored ses.ksL st (bkvPutn c ses st key val).store key val n := by
  have hle := pieces_le hv hmax
  have huint : uint32 (pieces ses.ksL.klVallen val.length) = pieces ses.ksL.klVallen val.length :=
    uint32_of_lt (by unfold bkvNMaxkeys at hle; omega)
  have hne : (-1 : ℤ) ≠ n := by omega
  have hconfig : c.config = true := by
    by_contra hc
    simp [bkvPutn, kiLimits, hc, hne] at h
  have hlim : kiLimits c.config ses = ses.ksL := by rw [hconfig]; rfl
  unfold bkvPutn at h ⊢
  simp only [hlim, huint] at h ⊢
  split_ifs at h ⊢ with hempty hkeylen hlen hn hcreate
  all_goals try (simp only [Option.some.injEq] at h; omega)
  obtain ⟨s0, hs0⟩ : ∃ s0 : PutnState, s0 =
    { kv := putnKv key, store := st, pval := val, pvlen := ses.ksL.klVallen } := ⟨_, rfl⟩
  rw [← hs0] at h ⊢
  rcases hr : rounds (putnRound c ses (pieces ses.ksL.klVallen val.length) val.length)
    (pieces ses.ksL.klVallen val.length) s0 with ⟨krc, store⟩ | s
  · rw [hr] at h
    rcases krc with _ | krc
    · cases h
    · exact absurd (Option.some.inj h) hne
  · rw [hr] at h
    have hcount : pieces ses.ksL.klVallen val.length = n := by simpa using h
    have hinit : PutnInv ses.ksL st key val (pieces ses.ksL.klVallen val.length) 0 s0 := by
      subst hs0
      exact ⟨⟨_, rfl⟩, ⟨_, rfl⟩, rfl, by simp, fun _ => rfl, stored_zero ..⟩
    have hinv := rounds_invariant hinit (fun i t t' hi hP ht => hP.round hv rfl hi hle ht) hr
    have hpos : 0 < pieces ses.ksL.klVallen val.length := by
      by_contra hz
      have hlen := le_pieces_mul val.length hv
      rw [Nat.eq_zero_of_not_pos hz, Nat.zero_mul] at hlen
      exact hempty (.inr (List.length_eq_zero_iff.mp (Nat.le_zero.mp hlen)))
    rw [hcount] at hinv hpos hle ⊢
    rw [bkvNMaxkeysDigits] at hlen
    exact ⟨fun hk => hempty (.inl hk), by omega, hpos, hle, rfl, hinv.stored⟩

end Putting

/-! ### Getting -/

/-- What is true before round `i` of `bkv_getn`. -/
structure GetnInv (lim : Klimits) (key val : List Byte) (i : ℕ) (s : GetnState) : Prop where
  ready : Ready lim key s.kv
  ival : s.ival = (List.range i).map (piece lim.klVallen val)

section Getting
variable {c : BkvEnv} {ses : Ksession} {st0 st : Store} {key val : List Byte} {n i : ℕ}

theorem Ready.metaonly_hangNumber {lim : Klimits} {kv : Kv} (h : Ready lim key kv) (i : ℕ) :
    (Libkinetic.Kinetic.hangNumber i kv).kvMetaonly = 0 := h.metaonly

/-- **A round of `bkv_getn`** that goes on has got one piece. -/
theorem GetnInv.round {s s' : GetnState} (h : GetnInv ses.ksL key val i s)
    (hst : Stored ses.ksL st0 st key val n) (hi : i < n)
    (hr : getnRound c ses st i s = .ok s') : GetnInv ses.ksL key val (i + 1) s' := by
  unfold getnRound at hr
  dsimp only at hr
  by_cases hok : (kiGetFrom (c.turn i) ses st (hangNumber i s.kv)).krc = some .kOk
  case neg =>
    rw [if_neg hok] at hr
    cases hr
  rw [if_pos hok] at hr
  cases hr
  obtain ⟨key', e', hkey', he', hkv⟩ := kiGetFrom_ok (h.ready.metaonly_hangNumber i) hok
  obtain ⟨e, he, hvalue, hfine⟩ := hst.entry i hi
  rw [kvKey_hangNumber h.ready.key i, Option.some.injEq] at hkey'
  subst hkey'
  rw [keyBytes_numbered] at he' hkv
  obtain rfl : e' = e := by rwa [he', Option.some.injEq] at he
  obtain ⟨hready, hval⟩ := (h.ready.hangNumber i).filled (t := c.turn i) hfine (numbered key i)
  constructor
  · rw [hkv]
    exact hready
  · show s.ival ++ [hungVal _] = _
    rw [hkv, hval, h.ival, hvalue, List.range_succ, List.map_append]
    rfl

/-- A round that is served goes on. -/
theorem GetnInv.served {s : GetnState} (h : GetnInv ses.ksL key val i s)
    (hst : Stored ses.ksL st0 st key val n) (hi : i < n)
    (hlen : key.length + 4 ≤ ses.ksL.klKeylen) (ht : (c.turn i).Serves) :
    ∃ s', getnRound c ses st i s = .ok s' ∧ GetnInv ses.ksL key val (i + 1) s' := by
  obtain ⟨e, he, -, -⟩ := hst.entry i hi
  rw [← keyBytes_numbered] at he
  obtain ⟨hok, -⟩ := kiGetFrom_served ht (kvKey_hangNumber h.ready.key i)
    (h.ready.valid hlen i) (h.ready.metaonly_hangNumber i) he
  have hr : getnRound c ses st i s = .ok _ := if_pos hok
  exact ⟨_, hr, h.round hst hi hr⟩

theorem getnInv_start (lim : Klimits) (key val : List Byte) :
    GetnInv lim key val 0 { kv := numberedKv key, ival := [] } :=
  ⟨ready_numberedKv lim key, rfl⟩

/-- What returns the number of the keys has made its rounds. -/
theorem bkvGetn_ok {r : GetnOutcome} (h : bkvGetn c ses st key n = r) (hrc : r.rc = some (n : ℤ)) :
    ∃ s, rounds (getnRound c ses st) n { kv := numberedKv key, ival := [] } = .ok s ∧
      r.out = some (some s.ival.flatten, (s.ival.map List.length).sum) := by
  have hfails : r.rc ≠ some (-1) := by
    intro hrefused
    rw [hrc, Option.some.injEq] at hrefused
    omega
  unfold bkvGetn at h
  dsimp only at h
  -- the six checks in front of the rounds
  iterate 6 replace h := passed GetnOutcome.rc h hrc rfl
  rcases hr : rounds (getnRound c ses st) n { kv := numberedKv key, ival := [] } with krc | s
  · rw [hr] at h
    rcases krc with _ | krc
    · rw [← h] at hrc
      cases hrc
    · exact absurd (h ▸ rfl) hfails
  · rw [hr] at h
    have hout := passed GetnOutcome.rc h hrc rfl
    exact ⟨s, rfl, hout ▸ rfl⟩

/-- **`bkv_getn`** returns the value, if it returns the number. -/
theorem bkvGetn_value (hst : Stored ses.ksL st0 st key val n) (hv : 0 < ses.ksL.klVallen)
    (hn : n = pieces ses.ksL.klVallen val.length)
    (h : (bkvGetn c ses st key n).rc = some (n : ℤ)) :
    (bkvGetn c ses st key n).out = some (some val, val.length) := by
  obtain ⟨s, hr, hout⟩ := bkvGetn_ok rfl h
  have hinv := rounds_invariant (getnInv_start ses.ksL key val)
    (fun i t t' hi hP ht => hP.round hst hi ht) hr
  have hval : s.ival.flatten = val := by
    rw [hinv.ival, hn]
    exact flatten_all_pieces val hv
  rw [hout, ← List.length_flatten, hval]

/-- It returns the number if its requests are served. -/
theorem bkvGetn_served (hst : Stored ses.ksL st0 st key val n) (hkey : key ≠ []) (hn0 : 0 < n)
    (hmax : n ≤ bkvNMaxkeys) (hlen : key.length + 4 ≤ ses.ksL.klKeylen) (hc : c.Works n) :
    (bkvGetn c ses st key n).rc = some (n : ℤ) := by
  obtain ⟨s, hr, -⟩ := rounds_total (getnInv_start ses.ksL key val)
    (fun i t hi hP => hP.served hst hi hlen (hc.turn i hi))
  unfold bkvGetn bkvNMaxkeysDigits
  simp only [kiLimits, hc.config, hc.create, hc.arrays, hc.value, hr, if_true]
  rw [if_neg (by simp only [hkey, false_or]; omega), if_neg (by omega), if_neg (by omega),
    if_neg (by omega), if_neg (by simp), if_neg (by simp), if_neg (by simp)]

end Getting

/-! ### Deleting -/

/-- The store without the first `n` numbered keys. -/
def erased (st : Store) (key : Key) (n : ℕ) : Store := fun k =>
  if ∃ i < n, k = numbered key i then none else st k

theorem erased_zero (st : Store) (key : Key) : erased st key 0 = st := by
  funext k
  simp [erased]

theorem erased_of_ne {st : Store} {key k : Key} {n : ℕ} (h : ∀ i < n, k ≠ numbered key i) :
    erased st key n k = st k := by
  unfold erased
  rw [if_neg]
  rintro ⟨i, hi, heq⟩
  exact h i hi heq

theorem erased_succ (st : Store) (key : Key) (i : ℕ) :
    Function.update (erased st key i) (numbered key i) none = erased st key (i + 1) := by
  funext k
  by_cases hk : k = numbered key i
  · subst hk
    rw [Function.update_self, erased, if_pos ⟨i, Nat.lt_succ_self i, rfl⟩]
  · have hiff : (∃ j < i + 1, k = numbered key j) ↔ ∃ j < i, k = numbered key j := by
      constructor
      · rintro ⟨j, hj, rfl⟩
        have hji : j ≠ i := by rintro rfl; exact hk rfl
        exact ⟨j, by omega, rfl⟩
      · rintro ⟨j, hj, rfl⟩
        exact ⟨j, by omega, rfl⟩
    rw [Function.update_of_ne hk]
    simp only [erased, hiff]

/-- What is true before round `i` of `bkv_deln`, as long as no response names a key. -/
structure DelnInv (lim : Klimits) (st : Store) (key : Key) (n i : ℕ) (s : DelnState) : Prop where
  ready : i < n → Ready lim key s.kv
  store : s.store = erased st key i

section Deleting
variable {c : BkvEnv} {ses : Ksession} {st0 st : Store} {key val : List Byte} {n i : ℕ}

/-- **A round of `bkv_deln`** that is served deletes the next key. -/
theorem DelnInv.served {s : DelnState} (h : DelnInv ses.ksL st key n i s)
    (hst : Stored ses.ksL st0 st key val n) (hi : i < n) (hmax : n ≤ bkvNMaxkeys)
    (hlen : key.length + 4 ≤ ses.ksL.klKeylen) (ht : (c.turn i).Serves)
    (hkey : i + 1 < n → (c.turn i).tells.key = false) :
    ∃ s', delnRound c ses i s = .ok s' ∧ DelnInv ses.ksL st key n (i + 1) s' := by
  obtain ⟨e, he, -, hfine⟩ := hst.entry i hi
  have hold : s.store (numbered key i) = some e := by
    rw [h.store, erased_of_ne fun j hj => (numbered_ne (by omega) hj).symm, he]
  have hready := h.ready hi
  have hkv := kvKey_hangNumber hready.key i
  have hok : (kiDel (c.turn i) ses s.store (hangNumber i s.kv)).krc = some .kOk :=
    kiDel_served ht hkv (hready.valid hlen i) (by rw [keyBytes_numbered]; exact hold)
  obtain ⟨key', hkey', -, hkv', hstore⟩ := kiDel_ok hok
  rw [hkv, Option.some.injEq] at hkey'
  subst hkey'
  rw [keyBytes_numbered, oldEntry, hold, Option.getD_some] at hkv'
  rw [keyBytes_numbered] at hstore
  have hr : delnRound c ses i s = .ok _ := if_pos hok
  refine ⟨_, hr, fun hi1 => ?_, ?_⟩
  · show Ready ses.ksL key (kiDel (c.turn i) ses s.store (hangNumber i s.kv)).kv
    rw [hkv']
    exact (hready.hangNumber i).echo hfine _ (hkey hi1)
  · show (kiDel (c.turn i) ses s.store (hangNumber i s.kv)).store = _
    rw [hstore, h.store, erased_succ]

/-- What is true before round `j` when the response to the delete with number `i` is the first to
name the key: from then on that key is deleted again and again, and the next one stays. -/
structure DelnStuck (st : Store) (key : Key) (i j : ℕ) (s : DelnState) : Prop where
  before : j ≤ i → ∃ suffix, s.kv.kvKey = some [some key, some suffix]
  after : i < j → s.kv.kvKey = some [some (numbered key i)]
  next : s.store (numbered key (i + 1)) = st (numbered key (i + 1))

theorem unpackedBytes_numbered (key : Key) (i : ℕ) :
    unpackedBytes (numbered key i) = some (numbered key i) := by
  have hne : numbered key i ≠ [] := by simp [numbered, bkvNMaxkeysFormat]
  rw [unpackedBytes, if_neg hne]

/-- The key after the response to a delete of `k`. -/
theorem kvKey_echo {t : Turn} {k : Key} {e : Entry} (kv : Kv) :
    (echoKv (t.tells.response k e) kv).kvKey =
      if t.tells.key then some [unpackedBytes k] else kv.kvKey := by
  by_cases ht : t.tells.key = true
  · simp [echoKv, Tells.response, ht]
  · simp [echoKv, Tells.response, ht]

theorem DelnStuck.round {s s' : DelnState} {j : ℕ} (h : DelnStuck st key i j s)
    (hi : i + 1 < bkvNMaxkeys) (htells : (c.turn i).tells.key = true)
    (hfirst : ∀ m < i, (c.turn m).tells.key = false) (hr : delnRound c ses j s = .ok s') :
    DelnStuck st key i (j + 1) s' := by
  unfold delnRound at hr
  dsimp only at hr
  by_cases hok : (kiDel (c.turn j) ses s.store (hangNumber j s.kv)).krc = some .kOk
  case neg =>
    rw [if_neg hok] at hr
    cases hr
  rw [if_pos hok] at hr
  cases hr
  obtain ⟨key', hkey', -, hkv', hstore⟩ := kiDel_ok hok
  by_cases hj : j ≤ i
  · -- the responses up to this one have left the key as it was
    rw [kvKey_hangNumber (h.before hj) j, Option.some.injEq] at hkey'
    subst hkey'
    rw [keyBytes_numbered] at hkv' hstore
    have hkv'' := congrArg Kv.kvKey hkv'
    rw [kvKey_echo, kvKey_hangNumber (h.before hj) j] at hkv''
    refine ⟨fun hji => ?_, fun hji => ?_, ?_⟩
    · rw [hfirst j (by omega)] at hkv''
      exact ⟨_, hkv''⟩
    · obtain rfl : j = i := by omega
      rw [htells, if_pos rfl, unpackedBytes_numbered] at hkv''
      exact hkv''
    · show (kiDel (c.turn j) ses s.store (hangNumber j s.kv)).store _ = _
      rw [hstore, Function.update_of_ne (numbered_ne (by omega) (by omega)).symm]
      exact h.next
  · have hkv := h.after (by omega)
    have hkey : (hangNumber j s.kv).kvKey = some [some (numbered key i)] := by
      simp [hangNumber, hkv]
    rw [hkey, Option.some.injEq] at hkey'
    subst hkey'
    have hbytes : keyBytes [some (numbered key i)] = numbered key i := by
      simp [keyBytes, fragments]
    rw [hbytes] at hkv' hstore
    have hkv'' := congrArg Kv.kvKey hkv'
    rw [kvKey_echo, hkey, unpackedBytes_numbered, ite_self] at hkv''
    refine ⟨fun hji => absurd hji (by omega), fun _ => hkv'', ?_⟩
    show (kiDel (c.turn j) ses s.store (hangNumber j s.kv)).store _ = _
    rw [hstore, Function.update_of_ne (numbered_ne (by omega) (by omega)).symm]
    exact h.next

/-- **`bkv_deln`** deletes the numbered keys if no response but the last names its key. -/
theorem bkvDeln_erases (hst : Stored ses.ksL st0 st key val n) (hkey : key ≠ []) (hn0 : 0 < n)
    (hmax : n ≤ bkvNMaxkeys) (hlen : key.length + 4 ≤ ses.ksL.klKeylen) (hc : c.Works n)
    (htells : ∀ i, i + 1 < n → (c.turn i).tells.key = false) :
    bkvDeln c ses st key n = { rc := some (n : ℤ), store := erased st key n } := by
  have hstart : DelnInv ses.ksL st key n 0
      { kv := { numberedKv key with kvCpolicy := .kcWt }, store := st } := by
    refine ⟨fun _ => ?_, (erased_zero st key).symm⟩
    have hready := ready_numberedKv ses.ksL key
    exact ⟨hready.key, hready.val, rfl, ⟨rfl, rfl, rfl, by simp [numberedKv], by simp⟩⟩
  obtain ⟨s, hr, hinv⟩ := rounds_total hstart
    (fun i t hi hP => hP.served hst hi hmax hlen (hc.turn i hi) (htells i))
  unfold bkvDeln bkvNMaxkeysDigits
  simp only [kiLimits, hc.config, hc.create, hr, if_true]
  rw [if_neg (by simp only [hkey, false_or]; omega), if_neg (by omega), if_neg (by omega),
    if_neg (by omega), if_neg (by simp), hinv.store]

/-- What returns the number of the keys has made its rounds. -/
theorem bkvDeln_ok {r : BkvOutcome} (h : bkvDeln c ses st key n = r) (hrc : r.rc = some (n : ℤ)) :
    ∃ s, rounds (delnRound c ses) n
        { kv := { numberedKv key with kvCpolicy := .kcWt }, store := st } = .ok s ∧
      r.store = s.store := by
  unfold bkvDeln at h
  dsimp only at h
  -- the five checks in front of the rounds
  iterate 5 replace h := passed BkvOutcome.rc h hrc rfl
  rcases hr : rounds (delnRound c ses) n
    { kv := { numberedKv key with kvCpolicy := .kcWt }, store := st } with ⟨krc, store⟩ | s
  · rw [hr] at h
    rw [← h] at hrc
    rcases krc with _ | krc
    · cases hrc
    · have hne : (-1 : ℤ) = n := Option.some.inj hrc
      omega
  · rw [hr] at h
    exact ⟨s, rfl, h ▸ rfl⟩

/-- **`bkv_deln`** leaves a key if the response before it names the one that was deleted. -/
theorem bkvDeln_leaves {i : ℕ} (hst : Stored ses.ksL st0 st key val n) (hmax : n ≤ bkvNMaxkeys)
    (hi : i + 1 < n) (htells : (c.turn i).tells.key = true)
    (hfirst : ∀ m < i, (c.turn m).tells.key = false)
    (h : (bkvDeln c ses st key n).rc = some (n : ℤ)) :
    (bkvDeln c ses st key n).store (numbered key (i + 1)) ≠ none := by
  have hstart : DelnStuck st key i 0
      { kv := { numberedKv key with kvCpolicy := .kcWt }, store := st } :=
    ⟨fun _ => ⟨_, rfl⟩, fun hj => absurd hj (Nat.not_lt_zero i), rfl⟩
  obtain ⟨s, hr, hstore⟩ := bkvDeln_ok rfl h
  have hinv := rounds_invariant hstart
    (fun j t t' _ hP ht => hP.round (by omega) htells hfirst ht) hr
  obtain ⟨e, he, -, -⟩ := hst.entry (i + 1) hi
  rw [hstore, hinv.next, he]
  exact Option.some_ne_none e

end Deleting

/-! ### The three calls together -/

/-- **What the three calls promise**, for a store `st'` that `bkv_putn` has left. -/
structure RoundTrip (cd : BkvEnv) (ses : Ksession) (st : Store) (key val : List Byte) (n : ℕ)
    (st' : Store) : Prop where
  count : n = val.length ⌈/⌉ ses.ksL.klVallen
  distinct : ∀ i < n, ∀ j < n, numbered key i = numbered key j → i = j
  frame : ∀ k, (∀ i < n, k ≠ numbered key i) → st' k = st k
  value : ∀ cg : BkvEnv, (bkvGetn cg ses st' key n).rc = some (n : ℤ) →
    (bkvGetn cg ses st' key n).out = some (some val, val.length)
  returns : ∀ cg : BkvEnv, cg.Works n → (bkvGetn cg ses st' key n).rc = some (n : ℤ)
  deln : bkvDeln cd ses st' key n = { rc := some (n : ℤ), store := erased st' key n }

/-- **Putting, getting and deleting a large value**, with any environment for the puts and the gets,
and requests that are served for the deletes: all is as promised if and only if no response to a
delete but the last one names its key. -/
theorem roundTrip_iff {cp cd : BkvEnv} {ses : Ksession} {st : Store} {key val : List Byte} {n : ℕ}
    (hv : 0 < ses.ksL.klVallen) (hmax : val.length ≤ bkvNMaxkeys * ses.ksL.klVallen)
    (hput : (bkvPutn cp ses st key val).rc = some (n : ℤ)) (hdel : cd.Works n) :
    RoundTrip cd ses st key val n (bkvPutn cp ses st key val).store ↔
      ∀ i, i + 1 < n → (cd.turn i).tells.key = false := by
  obtain ⟨hkey, hlen, hn0, hn, hcount, hst⟩ := bkvPutn_ok hv (by rwa [Nat.mul_comm]) hput
  constructor
  · intro h
    by_contra hnot
    simp only [not_forall, Bool.not_eq_false] at hnot
    have hex : ∃ i, i + 1 < n ∧ (cd.turn i).tells.key = true := by
      obtain ⟨i, hi, ht⟩ := hnot
      exact ⟨i, hi, ht⟩
    obtain ⟨hi, ht⟩ := Nat.find_spec hex
    have hfirst : ∀ m < Nat.find hex, (cd.turn m).tells.key = false := by
      intro m hm
      have hmin := Nat.find_min hex hm
      simpa using fun hk => hmin ⟨by omega, hk⟩
    have hleft := bkvDeln_leaves hst hn hi ht hfirst (by rw [h.deln])
    refine hleft ?_
    rw [h.deln]
    exact if_pos ⟨_, hi, rfl⟩
  · intro h
    refine ⟨hcount.trans (pieces_eq_ceilDiv _ hv), ?_, hst.frame, ?_, ?_, ?_⟩
    · intro i hi j hj heq
      unfold bkvNMaxkeys at hn
      exact numbered_inj (by omega) (by omega) heq
    · exact fun cg hrc => bkvGetn_value hst hv hcount hrc
    · exact fun cg hcg => bkvGetn_served hst hkey hn0 hn hlen hcg
    · exact bkvDeln_erases hst hkey hn0 hn hlen hdel h

/-- A session with values of at most two bytes. -/
def twoByteSes : Ksession := { ksL := { smallLimits with klVallen := 2 } }

/-- Every request is served, by a server whose responses tell `tells`. -/
def telling (tells : Tells) : BkvEnv := { turn := fun _ => { env := getEnv, tells } }

theorem telling_works (tells : Tells) (n : ℕ) : (telling tells).Works n :=
  ⟨rfl, rfl, rfl, rfl, fun _ _ => ⟨(by decide : getEnv.goesOut = true), rfl⟩⟩

/-- Three bytes in two pieces. -/
theorem three_bytes_roundTrip :
    RoundTrip (telling {}) twoByteSes (fun _ => none) [107] [1, 2, 3] 2
      (bkvPutn (telling {}) twoByteSes (fun _ => none) [107] [1, 2, 3]).store :=
  (roundTrip_iff (by decide) (by decide) (by decide +kernel) (telling_works {} 2)).mpr
    fun _ _ => rfl

/-- **A server that names the deleted key**: the second request deletes the first key again, and
the second key stays. -/
theorem deleted_key_named :
    let st := (bkvPutn (telling { key := true }) twoByteSes (fun _ => none) [107] [1, 2, 3]).store
    (bkvPutn (telling { key := true }) twoByteSes (fun _ => none) [107] [1, 2, 3]).rc = some 2 ∧
      (bkvDeln (telling { key := true }) twoByteSes st [107] 2).rc = some (-1) ∧
      (bkvDeln (telling { key := true }) twoByteSes st [107] 2).store (numbered [107] 1) =
        st (numbered [107] 1) ∧
      st (numbered [107] 1) ≠ none := by
  decide +kernel

end Libkinetic.Kinetic
