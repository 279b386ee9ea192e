import Libkinetic.Base.Calls
import Libkinetic.Toolbox.Delrange

/-! # The basic calls are those of a map

All calls of `basickv.c`, for one key and for numbered ones, made one after the other against a
server that keeps a map. An abstract state is a map from keys to values, and `Promise` says what a
caller may rely on whatever becomes of the requests: a put that fails has stored the value or not,
`bkv_putn` has stored the first pieces, and a value that is returned is the one of the key. The
pointers of the caller are taken not to be null. -/

namespace Libkinetic.Kinetic.Basicmap

open Libkinetic.Base.Calls Libkinetic.Base.Rounds Libkinetic.Toolbox.Delrange

/-! ### The calls for one key -/

/-- What a call returns, unless it still waits, and `*val` with `*vlen`, if they are set. -/
structure BkvReply where
  rc : Option ℤ
  out : Option (Option (List Byte) × ℕ) := none
deriving DecidableEq

section Single
variable (c : BkvEnv) (ses : Ksession) (st : Store)

/-- The checks in front of a request for one key; the last one is for the memory. -/
def bkvChecks (key : Key) : Bool :=
  let lim := kiLimits c.config ses
  decide (key ≠ []) && decide (lim.klKeylen ≠ 0) && decide (key.length ≤ lim.klKeylen) && c.create

/-- The structure with the key and one element for the value. -/
def oneKv (key : Key) : Kv := { kvKey := some [some key], kvVal := some [{}] }

/-- **`bkv_get`** -/
def bkvGet (key : Key) : BkvReply :=
  if ¬ bkvChecks c ses key then { rc := some (-1) }
  else
    let r := kiGetFrom (c.turn 0) ses st (oneKv key)
    if r.krc = some .kOk then
      { rc := some 0, out := some (some (hungVal r.kv), (hungVal r.kv).length) }
    else { rc := r.krc.map fun _ => -1 }

/-- The structure for the put. -/
def putKv (key : Key) (val : List Byte) : Kv :=
  { oneKv key with
    kvVal := some [{ bytes := val }]
    kvNewver := some (List.replicate 8 48)
    kvDisum := some [0, 0, 0, 0]
    kvDitype := .kdiCrc32
    kvCpolicy := .kcWt }

/-- **`bkv_put`** -/
def bkvPut (key : Key) (val : List Byte) : BkvOutcome :=
  if ¬ bkvChecks c ses key then { rc := some (-1), store := st }
  else
    let r := kiPut (c.turn 0) ses st (putKv key val)
    { rc := r.krc.map fun krc => if krc = .kOk then 0 else -1, store := r.store }

/-- The structure for the delete. -/
def bkvDelKv (key : Key) : Kv := { oneKv key with kvCpolicy := .kcWt }

/-- **`bkv_del`** -/
def bkvDel (key : Key) : BkvOutcome :=
  if ¬ bkvChecks c ses key then { rc := some (-1), store := st }
  else
    let r := kiDel (c.turn 0) ses st (bkvDelKv key)
    { rc := r.krc.map fun krc => if krc = .kOk then 0 else -1, store := r.store }

/-- **`bkv_exists`** -/
def bkvExists (key : Key) : BkvReply :=
  if ¬ bkvChecks c ses key then { rc := some (-1) }
  else
    let t := c.turn 0
    let r := kiGetversion t.env ses (serveGetversion t st) (oneKv key)
    { rc := r.krc.map fun krc => if krc = .kOk then 1 else if krc = .kEnotfound then 0 else -1 }

end Single

/-! ### All calls -/

/-- A call with its arguments. -/
inductive BkvOp
  | put (key : Key) (val : List Byte)
  | get (key : Key)
  | del (key : Key)
  | exist (key : Key)
  | putn (key : Key) (val : List Byte)
  | getn (key : Key) (n : ℕ)
  | deln (key : Key) (n : ℕ)
deriving DecidableEq

/-- A call and what its environment decides, made in a session. -/
def bkvCall (ses : Ksession) (a : BkvEnv × BkvOp) (st : Store) : BkvReply × Store :=
  let c := a.1
  match a.2 with
  | .put key val => ({ rc := (bkvPut c ses st key val).rc }, (bkvPut c ses st key val).store)
  | .get key => (bkvGet c ses st key, st)
  | .del key => ({ rc := (bkvDel c ses st key).rc }, (bkvDel c ses st key).store)
  | .exist key => (bkvExists c ses st key, st)
  | .putn key val => ({ rc := (bkvPutn c ses st key val).rc }, (bkvPutn c ses st key val).store)
  | .getn key n => ({ rc := (bkvGetn c ses st key n).rc, out := (bkvGetn c ses st key n).out }, st)
  | .deln key n => ({ rc := (bkvDeln c ses st key n).rc }, (bkvDeln c ses st key n).store)

/-! ### The map -/

/-- The values of the keys. -/
abbrev Contents := Key → Option (List Byte)

/-- What the server keeps, without the metadata. -/
def contents (st : Store) : Contents := fun k => (st k).map Entry.value

/-- The map after the first pieces of a value have been put under the numbered keys. -/
def written (v : ℕ) (m : Contents) (key : Key) (val : List Byte) : ℕ → Contents
  | 0 => m
  | j + 1 => Function.update (written v m key val j) (numbered key j) (some (piece v val j))

/-- The map without the first numbered keys. -/
def without (m : Contents) (key : Key) (n : ℕ) : Contents := fun k =>
  if ∃ i < n, k = numbered key i then none else m k

/-- An answer that says that the key is not there. -/
def notFound : Completion KprotoKv → Bool
  | .resp (.msg (.cmd c)) => decide (extractCmdstatusCode c = .kEnotfound)
  | _ => false

/-- The server does not say of a key that it is not there unless that is so, and its answers to the
deletes do not name the key. -/
structure Sincere (c : BkvEnv) : Prop where
  honest : ∀ i, ∀ f ∈ (c.turn i).fault, notFound f.completion = false
  quiet : ∀ i, (c.turn i).tells.key = false

/-- `bkv_putn` has stored the first pieces, and all of them if it returns their number. -/
def PutnPromise (v : ℕ) (m : Contents) (key : Key) (val : List Byte) (rc : Option ℤ)
    (m' : Contents) : Prop :=
  ∃ j ≤ min (pieces v val.length) bkvNMaxkeys, m' = written v m key val j ∧
    (rc = some (pieces v val.length : ℤ) → j = pieces v val.length) ∧
    (rc = some (pieces v val.length : ℤ) ∨ rc = some (-1) ∨ rc = none)

/-- **What a caller may rely on**: a call in the environment `c`, its reply, and the maps before and
after it. -/
def Promise (lim : Klimits) (a : BkvEnv × BkvOp) (m : Contents) (r : BkvReply) (m' : Contents) :
    Prop :=
  match a.2 with
  | .put key val =>
    (m' = m ∨ m' = Function.update m key (some val)) ∧
      (r.rc = some 0 → m' = Function.update m key (some val))
  | .get key =>
    m' = m ∧ (r.rc = some 0 → ∃ val, m key = some val ∧ r.out = some (some val, val.length))
  | .del key =>
    (m' = m ∨ m' = Function.update m key none) ∧
      (r.rc = some 0 → m' = Function.update m key none)
  | .exist key =>
    m' = m ∧ (r.rc = some 1 → (m key).isSome) ∧ (Sincere a.1 → r.rc = some 0 → m key = none)
  | .putn key val => PutnPromise lim.klVallen m key val r.rc m'
  | .getn key n =>
    m' = m ∧ (r.rc = some (n : ℤ) → ∃ val : ℕ → List Byte,
      (∀ i < n, m (numbered key i) = some (val i)) ∧
        r.out = some (some ((List.range n).map val).flatten,
          ((List.range n).map val).flatten.length))
  | .deln key n =>
    (∀ k, m' k = m k ∨ m' k = none ∧ ∃ i < n, k = numbered key i) ∧
      (Sincere a.1 → r.rc = some (n : ℤ) → m' = without m key n)

theorem contents_update (st : Store) (k : Key) (e : Option Entry) :
    contents (Function.update st k e) =
      Function.update (contents st) k (e.map Entry.value) := by
  funext k'
  by_cases hk : k' = k
  · subst hk
    simp [contents]
  · simp [contents, Function.update_of_ne hk]

theorem contents_erased (st : Store) (key : Key) (n : ℕ) :
    contents (erased st key n) = without (contents st) key n := by
  funext k
  unfold contents erased without
  split_ifs
  · rfl
  · rfl

/-! ### What the requests do -/

section Requests
variable {t : Turn} {ses : Ksession} {st : Store} {kv : Kv} {kop : Kop} {sl : ℕ} {i : KvIssue}
  {serve : KvReq → Store × RespMsg KprotoKv}

/-- The store is as it was, or as the server has left it after the request. -/
theorem turnCall_store : (turnCall t kop ses sl i serve st kv).store = st ∨
    ∃ req, i.req = some req ∧ (turnCall t kop ses sl i serve st kv).store = (serve req).1 := by
  unfold turnCall kvCall
  rcases hi : i.req with _ | req
  · exact .inl rfl
  · dsimp only [Turn.serve]
    by_cases happlied : t.fault.all Fault.applied = true
    · exact .inr ⟨req, rfl, if_pos happlied⟩
    · exact .inl (if_neg happlied)

theorem pPutAioGeneric_some {e : IssueEnv} {req : KvReq}
    (h : (pPutAioGeneric e ses kv none false).req = some req) :
    ∃ cmd len, putMessage e ses kv none false = .ok (cmd, len) ∧
      req = { cmd, val := kv.kvVal.getD [] } := by
  unfold pPutAioGeneric at h
  rcases hm : putMessage e ses kv none false with ⟨krc, events⟩ | ⟨cmd, len⟩
  · simp [hm] at h
  · rw [hm] at h
    dsimp only at h
    split_ifs at h
    exact ⟨cmd, len, rfl, (Option.some.inj h).symm⟩

/-- **A put**, whatever it returns, has stored the entry or nothing. -/
theorem kiPut_store (t : Turn) (ses : Ksession) (st : Store) (kv : Kv) :
    (kiPut t ses st kv).store = st ∨ ∃ key, kv.kvKey = some key ∧
      (kiPut t ses st kv).store = Function.update st (keyBytes key) (some (kvEntry kv)) := by
  have hcall : kiPut t ses st kv = turnCall t .puts ses
    (IssueDone.ofKv t.env (pPutAioGeneric t.env ses kv none false)).sendlen
    (pPutAioGeneric t.env ses kv none false) (t.servePut st) st kv := rfl
  rw [hcall]
  rcases turnCall_store with h | ⟨req, hi, h⟩
  · exact .inl h
  · right
    obtain ⟨cmd, len, hm, rfl⟩ := pPutAioGeneric_some hi
    obtain ⟨-, hcreate⟩ := kvMessage_ok hm
    obtain ⟨key, hkey, hcmd, hentry⟩ := createPutMessage_some hcreate
    refine ⟨key, hkey, h.trans ?_⟩
    simp only [Turn.servePut, hcmd, hentry]

/-- **A delete**, whatever it returns, has removed the key or nothing. -/
theorem kiDel_store (t : Turn) (ses : Ksession) (st : Store) (kv : Kv) :
    (kiDel t ses st kv).store = st ∨ ∃ key, kv.kvKey = some key ∧
      (kiDel t ses st kv).store = Function.update st (keyBytes key) none := by
  have hcall : kiDel t ses st kv = turnCall t .dels ses
    (IssueDone.ofKv t.env (dDelAioGeneric t.env ses kv none false)).sendlen
    (dDelAioGeneric t.env ses kv none false) (t.serveDel st) st kv := rfl
  rw [hcall]
  rcases turnCall_store with h | ⟨req, hi, h⟩
  · exact .inl h
  · obtain ⟨len, hm⟩ := dDelAioGeneric_some hi
    obtain ⟨hvalid, hcreate⟩ := kvMessage_ok hm
    obtain ⟨key, hkey⟩ := kvKey_of_valid hvalid
    have hcmd := createDelkeyMessage_some hkey hcreate
    by_cases hmk : t.env.message.key = true
    · rw [if_pos hmk] at hcmd
      rcases hold : st (keyBytes key) with _ | entry
      · left
        rw [h]
        simp only [Turn.serveDel, hcmd, hold]
        split_ifs
        · rfl
        · rfl
      · refine .inr ⟨key, hkey, h.trans ?_⟩
        simp only [Turn.serveDel, hcmd, hold]
    · rw [if_neg hmk] at hcmd
      left
      rw [h]
      simp only [Turn.serveDel, hcmd]

theorem buildKio_ne_notFound {ρ : Type*} {e : IssueEnv} {kmreq : Option ρ} {krc : KStatus}
    (h : buildKio e kmreq .kEnomem = .error krc) : krc ≠ .kEnotfound := by
  rintro rfl
  rcases kmreq with _ | kmreq <;> rcases hp : e.pack with _ | msglen <;>
    simp [buildKio, hp, ite_eq_iff] at h

/-- A request that is not sent does not say that the key is not there. -/
theorem gGetAioGeneric_ne_notFound {krc : KStatus} {events : List KopEv} {msgType : Kmtype}
    {e : IssueEnv} (h : gGetAioGeneric e ses kv none msgType none = .error (krc, events)) :
    krc ≠ .kEnotfound := by
  rintro rfl
  unfold gGetAioGeneric at h
  rcases hb : buildKio e (createGetkeyMessage e.message { ses.ksCh with kchType := msgType } kv)
    .kEnomem with krc | req
  · have hne := buildKio_ne_notFound hb
    simp [hb, ite_eq_iff, hne] at h
  · simp [hb, ite_eq_iff] at h

/-- Only such an answer makes the completion say so. -/
theorem getversComplete_notFound {a : GetAnswer} {kio : GetKio} (hcmd : kio.kioCmd = .kmtGetvers)
    (h : (gGetAioComplete a ses kio kv none).krc = .kEnotfound) :
    notFound a.completion = true := by
  obtain ⟨completion, msglen, val⟩ := a
  rcases completion with _ | _ | (_ | _ | _ | _ | _ | m)
  case resp.msg =>
    simp only [gGetAioComplete, hcmd, getExtract] at h
    rcases m with _ | _ | c
    · simp [extractGetkey, getFinish] at h
    · simp [extractGetkey, getFinish] at h
    · by_cases hc : extractCmdstatusCode c = .kOk
      · rcases hb : c.body with _ | response
        · simp [extractGetkey, getFinish, hc, hb] at h
        · simp [extractGetkey, getFinish, hc, hb] at h
      · simpa [extractGetkey, getFinish, hc, notFound] using h
  all_goals simp [gGetAioComplete] at h

/-- **A request for a version** finds a key only if it is there; it does not find it only if it is
not there, or if the server says so without cause. -/
theorem kiGetversion_finds (t : Turn) (ses : Ksession) (st : Store) {key : List (Option Key)}
    (hkey : kv.kvKey = some key) :
    ((kiGetversion t.env ses (serveGetversion t st) kv).krc = some .kOk →
      (st (keyBytes key)).isSome = true) ∧
    ((∀ f ∈ t.fault, notFound f.completion = false) →
      (kiGetversion t.env ses (serveGetversion t st) kv).krc = some .kEnotfound →
        st (keyBytes key) = none) := by
  unfold kiGetversion gGetGeneric getCall
  rcases hi : gGetAioGeneric t.env ses kv none .kmtGetvers none with ⟨krc, events⟩ | ⟨req, kio⟩
  · exact ⟨fun h => absurd (Option.some.inj h) (gGetAioGeneric_ne_ok hi),
      fun _ h => absurd (Option.some.inj h) (gGetAioGeneric_ne_notFound hi)⟩
  · obtain ⟨-, rfl, hcmd⟩ := gGetAioGeneric_ok hi
    have hbody : (getRequest ses kv .kmtGetvers).body.key = some (keyBytes key) := by
      simp [getRequest, hkey]
    dsimp only [serveGetversion]
    rw [getWait_late (fun _ _ => rfl), hbody]
    simp only [getWait]
    generalize ha : (⟨t.completion _, 0, _⟩ : GetAnswer) = a
    by_cases hagain : (gGetAioComplete a ses kio kv none).krc = .kEagain
    · rw [if_pos hagain]
      exact ⟨fun h => absurd h (by simp), fun _ h => absurd h (by simp)⟩
    rw [if_neg hagain]
    constructor
    · intro h
      obtain ⟨c, response, hc, hok, hb, -⟩ := getversComplete_ok hcmd (Option.some.inj h)
      subst ha
      obtain ⟨-, hm⟩ := Turn.completion_ok hc hok hb
      rcases hold : st (keyBytes key) with _ | entry
      · rw [hold] at hm
        cases hm
        cases hb
      · rfl
    · intro hhonest h
      have hnot := getversComplete_notFound hcmd (Option.some.inj h)
      subst ha
      unfold Turn.completion at hnot
      rcases hf : t.fault with _ | f
      · rw [hf] at hnot
        rcases hold : st (keyBytes key) with _ | entry
        · rfl
        · rw [hold] at hnot
          simp [notFound, accepted, extractCmdstatusCode] at hnot
      · rw [hf] at hnot
        rw [hhonest f hf] at hnot
        cases hnot

end Requests

/-! ### The map between the rounds -/

section Maps
variable {lim : Klimits} {st0 st : Store} {m : Contents} {key k : Key} {val : List Byte} {v i : ℕ}

theorem written_of_ne (h : ∀ j < i, k ≠ numbered key j) : written v m key val i k = m k := by
  induction i with
  | zero => rfl
  | succ i ih =>
    rw [written, Function.update_of_ne (h i (Nat.lt_succ_self i))]
    exact ih fun j hj => h j (Nat.lt_succ_of_lt hj)

theorem written_numbered {j : ℕ} (hi : i ≤ bkvNMaxkeys) (hj : j < i) :
    written v m key val i (numbered key j) = some (piece v val j) := by
  induction i with
  | zero => exact absurd hj (Nat.not_lt_zero j)
  | succ i ih =>
    by_cases hji : j = i
    · subst hji
      exact Function.update_self ..
    · rw [written, Function.update_of_ne (numbered_ne (by omega) (by omega))]
      exact ih (by omega) (by omega)

/-- The values after the rounds of `bkv_putn`. -/
theorem contents_of_stored (h : Stored lim st0 st key val i) (hi : i ≤ bkvNMaxkeys) :
    contents st = written lim.klVallen (contents st0) key val i := by
  funext k
  by_cases hk : ∃ j < i, k = numbered key j
  · obtain ⟨j, hj, rfl⟩ := hk
    obtain ⟨e, he, hvalue, -⟩ := h.entry j hj
    rw [written_numbered hi hj, contents, he, Option.map_some, hvalue]
  · have hne : ∀ j < i, k ≠ numbered key j := fun j hj heq => hk ⟨j, hj, heq⟩
    rw [written_of_ne hne, contents, h.frame k hne]
    rfl

theorem without_zero : without m key 0 = m := by
  funext k
  simp [without]

end Maps

/-! ### Calls for one key -/

section One
variable {t : Turn} {c : BkvEnv} {ses : Ksession} {st : Store} {kv : Kv} {lim : Klimits}
  {key : Key} {val : List Byte}

/-- A put of one buffer. -/
theorem kiPut_contents (t : Turn) (ses : Ksession) (st : Store) {name : List (Option Key)}
    {b : Valbuf} (hkey : kv.kvKey = some name) (hval : kv.kvVal = some [b]) :
    (contents (kiPut t ses st kv).store = contents st ∨
      contents (kiPut t ses st kv).store =
        Function.update (contents st) (keyBytes name) (some b.bytes)) ∧
    ((kiPut t ses st kv).krc = some .kOk →
      contents (kiPut t ses st kv).store =
        Function.update (contents st) (keyBytes name) (some b.bytes)) := by
  have hvalue : (kvEntry kv).value = b.bytes := by simp [kvEntry, hval]
  constructor
  · rcases kiPut_store t ses st kv with h | ⟨name', hname, h⟩
    · exact .inl (congrArg contents h)
    · rw [hkey, Option.some.injEq] at hname
      subst hname
      right
      rw [h, contents_update, Option.map_some, hvalue]
  · intro hok
    obtain ⟨name', hname, -, -, h⟩ := kiPut_ok hok
    rw [hkey, Option.some.injEq] at hname
    subst hname
    rw [h, contents_update, Option.map_some, hvalue]

theorem kiDel_contents (t : Turn) (ses : Ksession) (st : Store) {name : List (Option Key)}
    (hkey : kv.kvKey = some name) :
    (contents (kiDel t ses st kv).store = contents st ∨
      contents (kiDel t ses st kv).store = Function.update (contents st) (keyBytes name) none) ∧
    ((kiDel t ses st kv).krc = some .kOk →
      contents (kiDel t ses st kv).store =
        Function.update (contents st) (keyBytes name) none) := by
  constructor
  · rcases kiDel_store t ses st kv with h | ⟨name', hname, h⟩
    · exact .inl (congrArg contents h)
    · rw [hkey, Option.some.injEq] at hname
      subst hname
      right
      rw [h, contents_update, Option.map_none]
  · intro hok
    obtain ⟨name', hname, -, -, h⟩ := kiDel_ok hok
    rw [hkey, Option.some.injEq] at hname
    subst hname
    rw [h, contents_update, Option.map_none]

theorem rc_eq_zero {krc : Option KStatus}
    (h : (krc.map fun krc => if krc = .kOk then (0 : ℤ) else -1) = some 0) : krc = some .kOk := by
  obtain ⟨s, rfl, hs⟩ := Option.map_eq_some_iff.mp h
  by_contra hne
  rw [if_neg fun heq => hne (congrArg some heq)] at hs
  omega

theorem promise_put : Promise lim (c, .put key val) (contents st)
    (bkvCall ses (c, .put key val) st).1 (contents (bkvCall ses (c, .put key val) st).2) := by
  simp only [Promise, bkvCall, bkvPut]
  split_ifs with hchecks
  · obtain ⟨hstore, hok⟩ := kiPut_contents (c.turn 0) ses st
      (rfl : (putKv key val).kvKey = some [some key]) rfl
    rw [keyBytes_one] at hstore hok
    exact ⟨hstore, fun h => hok (rc_eq_zero h)⟩
  · exact ⟨.inl rfl, fun h => absurd h (by simp)⟩

theorem promise_del : Promise lim (c, .del key) (contents st)
    (bkvCall ses (c, .del key) st).1 (contents (bkvCall ses (c, .del key) st).2) := by
  simp only [Promise, bkvCall, bkvDel]
  split_ifs with hchecks
  · obtain ⟨hstore, hok⟩ := kiDel_contents (c.turn 0) ses st
      (rfl : (bkvDelKv key).kvKey = some [some key])
    rw [keyBytes_one] at hstore hok
    exact ⟨hstore, fun h => hok (rc_eq_zero h)⟩
  · exact ⟨.inl rfl, fun h => absurd h (by simp)⟩

/-- The value of a get that succeeds. -/
theorem hungVal_filled {t : Turn} {k : Key} {e : Entry} {b : Valbuf} (h : kv.kvVal = some [b]) :
    hungVal (filledKv t k e kv) = e.value := by
  simp [hungVal, filledKv, fillKv, hangVal, h]

theorem promise_get : Promise lim (c, .get key) (contents st)
    (bkvCall ses (c, .get key) st).1 (contents (bkvCall ses (c, .get key) st).2) := by
  refine ⟨rfl, fun h => ?_⟩
  simp only [bkvCall, bkvGet] at h ⊢
  split_ifs at h ⊢ with hchecks hok
  · obtain ⟨name, e, hname, he, hkv⟩ := kiGetFrom_ok (rfl : (oneKv key).kvMetaonly = 0) hok
    obtain rfl : [some key] = name := Option.some.inj hname
    rw [keyBytes_one] at he hkv
    refine ⟨e.value, by rw [contents, he]; rfl, ?_⟩
    rw [hkv, hungVal_filled rfl]
  · obtain ⟨krc, -, hrc⟩ := Option.map_eq_some_iff.mp h
    exact absurd hrc (by decide)
  · exact absurd h (by simp)

theorem promise_exist : Promise lim (c, .exist key) (contents st)
    (bkvCall ses (c, .exist key) st).1 (contents (bkvCall ses (c, .exist key) st).2) := by
  obtain ⟨hfound, hnot⟩ := kiGetversion_finds (c.turn 0) ses st
    (rfl : (oneKv key).kvKey = some [some key])
  rw [keyBytes_one] at hfound hnot
  refine ⟨rfl, fun h => ?_, fun hs h => ?_⟩
  · simp only [bkvCall, bkvExists] at h
    split_ifs at h with hchecks
    · obtain ⟨krc, hkrc, hrc⟩ := Option.map_eq_some_iff.mp h
      have hok : krc = .kOk := by
        by_contra hne
        rw [if_neg hne] at hrc
        split_ifs at hrc
        all_goals omega
      rw [contents, Option.isSome_map]
      exact hfound (hok ▸ hkrc)
    · exact absurd h (by simp)
  · simp only [bkvCall, bkvExists] at h
    split_ifs at h with hchecks
    · obtain ⟨krc, hkrc, hrc⟩ := Option.map_eq_some_iff.mp h
      have hmissing : krc = .kEnotfound := by
        by_contra hne
        rw [if_neg hne] at hrc
        split_ifs at hrc
        all_goals omega
      rw [contents, hnot (hs.honest 0) (hmissing ▸ hkrc)]
      rfl
    · exact absurd h (by simp)

end One

/-! ### A large value -/

section Putn
variable {c : BkvEnv} {ses : Ksession} {st0 st : Store} {key : Key} {val : List Byte} {n i : ℕ}

theorem pieces_le_length {v : ℕ} (hv : 0 < v) (len : ℕ) : pieces v len ≤ len :=
  pieces_le hv (Nat.le_mul_of_pos_left len hv)

/-- The structure that a round of `bkv_putn` puts. -/
def putnAsk (ses : Ksession) (n vlen i : ℕ) (s : PutnState) : Kv :=
  let rest := vlen % ses.ksL.klVallen
  let pvlen := if i = n - 1 ∧ rest ≠ 0 then rest else s.pvlen
  hangNumber i (hangVal (some (s.pval.take pvlen)) s.kv)

/-- It has the numbered key and the piece. -/
theorem putnAsk_piece {s : PutnState} (hv : 0 < ses.ksL.klVallen)
    (hn : n = pieces ses.ksL.klVallen val.length) (hi : i < n)
    (h : PutnInv ses.ksL st0 key val n i s) :
    (putnAsk ses n val.length i s).kvKey = some [some key, some (bkvNMaxkeysFormat i)] ∧
      (putnAsk ses n val.length i s).kvVal =
        some [{ bytes := piece ses.ksL.klVallen val i }] := by
  obtain ⟨pvlen, hpvlen⟩ : ∃ pvlen, pvlen = if i = n - 1 ∧ val.length % ses.ksL.klVallen ≠ 0 then
    val.length % ses.ksL.klVallen else s.pvlen := ⟨_, rfl⟩
  have hpiece : s.pval.take pvlen = piece ses.ksL.klVallen val i := by
    rw [h.pval hi, hpvlen]
    split_ifs with hlast
    · exact take_mod_eq_piece val hv (by omega) hlast.2
    · rw [h.pvlen hi]
      rfl
  obtain ⟨b, hb⟩ := h.kvVal
  unfold putnAsk
  dsimp only
  rw [← hpvlen, hpiece]
  exact ⟨kvKey_hangNumber h.kvKey i, by simp [hangNumber, hangVal, hb]⟩

/-- A round that leaves the loop has put its piece, or nothing. -/
theorem putnRound_error {s : PutnState} {krc : Option KStatus} {store : Store}
    (hv : 0 < ses.ksL.klVallen) (hn : n = pieces ses.ksL.klVallen val.length) (hi : i < n)
    (h : PutnInv ses.ksL st0 key val n i s)
    (hr : putnRound c ses n val.length i s = .error (krc, store)) :
    contents store = contents s.store ∨
      contents store = Function.update (contents s.store) (numbered key i)
        (some (piece ses.ksL.klVallen val i)) := by
  obtain ⟨hkey, hval⟩ := putnAsk_piece hv hn hi h
  have hstore := (kiPut_contents (c.turn i) ses s.store hkey hval).1
  rw [keyBytes_numbered] at hstore
  have hround : putnRound c ses n val.length i s =
      if (kiPut (c.turn i) ses s.store (putnAsk ses n val.length i s)).krc = some .kOk then .ok _
      else .error ((kiPut (c.turn i) ses s.store (putnAsk ses n val.length i s)).krc,
        (kiPut (c.turn i) ses s.store (putnAsk ses n val.length i s)).store) := rfl
  rw [hround] at hr
  split_ifs at hr
  cases hr
  exact hstore

theorem putnPromise_refused (key val : List Byte) (v : ℕ) (m : Contents) :
    PutnPromise v m key val (some (-1)) m := by
  refine ⟨0, Nat.zero_le _, rfl, fun h => ?_, .inr (.inl rfl)⟩
  have hrc := Option.some.inj h
  omega

theorem promise_putn (hv : 0 < ses.ksL.klVallen) (hlen : val.length < 2 ^ 32) :
    Promise ses.ksL (c, .putn key val) (contents st)
      (bkvCall ses (c, .putn key val) st).1 (contents (bkvCall ses (c, .putn key val) st).2) := by
  have huint : uint32 (pieces ses.ksL.klVallen val.length) = pieces ses.ksL.klVallen val.length :=
    uint32_of_lt ((pieces_le_length hv val.length).trans_lt hlen)
  have hrefused := putnPromise_refused key val ses.ksL.klVallen (contents st)
  show PutnPromise ses.ksL.klVallen (contents st) key val (bkvPutn c ses st key val).rc
    (contents (bkvPutn c ses st key val).store)
  unfold bkvPutn
  rcases hconfig : c.config with _ | _
  · simpa [kiLimits] using hrefused
  have hlim : kiLimits true ses = ses.ksL := rfl
  simp only [hlim, huint]
  split_ifs with hempty hkeylen hklen hmax hcreate
  iterate 4 exact hrefused
  · obtain ⟨s0, hs0⟩ : ∃ s0 : PutnState, s0 =
      { kv := putnKv key, store := st, pval := val, pvlen := ses.ksL.klVallen } := ⟨_, rfl⟩
    have hinit : PutnInv ses.ksL st key val (pieces ses.ksL.klVallen val.length) 0 s0 := by
      subst hs0
      exact ⟨⟨_, rfl⟩, ⟨_, rfl⟩, rfl, by simp, fun _ => rfl, stored_zero ..⟩
    have hround : ∀ i t t', i < pieces ses.ksL.klVallen val.length →
        PutnInv ses.ksL st key val (pieces ses.ksL.klVallen val.length) i t →
        putnRound c ses (pieces ses.ksL.klVallen val.length) val.length i t = .ok t' →
        PutnInv ses.ksL st key val (pieces ses.ksL.klVallen val.length) (i + 1) t' :=
      fun i t t' hi hP ht => hP.round hv rfl hi (not_lt.mp hmax) ht
    rw [← hs0]
    rcases hr : rounds (putnRound c ses (pieces ses.ksL.klVallen val.length) val.length)
      (pieces ses.ksL.klVallen val.length) s0 with ⟨krc, store⟩ | s
    · -- the round that has left the loop
      obtain ⟨i, t, hi, ht, herr⟩ := rounds_error hr
      have hinv := rounds_invariant hinit (fun j u u' hj => hround j u u' (by omega)) ht
      have hcontents := contents_of_stored hinv.stored (by omega)
      have hrc : krc.map (fun _ => (-1 : ℤ)) = some (-1) ∨ krc.map (fun _ => (-1 : ℤ)) = none := by
        rcases krc with _ | krc
        · exact .inr rfl
        · exact .inl rfl
      have hne : krc.map (fun _ => (-1 : ℤ)) ≠
          some (pieces ses.ksL.klVallen val.length : ℤ) := by
        intro h
        obtain ⟨_, -, h⟩ := Option.map_eq_some_iff.mp h
        omega
      have herror := putnRound_error hv rfl hi hinv herr
      rw [hcontents] at herror
      rcases herror with hsame | hput
      · exact ⟨i, by omega, hsame, fun h => absurd h hne, .inr hrc⟩
      · exact ⟨i + 1, by omega, hput, fun h => absurd h hne, .inr hrc⟩
    · have hinv := rounds_invariant hinit hround hr
      exact ⟨_, by omega, contents_of_stored hinv.stored (not_lt.mp hmax), fun _ => rfl, .inl rfl⟩
  · exact hrefused

end Putn

section Getn
variable {c : BkvEnv} {ses : Ksession} {st : Store} {lim : Klimits} {key : Key} {n i : ℕ}

/-- The value of a numbered key. -/
def valueOf (m : Contents) (key : Key) (i : ℕ) : List Byte := (m (numbered key i)).getD []

/-- What is true before round `i` of `bkv_getn`, whatever the keys are stored with. -/
structure GetnSound (st : Store) (key : Key) (i : ℕ) (s : GetnState) : Prop where
  kvKey : ∃ suffix, s.kv.kvKey = some [some key, some suffix]
  kvVal : ∃ b, s.kv.kvVal = some [b]
  metaonly : s.kv.kvMetaonly = 0
  found : ∀ j < i, contents st (numbered key j) = some (valueOf (contents st) key j)
  ival : s.ival = (List.range i).map (valueOf (contents st) key)

theorem GetnSound.round {s s' : GetnState} (h : GetnSound st key i s)
    (hr : getnRound c ses st i s = .ok s') : GetnSound st key (i + 1) s' := by
  unfold getnRound at hr
  dsimp only at hr
  split_ifs at hr with hok
  cases hr
  have hmeta : (hangNumber i s.kv).kvMetaonly = 0 := h.metaonly
  obtain ⟨name, e, hname, he, hkv⟩ := kiGetFrom_ok hmeta hok
  have hkey := kvKey_hangNumber h.kvKey i
  obtain rfl : [some key, some (bkvNMaxkeysFormat i)] = name := by
    rwa [hkey, Option.some.injEq] at hname
  rw [keyBytes_numbered] at he hkv
  obtain ⟨b, hb⟩ := h.kvVal
  have hb' : (hangNumber i s.kv).kvVal = some [b] := hb
  have hvalue : contents st (numbered key i) = some e.value := by rw [contents, he]; rfl
  have hof : valueOf (contents st) key i = e.value := by rw [valueOf, hvalue]; rfl
  refine ⟨⟨bkvNMaxkeysFormat i, ?_⟩, ⟨{ bytes := e.value }, ?_⟩, ?_, fun j hj => ?_, ?_⟩
  · rw [hkv]
    simp [filledKv, fillKv, hangVal, hkey]
  · rw [hkv]
    simp [filledKv, fillKv, hangVal, hb']
  · rw [hkv]
    exact hmeta
  · by_cases hji : j = i
    · rw [hji, hvalue, hof]
    · exact h.found j (by omega)
  · show s.ival ++ [hungVal _] = _
    rw [hkv, hungVal_filled hb', h.ival, List.range_succ, List.map_append, List.map_singleton, hof]

theorem promise_getn : Promise lim (c, .getn key n) (contents st)
    (bkvCall ses (c, .getn key n) st).1 (contents (bkvCall ses (c, .getn key n) st).2) := by
  refine ⟨rfl, fun h => ⟨valueOf (contents st) key, ?_⟩⟩
  obtain ⟨s, hr, hout⟩ := bkvGetn_ok rfl h
  have hstart : GetnSound st key 0 { kv := numberedKv key, ival := [] } :=
    ⟨⟨_, rfl⟩, ⟨_, rfl⟩, rfl, fun j hj => absurd hj (Nat.not_lt_zero j), rfl⟩
  have hinv := rounds_invariant hstart (fun i t t' _ hP ht => hP.round ht) hr
  refine ⟨hinv.found, ?_⟩
  show (bkvGetn c ses st key n).out = _
  rw [hout, ← hinv.ival, List.length_flatten]

end Getn

section Deln
variable {c : BkvEnv} {ses : Ksession} {st : Store} {lim : Klimits} {key : Key} {n i : ℕ}

/-- What is true before round `i` of `bkv_deln`, also if an answer has named its key. -/
structure DelnSound (c : BkvEnv) (st : Store) (key : Key) (i : ℕ) (s : DelnState) : Prop where
  kvKey : (∃ suffix, s.kv.kvKey = some [some key, some suffix]) ∨
    ∃ j < i, s.kv.kvKey = some [some (numbered key j)]
  frame : ∀ k, s.store k = st k ∨ s.store k = none ∧ ∃ j < i, k = numbered key j
  sincere : Sincere c →
    (∃ suffix, s.kv.kvKey = some [some key, some suffix]) ∧ s.store = erased st key i

/-- The key of the next request is one of the numbered ones. -/
theorem DelnSound.asks {s : DelnState} (h : DelnSound c st key i s) :
    ∃ j ≤ i, ∃ name, (hangNumber i s.kv).kvKey = some name ∧ keyBytes name = numbered key j := by
  rcases h.kvKey with hkey | ⟨j, hj, hkey⟩
  · exact ⟨i, le_rfl, _, kvKey_hangNumber hkey i, keyBytes_numbered key i⟩
  · refine ⟨j, hj.le, [some (numbered key j)], ?_, keyBytes_one _⟩
    simp [hangNumber, hkey]

theorem DelnSound.update {s : DelnState} {j : ℕ} (h : DelnSound c st key i s) (hj : j ≤ i)
    (k : Key) : Function.update s.store (numbered key j) none k = st k ∨
      Function.update s.store (numbered key j) none k = none ∧ ∃ j < i + 1, k = numbered key j := by
  by_cases hk : k = numbered key j
  · right
    rw [hk, Function.update_self]
    exact ⟨rfl, j, by omega, rfl⟩
  · rw [Function.update_of_ne hk]
    rcases h.frame k with hsame | ⟨hnone, j', hj', hk'⟩
    · exact .inl hsame
    · exact .inr ⟨hnone, j', by omega, hk'⟩

theorem DelnSound.round {s s' : DelnState} (h : DelnSound c st key i s)
    (hr : delnRound c ses i s = .ok s') : DelnSound c st key (i + 1) s' := by
  unfold delnRound at hr
  dsimp only at hr
  split_ifs at hr with hok
  cases hr
  obtain ⟨name, hname, -, hkv, hstore⟩ := kiDel_ok hok
  obtain ⟨j, hj, name', hname', hbytes⟩ := h.asks
  obtain rfl : name' = name := Option.some.inj (hname'.symm.trans hname)
  rw [hbytes] at hkv hstore
  have hkey := congrArg Kv.kvKey hkv
  rw [kvKey_echo, unpackedBytes_numbered] at hkey
  refine ⟨?_, fun k => ?_, fun hs => ?_⟩
  · by_cases htells : (c.turn i).tells.key = true
    · rw [if_pos htells] at hkey
      exact .inr ⟨j, by omega, hkey⟩
    · rw [if_neg htells] at hkey
      rcases h.kvKey with hsuffix | ⟨m, hm, hone⟩
      · exact .inl ⟨_, hkey.trans (kvKey_hangNumber hsuffix i)⟩
      · refine .inr ⟨m, by omega, hkey.trans ?_⟩
        simp [hangNumber, hone]
  · rw [hstore]
    exact h.update hj k
  · obtain ⟨hsuffix, herased⟩ := h.sincere hs
    rw [hs.quiet i, if_neg Bool.false_ne_true, kvKey_hangNumber hsuffix i] at hkey
    refine ⟨⟨_, hkey⟩, ?_⟩
    rw [kvKey_hangNumber hsuffix i, Option.some.injEq] at hname'
    rw [← hname', keyBytes_numbered] at hbytes
    rw [hstore, ← hbytes, herased]
    exact erased_succ st key i

theorem promise_deln : Promise lim (c, .deln key n) (contents st)
    (bkvCall ses (c, .deln key n) st).1 (contents (bkvCall ses (c, .deln key n) st).2) := by
  have hstart : DelnSound c st key 0
      { kv := { numberedKv key with kvCpolicy := .kcWt }, store := st } :=
    ⟨.inl ⟨_, rfl⟩, fun k => .inl rfl, fun _ => ⟨⟨_, rfl⟩, (erased_zero st key).symm⟩⟩
  constructor
  · -- the store has at most lost some of the keys
    have hframe : ∀ k, (bkvDeln c ses st key n).store k = st k ∨
        (bkvDeln c ses st key n).store k = none ∧ ∃ i < n, k = numbered key i := by
      unfold bkvDeln
      dsimp only
      split_ifs
      iterate 4 exact fun k => .inl rfl
      · rcases hr : rounds (delnRound c ses) n
          { kv := { numberedKv key with kvCpolicy := .kcWt }, store := st } with ⟨krc, store⟩ | s
        · obtain ⟨i, t, hi, ht, herr⟩ := rounds_error hr
          have hinv := rounds_invariant hstart (fun j u u' _ hP hu => hP.round hu) ht
          unfold delnRound at herr
          dsimp only at herr
          split_ifs at herr
          cases herr
          intro k
          rcases kiDel_store (c.turn i) ses t.store (hangNumber i t.kv) with
            hsame | ⟨name, hname, hupdate⟩
          · rw [hsame]
            rcases hinv.frame k with hk | ⟨hk, j, hj, heq⟩
            · exact .inl hk
            · exact .inr ⟨hk, j, by omega, heq⟩
          · obtain ⟨j, hj, name', hname', hbytes⟩ := hinv.asks
            obtain rfl : name' = name := Option.some.inj (hname'.symm.trans hname)
            rw [hupdate, hbytes]
            rcases hinv.update hj k with hk | ⟨hk, j', hj', heq⟩
            · exact .inl hk
            · exact .inr ⟨hk, j', by omega, heq⟩
        · have hinv := rounds_invariant hstart (fun j u u' _ hP hu => hP.round hu) hr
          exact hinv.frame
      · exact fun k => .inl rfl
    intro k
    simp only [bkvCall, contents]
    rcases hframe k with hk | ⟨hk, hnum⟩
    · exact .inl (by rw [hk])
    · exact .inr ⟨by rw [hk]; rfl, hnum⟩
  · intro hs hrc
    obtain ⟨s, hr, hstore⟩ := bkvDeln_ok rfl hrc
    have hinv := rounds_invariant hstart (fun j u u' _ hP hu => hP.round hu) hr
    show contents (bkvDeln c ses st key n).store = _
    rw [hstore, (hinv.sincere hs).2, contents_erased]

end Deln

/-! ### Runs -/

section Calls
variable {ses : Ksession} {lim : Klimits} {a : BkvEnv × BkvOp} {m m' : Contents} {r : BkvReply}

/-- The number of the pieces of a value fits into a `uint32_t`. -/
def Sized : BkvOp → Prop
  | .putn _ val => val.length < 2 ^ 32
  | _ => True

instance : ∀ op : BkvOp, Decidable (Sized op)
  | .putn _ val => inferInstanceAs (Decidable (val.length < 2 ^ 32))
  | .put .. | .get .. | .del .. | .exist .. | .getn .. | .deln .. => isTrue trivial

/-- **A call** keeps the promise. -/
theorem bkvCall_promise (hv : 0 < ses.ksL.klVallen) (hsize : Sized a.2) (st : Store) :
    Promise ses.ksL a (contents st) (bkvCall ses a st).1 (contents (bkvCall ses a st).2) := by
  obtain ⟨c, op⟩ := a
  cases op with
  | put key val => exact promise_put
  | get key => exact promise_get
  | del key => exact promise_del
  | exist key => exact promise_exist
  | putn key val => exact promise_putn hv hsize
  | getn key n => exact promise_getn
  | deln key n => exact promise_deln

/-- **All calls are those of a map**: in every run, whatever becomes of the requests, maps from keys
to values explain the replies, and they are those that the server keeps. -/
theorem basic_calls_explained (ses : Ksession) (hv : 0 < ses.ksL.klVallen) (st : Store)
    (cs : List (BkvEnv × BkvOp)) (hsize : ∀ a ∈ cs, Sized a.2) :
    Explains (Promise ses.ksL) (contents st) cs (calls (bkvCall ses) st cs).1
      (contents (calls (bkvCall ses) st cs).2) :=
  calls_explained (I := fun _ => True) (fun _ st _ ha => bkvCall_promise hv ha st)
    (fun _ _ _ _ => trivial) cs trivial hsize

/-- The keys that a call may write. -/
def BkvOp.Writes (k : Key) : BkvOp → Prop
  | .put key _ | .del key => k = key
  | .putn key _ => ∃ i < bkvNMaxkeys, k = numbered key i
  | .deln key n => ∃ i < n, k = numbered key i
  | .get _ | .exist _ | .getn _ _ => False

/-- Every other key keeps its value. -/
theorem Promise.other {k : Key} (h : Promise lim a m r m') (hk : ¬ a.2.Writes k) : m' k = m k := by
  obtain ⟨c, op⟩ := a
  cases op with
  | put key val =>
    rcases h.1 with rfl | rfl
    · rfl
    · exact Function.update_of_ne hk _ _
  | del key =>
    rcases h.1 with rfl | rfl
    · rfl
    · exact Function.update_of_ne hk _ _
  | get key => rw [h.1]
  | exist key => rw [h.1]
  | getn key n => rw [h.1]
  | putn key val =>
    obtain ⟨j, hj, rfl, -, -⟩ := h
    exact written_of_ne fun i hi heq => hk ⟨i, by omega, heq⟩
  | deln key n =>
    rcases h.1 k with heq | ⟨-, hnum⟩
    · exact heq
    · exact absurd hnum hk

/-- A key that is not written keeps its value through a run. -/
theorem contents_calls (hv : 0 < ses.ksL.klVallen) {k : Key} {cs : List (BkvEnv × BkvOp)}
    (hsize : ∀ a ∈ cs, Sized a.2) (hk : ∀ a ∈ cs, ¬ a.2.Writes k) (st : Store) :
    contents (calls (bkvCall ses) st cs).2 k = contents st k :=
  (basic_calls_explained ses hv st cs hsize).keeps (P := fun m => m k = contents st k)
    (fun a ha _ _ _ hm hp => (hp.other (hk a ha)).trans hm) rfl

/-- **A large value survives**: what `bkv_putn` has stored is what `bkv_getn` gives later, after any
calls that do not write its keys, in any environments. -/
theorem large_value_survives (ses : Ksession) (hv : 0 < ses.ksL.klVallen) (st : Store)
    (cp cg : BkvEnv) (key val : List Byte) (cs : List (BkvEnv × BkvOp))
    (hlen : val.length < 2 ^ 32) (hsize : ∀ a ∈ cs, Sized a.2)
    (hother : ∀ a ∈ cs, ∀ i < pieces ses.ksL.klVallen val.length, ¬ a.2.Writes (numbered key i)) :
    let n := pieces ses.ksL.klVallen val.length
    let put := bkvCall ses (cp, .putn key val) st
    let get := bkvCall ses (cg, .getn key n) (calls (bkvCall ses) put.2 cs).2
    put.1.rc = some (n : ℤ) → get.1.rc = some (n : ℤ) →
      get.1.out = some (some val, val.length) := by
  intro n put get hput hget
  obtain ⟨j, hj, hwritten, hall, -⟩ :
      PutnPromise ses.ksL.klVallen (contents st) key val put.1.rc (contents put.2) :=
    bkvCall_promise (a := (cp, .putn key val)) hv hlen st
  obtain rfl := hall hput
  obtain ⟨-, hgets⟩ := bkvCall_promise (a := (cg, .getn key n)) hv trivial
    (calls (bkvCall ses) put.2 cs).2
  obtain ⟨value, hvalue, hout⟩ := hgets hget
  -- the pieces are still there
  have hpiece : ∀ i < n, value i = piece ses.ksL.klVallen val i := by
    intro i hi
    have hkeep := contents_calls hv hsize (fun a ha => hother a ha i hi) put.2
    rw [hvalue i hi, hwritten, written_numbered (by omega) hi, Option.some.injEq] at hkeep
    exact hkeep
  have hjoin : ((List.range n).map value).flatten = val := by
    rw [List.map_congr_left fun i hi => hpiece i (List.mem_range.mp hi)]
    exact flatten_all_pieces val hv
  show get.1.out = _
  rw [hout, hjoin]

end Calls

/-! ### A run -/

/-- A server that stores the first piece and then does not answer. -/
def breaking : BkvEnv where
  turn i :=
    { (telling {}).turn i with
      fault := if i = 0 then none else some ⟨true, .resp .timedout, none, rfl⟩ }

/-- A large value is stored, the next one only in part, and the numbered keys are read. -/
def someCalls : List (BkvEnv × BkvOp) :=
  [(telling {}, .putn [107] [1, 2, 3]), (telling {}, .put [108] [4]),
    (breaking, .putn [107] [5, 6, 7]), (telling {}, .getn [107] 2), (telling {}, .del [108]),
    (telling {}, .exist [108])]

theorem someCalls_explained :
    (∀ a ∈ someCalls, Sized a.2) ∧
    Explains (Promise twoByteSes.ksL) (contents fun _ => none) someCalls
      (calls (bkvCall twoByteSes) (fun _ => none) someCalls).1
      (contents (calls (bkvCall twoByteSes) (fun _ => none) someCalls).2) ∧
    (calls (bkvCall twoByteSes) (fun _ => none) someCalls).1 =
      [{ rc := some 2 }, { rc := some 0 }, { rc := some (-1) },
        { rc := some 2, out := some (some [5, 6, 7], 3) }, { rc := some 0 }, { rc := some 0 }] :=
  ⟨by decide, basic_calls_explained twoByteSes (by decide) _ someCalls (by decide),
    by decide +kernel⟩

theorem three_bytes_survive :
    let get := bkvCall twoByteSes (telling {}, .getn [107] 2)
      (calls (bkvCall twoByteSes) (bkvCall twoByteSes (telling {}, .putn [107] [1, 2, 3])
        fun _ => none).2 [(telling {}, .put [107] [4]), (telling {}, .del [107, 46])]).2
    get.1.out = some (some [1, 2, 3], 3) :=
  large_value_survives twoByteSes (by decide) (fun _ => none) (telling {}) (telling {}) [107]
    [1, 2, 3] [(telling {}, .put [107] [4]), (telling {}, .del [107, 46])] (by decide) (by decide)
    (by simp [BkvOp.Writes, numbered, bkvNMaxkeysFormat]) (by decide +kernel) (by decide +kernel)

end Libkinetic.Kinetic.Basicmap
