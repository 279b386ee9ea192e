import Libkinetic.Base.Hex
import Libkinetic.Base.Runs
import Libkinetic.Kinetic.Echo
import Libkinetic.Toolbox.Delrange

/-! # Compare and swap from the command line

`kctl put -c` asks for the version of a key, adds one to it, and puts the value with the version
that it has read, which the server compares with the one of the key. Between the two requests other
clients may do the same. A version is a text of eight hexadecimal digits that ends with a zero; it
counts the puts of its key, and starts again after 2³² of them. -/

namespace Libkinetic.Toolbox.Cas

open Libkinetic.Base.Cstrings (cstr cstr_append_zero)
open Libkinetic.Base.Hex Libkinetic.Base.Runs Libkinetic.Kinetic Libkinetic.Toolbox.Delrange

/-! ### Versions -/

/-- `sprintf(newver, "0x%08x", n)`, in the `VERLEN` bytes that are sent. -/
def versionText (n : ℕ) : List Byte := 48 :: 120 :: hexDigits 8 (uint32 n) ++ [0]

/-- The version after the one in the structure. There is none if the program reads from a null
pointer or beyond the version. -/
def nextVersion (ver : Option (List Byte)) : Option (List Byte) :=
  (ver.bind cstr).map fun s => versionText (uint32 ((strtoul16 s + 1) % 2 ^ 64 : ℕ))

theorem length_versionText (n : ℕ) : (versionText n).length = 11 := by
  simp [versionText]

theorem uint32_uint32_mod (n : ℕ) : uint32 ((n % 2 ^ 64 : ℕ) : ℤ) = uint32 n := by
  unfold uint32
  omega

theorem versionText_congr {n m : ℕ} (h : n % 2 ^ 32 = m % 2 ^ 32) :
    versionText n = versionText m := by
  have hu : uint32 n = uint32 m := by
    unfold uint32
    omega
  rw [versionText, versionText, hu]

theorem cstr_versionText (n : ℕ) :
    cstr (versionText n) = some (48 :: 120 :: hexDigits 8 (uint32 n)) := by
  have hmem : (0 : Byte) ∉ 48 :: 120 :: hexDigits 8 (uint32 n) := by
    simp only [List.mem_cons, not_or]
    refine ⟨by decide, by decide, fun h => ?_⟩
    have hdigit := isXdigit_of_mem_hexDigits h
    revert hdigit
    decide
  exact cstr_append_zero hmem []

theorem strtoul16_versionText (n : ℕ) :
    strtoul16 (48 :: 120 :: hexDigits 8 (uint32 n)) = uint32 n := by
  have hlt : uint32 n < 16 ^ 8 := by
    unfold uint32
    omega
  have hval := hexVal_hexDigits hlt
  have hne : hexDigits 8 (uint32 n) ≠ [] := List.ne_nil_of_length_pos (by simp)
  rw [strtoul16_prefixed (fun b hb => isXdigit_of_mem_hexDigits hb) hne (by omega), hval]

/-- **The next version** of a version that counts. -/
theorem nextVersion_versionText (n : ℕ) :
    nextVersion (some (versionText n)) = some (versionText (n + 1)) := by
  unfold nextVersion
  rw [Option.bind_some, cstr_versionText, Option.map_some, strtoul16_versionText,
    uint32_uint32_mod]
  refine congrArg some (versionText_congr ?_)
  unfold uint32
  omega

/-- Versions are the same just if they count the same up to 2³². -/
theorem versionText_inj {n m : ℕ} (h : versionText n = versionText m) :
    n % 2 ^ 32 = m % 2 ^ 32 := by
  have hstr := congrArg cstr h
  rw [cstr_versionText, cstr_versionText, Option.some.injEq] at hstr
  have hval := congrArg strtoul16 hstr
  rw [strtoul16_versionText, strtoul16_versionText] at hval
  unfold uint32 at hval
  omega

/-! ### The two requests -/

/-- The server stores a value if it is forced to, or if the version is the one of the key; a key
that is not there has no version. -/
def serveVersioned (t : Turn) (st : Store) (r : KvReq) : Store × RespMsg KprotoKv :=
  match r.cmd.body.key with
  | none => (st, refused .kEinval)
  | some key =>
    if r.cmd.body.force = some true ∨
        ((st key).bind Entry.version).getD [] = r.cmd.body.dbversion.getD [] then
      (Function.update st key (some (putEntry r)), accepted t.putResp)
    else (st, refused .kEversion)

/-- `ki_cas` and `ki_put`, outside of a batch: with and without a check of the version. -/
def kiPutVersioned (t : Turn) (ses : Ksession) (st : Store) (kv : Kv) (verck : Bool) : KvOutcome :=
  let i := pPutAioGeneric t.env ses kv none verck
  turnCall t .puts ses (IssueDone.ofKv t.env i).sendlen i (serveVersioned t st) st kv

/-- The structure for the put. -/
def putStructure (ka : KctlArgs) (newver : List Byte) (kv : Kv) : Kv :=
  hangVal (some ka.val)
    { kv with
      kvNewver := some newver
      kvDisum := some ka.sum
      kvDitype := .kdiCrc32
      kvCpolicy := ka.cpolicy
      kvMetaonly := 0 }

/-- How far a process is in `kctl_do_put`: before it, between its two requests, or nowhere, as it
waits for an answer that never comes or has read from where it must not. -/
inductive Process
  | idle
  | asked (ka : KctlArgs) (kv : Kv)
  | stuck

/-- **`kctl_do_put`** up to the put. -/
def doPutVersion (t : Turn) (ses : Ksession) (ka : KctlArgs) (st : Store) (kv : Kv) : Process :=
  let g := kiGetversion t.env ses (serveGetversion t st) kv
  match g.krc with
  | none => .stuck
  | some .kOk =>
    match nextVersion g.kv.kvVer with
    | none => .stuck
    | some newver => .asked ka (putStructure ka newver g.kv)
  -- likely no existing key
  | some _ => .asked ka (putStructure ka (versionText 0) g.kv)

/-- The put. -/
def doPutPut (t : Turn) (ses : Ksession) (ka : KctlArgs) (st : Store) (kv : Kv) : KvOutcome :=
  kiPutVersioned t ses st kv ka.cas

/-- The structure that the loop of `kctl_put` works with is this one. -/
theorem kctlKv_eq (turn : ℕ → KctlTurn) (ses : Ksession) (ka : KctlArgs) (i : ℕ) (kv : Kv) :
    kctlKv turn ses ka i kv =
      putStructure ka (turn i).newver (kctlVersion turn ses i kv).kv := rfl

/-! ### What the requests do -/

section Requests
variable {t : Turn} {ses : Ksession} {st : Store} {kv : Kv} {b : Key} {rest : List (Option Key)}

/-- The structure of the command before each of its puts. -/
def freshKv (b : Key) (rest : List (Option Key)) : Kv :=
  { kvKey := some (some b :: rest), kvVal := some [{}] }

/-- A request for a version that fails leaves the version of the structure as it was. -/
theorem getversComplete_kvVer {a : GetAnswer} {kio : GetKio} (hcmd : kio.kioCmd = .kmtGetvers)
    (h : (gGetAioComplete a ses kio kv none).krc ≠ .kOk) :
    (gGetAioComplete a ses kio kv none).kv.kvVer = kv.kvVer := by
  obtain ⟨completion, msglen, val⟩ := a
  rcases completion with _ | _ | (_ | _ | _ | _ | _ | m)
  case resp.msg =>
    simp only [gGetAioComplete, hcmd, getExtract] at h ⊢
    rcases m with _ | _ | c
    · simp [extractGetkey, getFinish, hcmd]
    · simp [extractGetkey, getFinish, hcmd]
    · by_cases hc : extractCmdstatusCode c = .kOk
      · rcases hb : c.body with _ | response
        · simp [extractGetkey, getFinish, hc, hb, hcmd]
        · simp [extractGetkey, getFinish, hc, hb] at h
      · simp [extractGetkey, getFinish, hc, hcmd]
  all_goals rfl

/-- What a request for the version of a key leaves in the structure. -/
structure Versioned (st : Store) (key : Key) (g : GetOutcome) : Prop where
  found : g.krc = some .kOk → ∃ entry, st key = some entry ∧
    (g.kv.kvVer = none ∨ g.kv.kvVer = entry.version)
  failed : g.krc ≠ some .kOk → g.kv.kvVer = none

/-- **A request for a version** gives that of the key or none, and none if it fails. -/
theorem kiGetversion_versioned (t : Turn) (ses : Ksession) (st : Store) (b : Key)
    (rest : List (Option Key)) :
    Versioned st (keyBytes (some b :: rest))
      (kiGetversion t.env ses (serveGetversion t st) (freshKv b rest)) := by
  unfold kiGetversion gGetGeneric getCall
  rcases hi : gGetAioGeneric t.env ses (freshKv b rest) none .kmtGetvers none with
    ⟨krc, events⟩ | ⟨req, kio⟩
  · exact ⟨fun h => absurd (Option.some.inj h) (gGetAioGeneric_ne_ok hi), fun _ => rfl⟩
  · obtain ⟨hv, rfl, hcmd⟩ := gGetAioGeneric_ok hi
    have hbody : (getRequest ses (freshKv b rest) .kmtGetvers).body.key =
        some (keyBytes (some b :: rest)) := rfl
    dsimp only [serveGetversion]
    rw [getWait_late (fun _ _ => rfl), hbody]
    simp only [getWait]
    generalize ha : (⟨t.completion _, 0, _⟩ : GetAnswer) = a
    have hleft : (gGetAioComplete a ses kio (freshKv b rest) none).krc ≠ .kOk →
        (gGetAioComplete a ses kio (freshKv b rest) none).kv.kvVer = none :=
      fun h => getversComplete_kvVer hcmd h
    by_cases hagain : (gGetAioComplete a ses kio (freshKv b rest) none).krc = .kEagain
    · rw [if_pos hagain]
      exact ⟨fun h => absurd h (by simp), fun _ => hleft (by rw [hagain]; decide)⟩
    rw [if_neg hagain]
    refine ⟨fun h => ?_, fun h => hleft fun hok => h (congrArg some hok)⟩
    obtain ⟨c, response, hc, hok, hb, hkv⟩ := getversComplete_ok hcmd (Option.some.inj h)
    subst ha
    obtain ⟨-, hm⟩ := Turn.completion_ok hc hok hb
    rcases hold : st (keyBytes (some b :: rest)) with _ | entry
    · rw [hold] at hm
      cases hm
      cases hb
    · rw [hold] at hm hkv
      cases hm
      rw [← Option.some.inj hb] at hkv
      refine ⟨entry, rfl, ?_⟩
      dsimp only at hkv ⊢
      rw [hkv]
      have hver : (fillKv (t.tells.response (keyBytes (some b :: rest)) entry)
          (freshKv b rest)).kvVer =
            extractBytesOptional (if t.tells.version then entry.version else none) none := rfl
      rw [hver]
      rcases t.tells.version with _ | _
      · exact .inl rfl
      · rcases entry.version with _ | v
        · exact .inl rfl
        · show unpackedBytes v = none ∨ unpackedBytes v = some v
          unfold unpackedBytes
          split_ifs
          · exact .inl rfl
          · exact .inr rfl

/-- **Between its requests** a process has the version of the key and the next one, or none. -/
theorem doPutVersion_asked {ka ka' : KctlArgs} {kv' : Kv}
    (h : doPutVersion t ses ka st (freshKv b rest) = .asked ka' kv') :
    ka' = ka ∧ kv'.kvKey = some (some b :: rest) ∧
      (kv'.kvVer = none ∨ ∃ entry v, st (keyBytes (some b :: rest)) = some entry ∧
        entry.version = some v ∧ kv'.kvVer = some v ∧ kv'.kvNewver = nextVersion (some v)) := by
  obtain ⟨hfound, hfailed⟩ := kiGetversion_versioned t ses st b rest
  have hkey := kvKey_kiGetversion t.env ses (serveGetversion t st)
    (rfl : (freshKv b rest).kvKey = some (some b :: rest))
  unfold doPutVersion at h
  dsimp only at h
  split at h
  · cases h
  · next hok =>
    split at h
    · cases h
    · next newver hnext =>
      cases h
      refine ⟨rfl, hkey, ?_⟩
      obtain ⟨entry, hold, hver⟩ := hfound hok
      rcases hver with hnone | hver
      · exact .inl hnone
      · rcases hv : entry.version with _ | v
        · exact .inl (hver.trans hv)
        · rw [hv] at hver
          rw [hver] at hnext
          exact .inr ⟨entry, v, hold, hv, hver, hnext.symm⟩
  · next krc hne hkrc =>
    cases h
    refine ⟨rfl, hkey, .inl (hfailed fun hok => ?_)⟩
    rw [hkrc, Option.some.injEq] at hok
    exact hne hok

/-- What the message of a put carries. -/
theorem createPutMessage_carries {m : MsgEnv} {hdr : Kcmdhdr} {force : Bool}
    {cmd : Request KprotoKv} (h : createPutMessage m hdr kv force = some cmd) :
    ∃ key, kv.kvKey = some key ∧ cmd.body.key = some (keyBytes key) ∧
      putEntry { cmd, val := kv.kvVal.getD [] } = kvEntry kv ∧ cmd.body.force = some force ∧
      (kv.kvVer.isSome = true → cmd.body.dbversion = some (kv.kvVer.getD [])) := by
  unfold createPutMessage at h
  rcases hk : kv.kvKey with _ | key
  · simp [hk, keynameToProto] at h
  · rcases m with ⟨_ | _, _ | _, _ | _⟩ <;>
      simp only [hk, keynameToProto, createMessage, Option.map_some, if_true, if_false,
        Bool.false_eq_true, not_false_eq_true, not_true_eq_false, reduceCtorEq] at h
    cases h
    refine ⟨key, rfl, rfl, rfl, rfl, fun hver => ?_⟩
    simp [hver, setBytesOptional]

/-- The server has stored what the structure says; with a check of the version, that of the key was
the one in the structure. -/
def StoredBy (st : Store) (kv : Kv) (verck : Bool) (st' : Store) : Prop :=
  ∃ key, kv.kvKey = some key ∧ st' = Function.update st (keyBytes key) (some (kvEntry kv)) ∧
    (verck = true → ∃ v, kv.kvVer = some v ∧ v ≠ [] ∧
      ((st (keyBytes key)).bind Entry.version).getD [] = v)

/-- Another key stays as it is. -/
theorem StoredBy.other {st' : Store} {verck : Bool} {k : Key} (h : StoredBy st kv verck st')
    (hk : kv.kvKey.map keyBytes ≠ some k) : st' k = st k := by
  obtain ⟨key, hkey, rfl, -⟩ := h
  rw [hkey, Option.map_some] at hk
  exact Function.update_of_ne (fun heq => hk (congrArg some heq.symm)) _ _

/-- **A put** stores the value or leaves the store as it is, and fails in this case. -/
theorem kiPutVersioned_cases (t : Turn) (ses : Ksession) (st : Store) (kv : Kv) (verck : Bool) :
    ((kiPutVersioned t ses st kv verck).store = st ∧
      (kiPutVersioned t ses st kv verck).krc ≠ some .kOk) ∨
    StoredBy st kv verck (kiPutVersioned t ses st kv verck).store := by
  by_cases hreq : ∃ req, (pPutAioGeneric t.env ses kv none verck).req = some req
  swap
  · have hnone : (pPutAioGeneric t.env ses kv none verck).req = none := by
      rcases hi : (pPutAioGeneric t.env ses kv none verck).req with _ | req
      · rfl
      · exact absurd ⟨req, hi⟩ hreq
    left
    unfold kiPutVersioned turnCall kvCall
    dsimp only
    rw [hnone]
    exact ⟨rfl, fun h => pPutAioGeneric_unsent hnone (Option.some.inj h)⟩
  obtain ⟨req, hi⟩ := hreq
  obtain ⟨cmd, len, hm, rfl⟩ : ∃ cmd len, putMessage t.env ses kv none verck = .ok (cmd, len) ∧
      req = { cmd, val := kv.kvVal.getD [] } := by
    unfold pPutAioGeneric at hi
    rcases hm : putMessage t.env ses kv none verck with ⟨krc, events⟩ | ⟨cmd, len⟩
    · simp [hm] at hi
    · rw [hm] at hi
      dsimp only at hi
      split_ifs at hi
      exact ⟨cmd, len, rfl, (Option.some.inj hi).symm⟩
  obtain ⟨hvalid, hcreate⟩ := kvMessage_ok hm
  obtain ⟨key, hkey, hcmd, hentry, hforce, hdb⟩ := createPutMessage_carries hcreate
  -- what the server makes of the request
  have hserve : (serveVersioned t st { cmd, val := kv.kvVal.getD [] }).1 = st ∧
        (serveVersioned t st { cmd, val := kv.kvVal.getD [] }).2 = refused .kEversion ∨
      StoredBy st kv verck (serveVersioned t st { cmd, val := kv.kvVal.getD [] }).1 := by
    unfold serveVersioned
    rw [hcmd]
    dsimp only
    split_ifs with hcmp
    · refine .inr ⟨key, hkey, by rw [hentry], fun hck => ?_⟩
      subst hck
      simp only [kiValidateKv, Bool.and_eq_true, Bool.not_true, Bool.false_or] at hvalid
      obtain ⟨v, hv⟩ := Option.isSome_iff_exists.mp hvalid.1.1.1.2
      have hlen : 1 ≤ v.length ∧ v.length ≤ ses.ksL.klVerlen := by
        have hopt := hvalid.1.1.1.1.1.2
        simpa [optLen, hv] using hopt
      refine ⟨v, hv, List.length_pos_iff.mp hlen.1, ?_⟩
      rcases hcmp with hf | heq
      · rw [hforce] at hf
        cases hf
      · rw [heq, hdb (by rw [hv]; rfl), hv]
        rfl
    · exact .inl ⟨rfl, rfl⟩
  have hstore : (kiPutVersioned t ses st kv verck).store =
      if t.fault.all Fault.applied then (serveVersioned t st { cmd, val := kv.kvVal.getD [] }).1
      else st := by
    unfold kiPutVersioned turnCall kvCall
    dsimp only
    rw [hi]
    rfl
  by_cases hok : (kiPutVersioned t ses st kv verck).krc = some .kOk
  · obtain ⟨req', c, response, hi', hs, -, hb, -, hst⟩ := turnCall_ok pPutAioGeneric_unsent hok
    rw [hi] at hi'
    cases hi'
    rcases hserve with ⟨-, hrefused⟩ | hstored
    · rw [hrefused] at hs
      cases hs
      cases hb
    · exact .inr (hst ▸ hstored)
  · rw [hstore]
    split_ifs
    · rcases hserve with ⟨hsame, -⟩ | hstored
      · exact .inl ⟨hsame, hok⟩
      · exact .inr hstored
    · exact .inl ⟨rfl, hok⟩

end Requests

/-! ### Many processes -/

section Processes
variable {ι : Type} [DecidableEq ι]

/-- The store, and how far each process is. -/
structure World (ι : Type) where
  store : Store
  process : ι → Process

/-- A process sends its request for the version, or its put; `other` is what anybody else does to
the store. -/
inductive Act (ι : Type)
  | version (i : ι) (ka : KctlArgs) (b : Key) (rest : List (Option Key)) (t : Turn)
  | put (i : ι) (t : Turn)
  | other (st : Store)

variable (ses : ι → Ksession)

/-- What the put of a process comes to. -/
def putOf (w : World ι) (i : ι) (t : Turn) : Option KvOutcome :=
  match w.process i with
  | .asked ka kv => some (doPutPut t (ses i) ka w.store kv)
  | _ => none

def step (w : World ι) : Act ι → Option (World ι)
  | .version i ka b rest t =>
    match w.process i with
    | .idle =>
      some
        { w with
          process :=
            Function.update w.process i (doPutVersion t (ses i) ka w.store (freshKv b rest)) }
    | _ => none
  | .put i t =>
    (putOf ses w i t).map fun r =>
      { store := r.store
        process := Function.update w.process i (if r.krc = none then .stuck else .idle) }
  | .other st => some { w with store := st }

/-- Every process that puts the key is called with `-c` and without `-b`, and nobody else touches
the key. -/
def CasOnly (k : Key) (w : World ι) : Act ι → Prop
  | .version _ ka b rest _ => keyBytes (some b :: rest) = k → ka.cas = true
  | .put _ _ => True
  | .other st => st k = w.store k

instance (k : Key) (w : World ι) (a : Act ι) : Decidable (CasOnly k w a) :=
  match a with
  | .version _ ka b rest _ =>
    inferInstanceAs (Decidable (keyBytes (some b :: rest) = k → ka.cas = true))
  | .put _ _ => isTrue trivial
  | .other st => inferInstanceAs (Decidable (st k = w.store k))

/-- A change of the entry of the key: who has made it, how many there were when its process asked
for the version, and whether the put has returned `K_OK`. -/
structure Write (ι : Type) where
  client : ι
  seen : ℕ
  before : Option Entry
  after : Option Entry
  told : Bool

/-- The changes, how many each process has seen, and the puts of the key that have returned
`K_OK`. -/
structure Log (ι : Type) where
  writes : List (Write ι) := []
  seen : ι → ℕ := fun _ => 0
  told : ℕ := 0

/-- The put is one of the key and returns `K_OK`. -/
def toldOk (k : Key) (w : World ι) (i : ι) (t : Turn) : Bool :=
  match w.process i with
  | .asked ka kv => decide (kv.kvKey.map keyBytes = some k ∧
      (doPutPut t (ses i) ka w.store kv).krc = some .kOk)
  | _ => false

def record (k : Key) (w : World ι) (a : Act ι) (w' : World ι) (l : Log ι) : Log ι :=
  match a with
  | .version i _ _ _ _ => { l with seen := Function.update l.seen i l.writes.length }
  | .put i t =>
    { l with
      writes := l.writes ++
        if w'.store k ≠ w.store k then
          [⟨i, l.seen i, w.store k, w'.store k, toldOk ses k w i t⟩]
        else []
      told := l.told + if toldOk ses k w i t then 1 else 0 }
  | .other _ => l

/-- The runs from a store that has the key, when no process is in the middle of a put. -/
def CasRun (k : Key) (e0 : Entry) : World ι × Log ι → Prop :=
  Reach (logged (step ses) (record ses k)) (fun p => CasOnly k p.1)
    fun p => (p.1.store k = some e0 ∧ ∀ i ka kv, p.1.process i ≠ .asked ka kv) ∧ p.2 = {}

/-! ### What every run keeps -/

/-- A process between its requests: the version that it has read, if any, and the next one. -/
structure Asked (v0 : ℕ) (n seen : ℕ) (ka : KctlArgs) (kv : Kv) : Prop where
  cas : ka.cas = true
  version : kv.kvVer = none ∨ seen ≤ n ∧ kv.kvVer = some (versionText (v0 + seen)) ∧
    kv.kvNewver = some (versionText (v0 + seen + 1))

/-- A change that counts: it has seen all the changes before it, or 2³² of them less. -/
structure Counts (v0 : ℕ) (entries : List (Option Entry)) (p : ℕ) (c : Write ι) : Prop where
  seen_le : c.seen ≤ p
  seen : 2 ^ 32 ∣ p - c.seen
  before : entries[p]? = some c.before
  after : c.after.bind Entry.version = some (versionText (v0 + p + 1))

/-- The entries of the key, one after the other. -/
def entries (e0 : Entry) (cs : List (Write ι)) : List (Option Entry) :=
  some e0 :: cs.map Write.after

structure Swapped (k : Key) (e0 : Entry) (v0 : ℕ) (w : World ι) (l : Log ι) : Prop where
  version : (w.store k).bind Entry.version = some (versionText (v0 + l.writes.length))
  last : (entries e0 l.writes)[l.writes.length]? = some (w.store k)
  asked : ∀ i ka kv, w.process i = .asked ka kv → kv.kvKey.map keyBytes = some k →
    Asked v0 l.writes.length (l.seen i) ka kv
  counts : ∀ p c, l.writes[p]? = some c → Counts v0 (entries e0 l.writes) p c
  told : l.told = (l.writes.filter Write.told).length

section Steps
variable {ses : ι → Ksession} {k : Key} {e0 : Entry} {v0 : ℕ} {w w' : World ι} {l : Log ι} {i : ι}
  {t : Turn}

/-- **A request for a version** is answered with the version that is current. -/
theorem Swapped.version_step {ka : KctlArgs} {b : Key} {rest : List (Option Key)}
    (h : Swapped k e0 v0 w l) (hcas : keyBytes (some b :: rest) = k → ka.cas = true) :
    Swapped k e0 v0
      { w with
        process :=
          Function.update w.process i (doPutVersion t (ses i) ka w.store (freshKv b rest)) }
      { l with seen := Function.update l.seen i l.writes.length } where
  version := h.version
  last := h.last
  counts := h.counts
  told := h.told
  asked := by
    intro j ka' kv hj hkey
    by_cases hji : j = i
    · subst hji
      dsimp only at hj ⊢
      rw [Function.update_self] at hj ⊢
      obtain ⟨rfl, hkv, hver⟩ := doPutVersion_asked hj
      have hk : keyBytes (some b :: rest) = k := by
        rw [hkv] at hkey
        exact Option.some.inj hkey
      refine ⟨hcas hk, hver.imp_right ?_⟩
      rintro ⟨entry, v, hold, hv, hkvver, hnew⟩
      have hcur := h.version
      rw [← hk, hold, Option.bind_some, hv, Option.some.injEq] at hcur
      subst hcur
      rw [nextVersion_versionText] at hnew
      exact ⟨Nat.le_refl _, hkvver, hnew⟩
    · dsimp only at hj ⊢
      rw [Function.update_of_ne hji] at hj ⊢
      exact h.asked j ka' kv hj hkey

/-- The entry that a put with a check of the version stores. -/
theorem kvEntry_version {kv : Kv} {v : List Byte} (h : kv.kvNewver = some v) :
    (kvEntry kv).version = some v := by
  simp [kvEntry, h, setBytesOptional]

omit [DecidableEq ι] in
/-- The entries so far are those of a longer list. -/
theorem entries_append (e0 : Entry) (cs ds : List (Write ι)) :
    entries e0 (cs ++ ds) = entries e0 cs ++ ds.map Write.after := by
  rw [entries, entries, List.map_append, List.cons_append]

omit [DecidableEq ι] in
theorem Counts.append {es : List (Option Entry)} {p : ℕ} {c : Write ι} (h : Counts v0 es p c)
    (fs : List (Option Entry)) : Counts v0 (es ++ fs) p c where
  seen_le := h.seen_le
  seen := h.seen
  before := by
    obtain ⟨hlt, -⟩ := List.getElem?_eq_some_iff.mp h.before
    rw [List.getElem?_append_left hlt, h.before]
  after := h.after

omit [DecidableEq ι] in
/-- A put that leaves the entry of the key as it is. -/
theorem Swapped.put_same (h : Swapped k e0 v0 w l) (hsame : w'.store k = w.store k)
    (hprocess : ∀ j ka kv, w'.process j = .asked ka kv → w.process j = .asked ka kv) :
    Swapped k e0 v0 w' l where
  version := by rw [hsame, h.version]
  last := by rw [hsame, h.last]
  asked j ka kv hj hkey := h.asked j ka kv (hprocess j ka kv hj) hkey
  counts := h.counts
  told := h.told

omit [DecidableEq ι] in
/-- **A put that is stored** follows the changes that its process has seen. -/
theorem Swapped.put_stored (h : Swapped k e0 v0 w l) (w' : World ι) {ka : KctlArgs} {kv : Kv}
    (hi : w.process i = .asked ka kv) (hkey : kv.kvKey.map keyBytes = some k)
    (hstored : StoredBy w.store kv ka.cas w'.store) (told : Bool)
    (hprocess : ∀ j ka kv, w'.process j = .asked ka kv → w.process j = .asked ka kv) :
    w'.store k ≠ w.store k ∧ Swapped k e0 v0 w'
      { l with
        writes := l.writes ++ [⟨i, l.seen i, w.store k, w'.store k, told⟩]
        told := l.told + if told then 1 else 0 } := by
  obtain ⟨hcas, hver⟩ := h.asked i ka kv hi hkey
  obtain ⟨key, hkv, hst, hck⟩ := hstored
  rw [hkv, Option.map_some, Option.some.injEq] at hkey
  subst hkey
  obtain ⟨v, hv, hne, hcur⟩ := hck hcas
  have hversion := h.version
  rw [hversion, Option.getD_some] at hcur
  rw [hv] at hver
  obtain ⟨hle, hseen, hnew⟩ := hver.resolve_left (Option.some_ne_none v)
  rw [Option.some.injEq, ← hcur] at hseen
  -- the version that the process has read is the one of now
  have hmod := versionText_inj hseen
  set n := l.writes.length with hn
  have hnew' : kv.kvNewver = some (versionText (v0 + n + 1)) := by
    rw [hnew, versionText_congr (by omega : (v0 + l.seen i + 1) % 2 ^ 32 = (v0 + n + 1) % 2 ^ 32)]
  have hafter : (w'.store (keyBytes key)).bind Entry.version =
      some (versionText (v0 + n + 1)) := by
    rw [hst, Function.update_self, Option.bind_some, kvEntry_version hnew']
  have hlen : ∀ c, (l.writes ++ [c]).length = n + 1 := fun c => by
    rw [List.length_append, List.length_singleton]
  refine ⟨fun hsame => ?_, ?_, ?_, ?_, ?_, ?_⟩
  · rw [hsame, hversion, Option.some.injEq] at hafter
    have hnext := versionText_inj hafter
    omega
  · dsimp only
    rw [hlen, hafter, Nat.add_assoc]
  · dsimp only
    rw [hlen, entries_append, List.getElem?_append_right (by simp [entries, ← hn])]
    simp [entries, ← hn]
  · intro j ka' kv' hj hkey'
    obtain ⟨hcas', hver'⟩ := h.asked j ka' kv' (hprocess j ka' kv' hj) hkey'
    refine ⟨hcas', hver'.imp_right ?_⟩
    rintro ⟨hle', hrest⟩
    dsimp only
    rw [hlen]
    exact ⟨Nat.le_succ_of_le hle', hrest⟩
  · intro p c hp
    dsimp only at hp ⊢
    rw [entries_append]
    rcases Nat.lt_or_ge p n with hlt | hge
    · rw [List.getElem?_append_left hlt] at hp
      exact (h.counts p c hp).append _
    · rw [List.getElem?_append_right hge] at hp
      obtain ⟨hlt, rfl⟩ := List.getElem?_eq_some_iff.mp hp
      obtain rfl : p = n := by
        rw [List.length_singleton] at hlt
        omega
      refine Counts.append ⟨?_, ?_, ?_, ?_⟩ _
      · simpa using hle
      · simp only [List.getElem_singleton]
        exact (Nat.modEq_iff_dvd' hle).mp (Nat.ModEq.add_left_cancel' v0 hmod.symm)
      · simp only [List.getElem_singleton]
        exact h.last
      · simp only [List.getElem_singleton]
        exact hafter
  · dsimp only
    rw [List.filter_append, List.length_append, ← h.told]
    cases told <;> rfl

/-- What a put does to the store, and which processes are between their requests after it. -/
theorem put_cases (hs : step ses w (.put i t) = some w') :
    ∃ ka kv, w.process i = .asked ka kv ∧
      w'.store = (doPutPut t (ses i) ka w.store kv).store ∧
      ∀ j ka' kv', w'.process j = .asked ka' kv' → w.process j = .asked ka' kv' := by
  simp only [step, Option.map_eq_some_iff] at hs
  obtain ⟨r, hr, rfl⟩ := hs
  unfold putOf at hr
  split at hr
  · next ka kv hi =>
    cases hr
    refine ⟨ka, kv, hi, rfl, fun j ka' kv' hj => ?_⟩
    dsimp only at hj
    by_cases hji : j = i
    · subst hji
      rw [Function.update_self] at hj
      split_ifs at hj
    · rwa [Function.update_of_ne hji] at hj
  · cases hr

/-- Which processes are between their requests after a request for a version. -/
theorem version_cases {ka : KctlArgs} {b : Key} {rest : List (Option Key)}
    (hs : step ses w (.version i ka b rest t) = some w') :
    w' = { w with
      process := Function.update w.process i
        (doPutVersion t (ses i) ka w.store (freshKv b rest)) } := by
  simp only [step] at hs
  split at hs
  · exact (Option.some.inj hs).symm
  · cases hs

/-- **A put** keeps what is known of the changes. -/
theorem Swapped.put_step (h : Swapped k e0 v0 w l) (hs : step ses w (.put i t) = some w') :
    Swapped k e0 v0 w' (record ses k w (.put i t) w' l) := by
  obtain ⟨ka, kv, hi, hst, hprocess⟩ := put_cases hs
  have htold : toldOk ses k w i t = decide (kv.kvKey.map keyBytes = some k ∧
      (doPutPut t (ses i) ka w.store kv).krc = some .kOk) := by
    unfold toldOk
    rw [hi]
  unfold record
  dsimp only
  -- what the request does to the entry of the key
  rcases kiPutVersioned_cases t (ses i) w.store kv ka.cas with ⟨hsame, hfail⟩ | hstored
  · have hstore : w'.store = w.store := hst.trans hsame
    have hno : toldOk ses k w i t = false := by
      rw [htold, decide_eq_false_iff_not]
      exact fun hk => hfail hk.2
    rw [hno, hstore, if_neg (not_not.mpr rfl), List.append_nil]
    exact h.put_same (congrFun hstore k) hprocess
  · have hstored' : StoredBy w.store kv ka.cas w'.store := by
      rw [hst]
      exact hstored
    by_cases hkey : kv.kvKey.map keyBytes = some k
    · obtain ⟨hne, hswap⟩ := h.put_stored w' hi hkey hstored' (toldOk ses k w i t) hprocess
      rw [if_pos hne]
      exact hswap
    · have hsame := hstored'.other hkey
      have hno : toldOk ses k w i t = false := by
        rw [htold, decide_eq_false_iff_not]
        exact fun hk => hkey hk.1
      rw [hno, if_neg (not_not.mpr hsame), List.append_nil]
      exact h.put_same hsame hprocess

/-- **Every step** keeps what is known of the changes. -/
theorem Swapped.step {a : Act ι} (h : Swapped k e0 v0 w l) (hok : CasOnly k w a)
    (hs : step ses w a = some w') : Swapped k e0 v0 w' (record ses k w a w' l) := by
  rcases a with ⟨i, ka, b, rest, t⟩ | ⟨i, t⟩ | st
  · rw [version_cases hs]
    exact h.version_step hok
  · exact h.put_step hs
  · cases hs
    exact h.put_same hok fun _ _ _ hj => hj

omit [DecidableEq ι] in
theorem swapped_start (hstore : w.store k = some e0) (hver : e0.version = some (versionText v0))
    (hidle : ∀ i ka kv, w.process i ≠ .asked ka kv) : Swapped k e0 v0 w {} where
  version := by rw [hstore, Option.bind_some, hver]; rfl
  last := by rw [hstore]; rfl
  asked i ka kv hi := absurd hi (hidle i ka kv)
  counts p c hp := by cases hp
  told := rfl

/-- **No update is lost**: however the requests of the processes are interleaved, and whichever
answers are lost, the version of the key counts the changes, each `K_OK` is one of them, and each of
them replaces the entry that the one before it has stored; up to 2³² changes, this is the entry
whose version its process has read. -/
theorem no_lost_update (ses : ι → Ksession) (k : Key) (e0 : Entry) (v0 : ℕ)
    (hver : e0.version = some (versionText v0)) (w : World ι) (l : Log ι)
    (h : CasRun ses k e0 (w, l)) :
    (w.store k).bind Entry.version = some (versionText (v0 + l.writes.length)) ∧
    l.told = (l.writes.filter Write.told).length ∧
    (∀ (p : ℕ) (c : Write ι), l.writes[p]? = some c → Counts v0 (entries e0 l.writes) p c) ∧
    (l.writes.length ≤ 2 ^ 32 → ∀ (p : ℕ) (c : Write ι), l.writes[p]? = some c → c.seen = p) := by
  have hinv : Swapped k e0 v0 w l := by
    refine Reach.invariant (I := fun p : World ι × Log ι => Swapped k e0 v0 p.1 p.2) ?_ ?_ h
    · rintro ⟨w, l⟩ ⟨⟨hstore, hidle⟩, rfl⟩
      exact swapped_start hstore hver hidle
    · rintro ⟨w, l⟩ ⟨w', l'⟩ a hI hok hs
      obtain ⟨hstep, hl⟩ := logged_some hs
      dsimp only at hI hok hstep hl ⊢
      rw [hl]
      exact hI.step hok hstep
  refine ⟨hinv.version, hinv.told, hinv.counts, fun hfew p c hp => ?_⟩
  have hcount := hinv.counts p c hp
  obtain ⟨hlt, -⟩ := List.getElem?_eq_some_iff.mp hp
  obtain ⟨d, hd⟩ := hcount.seen
  have hle := hcount.seen_le
  have hzero : d = 0 := by
    by_contra hne
    have hone : 1 ≤ d := Nat.one_le_iff_ne_zero.mpr hne
    omega
  subst hzero
  omega

/-- **A key that is not there** stays so: a put with a check of the version needs one. -/
theorem never_created (h : Reach (step ses) (CasOnly k)
    (fun w => w.store k = none ∧ ∀ i ka kv, w.process i ≠ .asked ka kv) w) :
    w.store k = none := by
  refine (Reach.invariant (I := fun w : World ι => w.store k = none ∧ ∀ i ka kv,
    w.process i = .asked ka kv → kv.kvKey.map keyBytes = some k → ka.cas = true) ?_ ?_ h).1
  · rintro w ⟨hstore, hidle⟩
    exact ⟨hstore, fun i ka kv hi => absurd hi (hidle i ka kv)⟩
  rintro w w' a ⟨hstore, hasked⟩ hok hs
  rcases a with ⟨i, ka, b, rest, t⟩ | ⟨i, t⟩ | st
  · rw [version_cases hs]
    refine ⟨hstore, fun j ka' kv hj hkey => ?_⟩
    dsimp only at hj
    by_cases hji : j = i
    · subst hji
      rw [Function.update_self] at hj
      obtain ⟨rfl, hkv, -⟩ := doPutVersion_asked hj
      rw [hkv] at hkey
      exact hok (Option.some.inj hkey)
    · rw [Function.update_of_ne hji] at hj
      exact hasked j ka' kv hj hkey
  · obtain ⟨ka, kv, hi, hst, hprocess⟩ := put_cases hs
    refine ⟨?_, fun j ka' kv' hj => hasked j ka' kv' (hprocess j ka' kv' hj)⟩
    rw [hst]
    rcases kiPutVersioned_cases t (ses i) w.store kv ka.cas with ⟨hsame, -⟩ | hstored
    · exact (congrFun hsame k).trans hstore
    · by_cases hkey : kv.kvKey.map keyBytes = some k
      · -- the version of a key that is not there is none that can be sent
        obtain ⟨key, hkv, -, hck⟩ := hstored
        rw [hkv, Option.map_some, Option.some.injEq] at hkey
        subst hkey
        obtain ⟨v, -, hne, hcur⟩ := hck (hasked i ka kv hi (by rw [hkv]; rfl))
        rw [hstore] at hcur
        exact absurd hcur.symm hne
      · exact (hstored.other hkey).trans hstore
  · cases hs
    exact ⟨(hok : st k = w.store k).trans hstore, hasked⟩

end Steps

/-! ### Two processes at once -/

/-- A session whose versions may be as long as those. -/
def casSes (_ : Bool) : Ksession := { ksL := { smallLimits with klVerlen := 32 } }

/-- `kctl put -c k v` -/
def casArgs (val : List Byte) : KctlArgs where
  key := [107]
  val := val
  sum := [0, 0, 0, 0]
  cpolicy := .kcWb
  bat := false
  cas := true

/-- The key with the version 0xffffffff. -/
def oldVersion : Entry := { value := [1], version := some (versionText (2 ^ 32 - 1)) }

def casWorld : World Bool where
  store := Function.update (fun _ => none) [107] (some oldVersion)
  process _ := .idle

/-- Both ask for the version, and then both put; the first one puts again. -/
def raceActs : List (Act Bool) :=
  [.version false (casArgs [2]) [107] [] tellingTurn,
    .version true (casArgs [3]) [107] [] tellingTurn, .put true tellingTurn,
    .put false tellingTurn, .version false (casArgs [4]) [107] [] tellingTurn,
    .put false tellingTurn]

/-- The puts of the race that change the key. -/
def racers (p : World Bool × Log Bool) : List (Bool × ℕ × Bool) :=
  p.2.writes.map fun c => (c.client, c.seen, c.told)

theorem race_swaps : ∃ w l,
    run (logged (step casSes) (record casSes [107])) (casWorld, {}) raceActs = some (w, l) ∧
    racers (w, l) = [(true, 0, true), (false, 1, true)] ∧ l.told = 2 ∧
    (w.store [107]).bind Entry.version = some (versionText 1) := by
  have hrun : ((run (logged (step casSes) (record casSes [107])) (casWorld, {}) raceActs).map
      fun p => (racers p, p.2.told)) = some ([(true, 0, true), (false, 1, true)], 2) := by
    decide +kernel
  obtain ⟨⟨w, l⟩, hend, hshape⟩ := Option.map_eq_some_iff.mp hrun
  obtain ⟨hracers, htold⟩ := Prod.mk.inj hshape
  have hreach : CasRun casSes [107] oldVersion (w, l) := by
    refine reach_of_run ⟨⟨by decide, fun i ka kv hi => ?_⟩, rfl⟩ (by decide +kernel) hend
    simp [casWorld] at hi
  have hlen : l.writes.length = 2 := by
    have hl := congrArg List.length hracers
    rwa [racers, List.length_map] at hl
  have hversion := (no_lost_update casSes [107] oldVersion (2 ^ 32 - 1) rfl w l hreach).1
  rw [hlen] at hversion
  exact ⟨w, l, hend, hracers, htold, hversion.trans (congrArg some (versionText_congr (by decide)))⟩

end Processes

end Libkinetic.Toolbox.Cas
