import Libkinetic.Kinetic.Ktb
import Libkinetic.Kinetic.Store

/-! # One structure for several gets

Gets and getversions that use one `kv_t` again and again, with `ki_clean` called between them. A get
fills in a version, a tag and an algorithm only where the pointers are null, and `ki_clean` has
nothing to do for a `kv_t`: what the first response has left there stays. -/

namespace Libkinetic.Kinetic

/-! ### The metadata of a structure -/

/-- Version, tag and algorithm. -/
structure Metadata where
  ver : Option (List Byte) := none
  disum : Option (List Byte) := none
  ditype : Kditype := .other 0
deriving DecidableEq

def Kv.metadata (kv : Kv) : Metadata := ⟨kv.kvVer, kv.kvDisum, kv.kvDitype⟩

/-- What a response says; a field that is not set, or empty, is none. -/
def Metadata.ofResponse (r : KprotoKv) : Metadata where
  ver := extractBytesOptional r.dbversion none
  disum := extractBytesOptional r.tag none
  ditype := r.algorithm.getD (.other 0)

/-- What a successful get makes of the metadata. -/
def Metadata.fill (r : KprotoKv) (m : Metadata) : Metadata where
  ver := m.ver.or (extractBytesOptional r.dbversion none)
  disum := m.disum.or (extractBytesOptional r.tag none)
  ditype := if m.disum = none then r.algorithm.getD m.ditype else m.ditype

theorem metadata_fillKv (r : KprotoKv) (kv : Kv) :
    (fillKv r kv).metadata = kv.metadata.fill r := by
  unfold fillKv Metadata.fill Kv.metadata
  rcases kv.kvVer with _ | ver <;> rcases kv.kvDisum with _ | disum <;> rfl

/-- A structure that was just created holds what an empty response says. -/
theorem metadata_created : ({} : Kv).metadata = .ofResponse {} := rfl

/-! ### The calls -/

/-- `ki_clean`, of a `kv_t`. -/
def kiCleanKv (kv : Kv) : Kv := kv

/-- In memory: cleaning a valid `kv_t` changes nothing. -/
theorem kiClean_kv {P : Ktb.Platform} {h h' : Ktb.Heap} {p : ℕ} {krc : KStatus}
    (hc : Ktb.kiClean P h p = some (krc, h'))
    (ht : Base.Memory.load h.mem (Ktb.ktbBase p + 8) 4 = some (Ktype.kvT.code)) : h' = h := by
  obtain ⟨valid, -, hc⟩ := Option.bind_eq_some_iff.mp hc
  split_ifs at hc
  · obtain ⟨t, ht', hc⟩ := Option.bind_eq_some_iff.mp hc
    obtain ⟨h1, htype, hc⟩ := Option.bind_eq_some_iff.mp hc
    obtain ⟨destroy, -, hc⟩ := Option.bind_eq_some_iff.mp hc
    split_ifs at hc
    obtain ⟨-, rfl⟩ := Prod.mk.inj (Option.some.inj hc)
    obtain rfl : Ktype.kvT.code = t := Option.some.inj (ht.symm.trans ht')
    rw [Ktb.typeClean, if_neg (by decide)] at htype
    exact (Option.some.inj htype).symm
  · cases hc
    rfl

/-- One call. The caller prepares the structure, with a key and a place for the value, and leaves
version, tag and algorithm to the library. -/
structure GetTurn where
  getversion : Bool
  env : IssueEnv
  ses : Ksession
  prepare : Kv → Kv
  keeps : ∀ kv, (prepare kv).metadata = kv.metadata
  server : Request KprotoKv → List GetAnswer

def GetTurn.call (t : GetTurn) (kv : Kv) : GetOutcome :=
  if t.getversion then kiGetversion t.env t.ses t.server (t.prepare kv)
  else kiGet t.env t.ses t.server (t.prepare kv)

/-- The calls one after the other, on one structure. -/
def getRun : Kv → List GetTurn → List (GetTurn × GetOutcome)
  | _, [] => []
  | kv, t :: turns => (t, t.call kv) :: getRun (kiCleanKv (t.call kv).kv) turns

/-- The response among the answers, if it is one of success. -/
def acceptedResponse : List GetAnswer → Option KprotoKv
  | [] => none
  | a :: as =>
    match a.completion with
    | .notYet => acceptedResponse as
    | .resp (.msg (.cmd c)) =>
      if extractCmdstatusCode c = .kEagain then acceptedResponse as
      else if extractCmdstatusCode c = .kOk then c.body
      else none
    | _ => none

/-- The response of success to a call. -/
def responseOf (x : GetTurn × GetOutcome) : Option KprotoKv :=
  x.2.req.bind fun req => acceptedResponse (x.1.server req)

/-! ### What a call does -/

section Call
variable {ses : Ksession} {kv : Kv} {altkv : Option Kv} {kio : GetKio}

theorem metadata_getFinish (a : GetAnswer) (krc : KStatus) :
    (getFinish a ses kio krc kv altkv).kv.metadata = kv.metadata := by
  unfold getFinish
  dsimp only
  split_ifs <;> rfl

/-- **A completion** goes on waiting, fails, or fills the structure from the response. -/
theorem complete_spec (hcmd : kio.kioCmd = .kmtGet ∨ kio.kioCmd = .kmtGetvers) (a : GetAnswer)
    (kv : Kv) (altkv : Option Kv) :
    ((gGetAioComplete a ses kio kv altkv).krc = .kEagain ∧
        (gGetAioComplete a ses kio kv altkv).kv.metadata = kv.metadata ∧
        ∀ as, acceptedResponse (a :: as) = acceptedResponse as) ∨
      ((gGetAioComplete a ses kio kv altkv).krc ≠ .kEagain ∧
        (gGetAioComplete a ses kio kv altkv).krc ≠ .kOk ∧
        (gGetAioComplete a ses kio kv altkv).kv.metadata = kv.metadata ∧
        ∀ as, acceptedResponse (a :: as) = none) ∨
      (gGetAioComplete a ses kio kv altkv).krc = .kOk ∧
        ∃ r, (gGetAioComplete a ses kio kv altkv).kv.metadata = kv.metadata.fill r ∧
          ∀ as, acceptedResponse (a :: as) = some r := by
  obtain ⟨completion, msglen, val⟩ := a
  rcases completion with _ | _ | (_ | _ | _ | _ | _ | m)
  case notYet => exact .inl ⟨rfl, rfl, fun _ => rfl⟩
  case resp.msg =>
    have hextract : ∃ val', (getExtract m val kv altkv kio.kioCmd).1 = (extractGetkey m val').1 ∧
        (getExtract m val kv altkv kio.kioCmd).2.1 = (extractGetkey m val').2 ∧
        val'.metadata = kv.metadata := by
      rcases hcmd with hcmd | hcmd
      · exact ⟨hangVal val kv, by rw [hcmd]; rfl, by rw [hcmd]; rfl, rfl⟩
      · exact ⟨kv, by rw [hcmd]; rfl, by rw [hcmd]; rfl, rfl⟩
    obtain ⟨kv', hkrc, hkv, hmeta⟩ := hextract
    have hdone : ∀ a : GetAnswer, a = ⟨.resp (.msg m), msglen, val⟩ →
        (gGetAioComplete a ses kio kv altkv).krc = (extractGetkey m kv').1 ∧
        (gGetAioComplete a ses kio kv altkv).kv.metadata = (extractGetkey m kv').2.metadata := by
      rintro a rfl
      rw [← hkrc, ← hkv]
      exact ⟨rfl, metadata_getFinish ..⟩
    obtain ⟨hk, hm⟩ := hdone _ rfl
    rw [hk, hm, ← hmeta]
    rcases m with _ | _ | c
    · exact .inr (.inl (by simp [extractGetkey, acceptedResponse]))
    · exact .inr (.inl (by simp [extractGetkey, acceptedResponse]))
    · by_cases hok : extractCmdstatusCode c = .kOk
      · rcases hb : c.body with _ | r
        · refine .inr (.inl ?_)
          simp [extractGetkey, acceptedResponse, hok, hb]
        · refine .inr (.inr ?_)
          simp [extractGetkey, acceptedResponse, hok, hb, metadata_fillKv]
      · by_cases hagain : extractCmdstatusCode c = .kEagain
        · refine .inl ?_
          simp [extractGetkey, acceptedResponse, hagain]
        · refine .inr (.inl ?_)
          simp [extractGetkey, acceptedResponse, hok, hagain]
  all_goals exact .inr (.inl (by simp [gGetAioComplete, acceptedResponse]))

/-- **The waiting** ends with a status of failure, or without one, and the metadata as it was, or
with the accepted response filled in. -/
theorem getWait_spec (hcmd : kio.kioCmd = .kmtGet ∨ kio.kioCmd = .kmtGetvers)
    (req : Request KprotoKv) (as : List GetAnswer) (kv : Kv) (altkv : Option Kv) (o : GetOutcome)
    (ho : getWait (fun a => gGetAioComplete a ses kio) req as kv altkv = o) :
    (acceptedResponse as = none ∧ o.krc ≠ some .kOk ∧ o.kv.metadata = kv.metadata) ∨
      ∃ r, acceptedResponse as = some r ∧ o.krc = some .kOk ∧
        o.kv.metadata = kv.metadata.fill r := by
  induction as generalizing kv altkv with
  | nil =>
    subst ho
    exact .inl ⟨rfl, nofun, rfl⟩
  | cons a as ih =>
    rw [getWait] at ho
    rcases complete_spec hcmd a kv altkv with ⟨hk, hm, hacc⟩ | ⟨hne, hk, hm, hacc⟩ |
      ⟨hk, r, hm, hacc⟩
    · rw [if_pos hk] at ho
      rw [hacc, ← hm]
      exact ih _ _ ho
    · rw [if_neg hne] at ho
      subst ho
      exact .inl ⟨hacc as, fun h => hk (Option.some.inj h), hm⟩
    · rw [if_neg (by rw [hk]; decide)] at ho
      subst ho
      exact .inr ⟨r, hacc as, congrArg some hk, hm⟩

theorem gGetGeneric_spec {e : IssueEnv} {server : Request KprotoKv → List GetAnswer}
    {msgType : Kmtype} (hcmd : msgType = .kmtGet ∨ msgType = .kmtGetvers) {o : GetOutcome}
    (ho : gGetGeneric e ses server kv none msgType = o) :
    ((o.req.bind fun req => acceptedResponse (server req)) = none ∧ o.krc ≠ some .kOk ∧
        o.kv.metadata = kv.metadata) ∨
      ∃ r, (o.req.bind fun req => acceptedResponse (server req)) = some r ∧ o.krc = some .kOk ∧
        o.kv.metadata = kv.metadata.fill r := by
  unfold gGetGeneric getCall at ho
  rcases hi : gGetAioGeneric e ses kv none msgType none with ⟨krc, events⟩ | ⟨req, kio⟩
  · rw [hi] at ho
    subst ho
    exact .inl ⟨rfl, fun h => gGetAioGeneric_ne_ok hi (Option.some.inj h), rfl⟩
  · rw [hi] at ho
    obtain ⟨-, -, hkio⟩ := gGetAioGeneric_ok hi
    have hreq : o.req = some req := by
      rw [← ho]
      exact getWait_req ..
    rw [hreq]
    exact getWait_spec (hkio ▸ hcmd) req (server req) kv none o ho

/-- **A call** fails and leaves the metadata alone, or fills in its response. -/
theorem call_spec (t : GetTurn) (kv : Kv) :
    (responseOf (t, t.call kv) = none ∧ (t.call kv).krc ≠ some .kOk ∧
        (t.call kv).kv.metadata = kv.metadata) ∨
      ∃ r, responseOf (t, t.call kv) = some r ∧ (t.call kv).krc = some .kOk ∧
        (t.call kv).kv.metadata = kv.metadata.fill r := by
  rw [← t.keeps kv]
  unfold responseOf
  generalize ho : t.call kv = o
  unfold GetTurn.call at ho
  split_ifs at ho
  · exact gGetGeneric_spec (.inr rfl) ho
  · exact gGetGeneric_spec (.inl rfl) ho

end Call

/-! ### A sequence of calls -/

/-- A successful call leaves what its response says. -/
def ReportsResponse (x : GetTurn × GetOutcome) : Prop :=
  x.2.krc = some .kOk →
    ∃ r, responseOf x = some r ∧ x.2.kv.metadata = .ofResponse r

/-- After a response `r`, the response `r'` is reported: what `r` has left is null or the same. -/
def Agree (r r' : KprotoKv) : Prop :=
  let m := Metadata.ofResponse r
  let m' := Metadata.ofResponse r'
  (m.ver = none ∨ m'.ver = m.ver) ∧
    (m.disum = none → r'.algorithm.isSome ∨ m.ditype = .other 0) ∧
    (m.disum ≠ none → m'.disum = m.disum ∧ m'.ditype = m.ditype)

/-- **One call** on a structure that holds what the last response said. -/
theorem fill_eq_iff (r r' : KprotoKv) :
    (Metadata.ofResponse r).fill r' = .ofResponse r' ↔ Agree r r' := by
  unfold Agree Metadata.fill
  generalize Metadata.ofResponse r = m
  unfold Metadata.ofResponse
  simp only [Metadata.mk.injEq]
  rcases m with ⟨_ | ver, _ | disum, ditype⟩ <;> rcases r'.algorithm with _ | algorithm <;>
    simp [eq_comm]

/-- The calls that follow a response. -/
theorem reports_iff_isChain (turns : List GetTurn) (r : KprotoKv) (kv : Kv)
    (hkv : kv.metadata = .ofResponse r) : (∀ x ∈ getRun kv turns, ReportsResponse x) ↔
      (r :: (getRun kv turns).filterMap responseOf).IsChain Agree := by
  induction turns generalizing r kv with
  | nil => simp [getRun]
  | cons t turns ih =>
    rw [getRun, List.forall_mem_cons]
    rcases call_spec t kv with ⟨hr, hk, hm⟩ | ⟨r', hr, hk, hm⟩
    · rw [List.filterMap_cons_none hr, ← ih r (kiCleanKv (t.call kv).kv) (hm.trans hkv)]
      have hfirst : ReportsResponse (t, t.call kv) := fun h => absurd h hk
      exact and_iff_right hfirst
    · rw [List.filterMap_cons_some hr, List.isChain_cons_cons, ← fill_eq_iff, ← hkv, ← hm]
      constructor
      · rintro ⟨hfirst, hrest⟩
        obtain ⟨r1, hr1, hm1⟩ := hfirst hk
        obtain rfl : r' = r1 := Option.some.inj (hr.symm.trans hr1)
        exact ⟨hm1, (ih r' (kiCleanKv (t.call kv).kv) hm1).mp hrest⟩
      · rintro ⟨hm1, hrest⟩
        exact ⟨fun _ => ⟨r', hr, hm1⟩, (ih r' (kiCleanKv (t.call kv).kv) hm1).mpr hrest⟩

/-- **Every get reports its own response** just when each response of success says the same as the
one before it, as far as that one has left something in the structure. -/
theorem gets_report_iff (turns : List GetTurn) :
    (∀ x ∈ getRun {} turns, ReportsResponse x) ↔
      ((getRun {} turns).filterMap responseOf).IsChain Agree := by
  rw [reports_iff_isChain turns {} {} metadata_created, List.isChain_cons]
  have hfirst : ∀ r, Agree {} r :=
    fun r => ⟨.inl rfl, fun _ => .inr rfl, fun h => absurd rfl h⟩
  exact and_iff_right fun r _ => hfirst r

/-- A get of a key that is stored with this version. -/
def getVersioned (key : Key) (version : List Byte) : GetTurn where
  getversion := false
  env := getEnv
  ses := getSes
  prepare kv := { kv with kvKey := some [some key], kvVal := some [{}] }
  keeps _ := rfl
  server _ := [{ completion := .resp (.msg (.cmd ⟨some .kOk, some { dbversion := version }⟩)) }]

/-- **The second get** succeeds, and leaves the version of the first key. -/
theorem second_get_keeps_version :
    ((getRun {} [getVersioned [1] [49], getVersioned [2] [50]]).map fun x =>
        (x.2.krc, responseOf x, x.2.kv.kvVer)) =
      [(some .kOk, some { dbversion := some [49] }, some [49]),
        (some .kOk, some { dbversion := some [50] }, some [49])] ∧
      ¬ ∀ x ∈ getRun {} [getVersioned [1] [49], getVersioned [2] [50]], ReportsResponse x := by
  refine ⟨by decide, fun h => ?_⟩
  obtain ⟨r, hr, hm⟩ := h (getVersioned [2] [50], _) (List.mem_cons_of_mem _ (List.mem_cons_self ..))
    rfl
  obtain rfl : ({ dbversion := some [50] } : KprotoKv) = r := Option.some.inj hr
  exact absurd (congrArg Metadata.ver hm) (by decide)

end Libkinetic.Kinetic
