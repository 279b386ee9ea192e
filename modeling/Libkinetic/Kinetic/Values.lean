import Libkinetic.Kinetic.Exec

/-! # The value vector of a completion

The completions of gets and execs hang the value buffer of the response on the first element of the
caller's value vector as soon as the message has unpacked, before the status is known. If the status
is another one than `K_OK` the buffer is freed, and the element keeps its address. Here the elements
are addresses with lengths; the models of the completions, which have the bytes in their place, see
the same vectors through the memory. -/

namespace Libkinetic.Kinetic

/-- `struct kiovec` -/
structure Kiovec where
  /-- The address, 0 for null. -/
  kiovBase : ℕ := 0
  kiovLen : ℕ := 0
deriving DecidableEq

/-- `kv_val`, which the validation has found to have an element. -/
structure Valvec where
  first : Kiovec
  rest : List Kiovec := []
deriving DecidableEq

def Valvec.elems (v : Valvec) : List Kiovec := v.first :: v.rest

/-- The value of a response, and the vector of the caller; the buffer has come from `malloc`, and
nothing of the caller's refers to it. -/
structure ValueIn where
  val : Kiovec
  vec : Valvec
  fresh : val.kiovBase ≠ 0 → ∀ e ∈ vec.elems, e.kiovBase ≠ val.kiovBase

/-- What a completion returns, leaves in the vector and frees. -/
structure ValueDone where
  krc : KStatus
  vec : Valvec
  freed : List ℕ := []
deriving DecidableEq

/-- The response's value is put into the first element. -/
def Valvec.hang (val : Kiovec) (v : Valvec) : Valvec := { v with first := val }

/-- `KI_FREE` of the value buffer, if there is one and the test says so. -/
def freeVal (val : Kiovec) (test : Prop) [Decidable test] : List ℕ :=
  if val.kiovBase ≠ 0 ∧ test then [val.kiovBase] else []

/-- What **`g_get_aio_complete`** does with values; the vector is that of `kv` for a get, and that
of `altkv` for a getnext or a getprev. -/
def gGetAioCompleteVal (kioCmd : Kmtype) (kvMetaonly : ℕ) (i : ValueIn) :
    Completion KprotoKv → ValueDone
  | .noConfig => { krc := .kEbadsess, vec := i.vec }
  | .notYet => { krc := .kEagain, vec := i.vec }
  | .resp .lost => { krc := .kEinternal, vec := i.vec }
  | .resp .timedout => { krc := .kEtimedout, vec := i.vec }
  | .resp .failed => { krc := .kEnomsg, vec := i.vec }
  | .resp .badpdu | .resp .badmsg =>
    { krc := .kEinternal, vec := i.vec, freed := freeVal i.val True }
  | .resp (.msg m) =>
    -- the status does not depend on the structure that is filled
    let krc := (extractGetkey m {}).1
    { krc
      vec := if kioCmd = .kmtGetvers then i.vec else i.vec.hang i.val
      freed := freeVal i.val (krc ≠ .kOk ∨ kioCmd = .kmtGetvers ∨ kvMetaonly ≠ 0) }

/-- What **`e_exec_aio_complete`** does with values, for an applet with an output key. -/
def eExecAioCompleteVal (i : ValueIn) : Completion ExecStatus → ValueDone
  | .noConfig => { krc := .kEbadsess, vec := i.vec }
  | .notYet => { krc := .kEagain, vec := i.vec }
  | .resp .lost => { krc := .kEinternal, vec := i.vec }
  | .resp .timedout => { krc := .kEtimedout, vec := i.vec }
  | .resp .failed => { krc := .kEnomsg, vec := i.vec }
  | .resp .badpdu | .resp .badmsg =>
    { krc := .kEinternal, vec := i.vec, freed := freeVal i.val True }
  | .resp (.msg m) =>
    let krc := (extractExecResponse m {}).1
    { krc, vec := i.vec.hang i.val, freed := freeVal i.val (krc ≠ .kOk) }

/-! ### The bytes behind the addresses -/

section View
variable (mem : ℕ → Byte)

/-- The bytes of a buffer, none for null. -/
def Kiovec.bytes (e : Kiovec) : Option (List Byte) :=
  if e.kiovBase = 0 then none else some ((List.range e.kiovLen).map fun j => mem (e.kiovBase + j))

/-- An element as the models with bytes have it. -/
def Kiovec.view (freed : List ℕ) (e : Kiovec) : Valbuf where
  bytes := (e.bytes mem).getD []
  freed := decide (e.kiovBase ∈ freed)

def Valvec.view (freed : List ℕ) (v : Valvec) : List Valbuf := v.elems.map (Kiovec.view mem freed)

end View

section Refinement
variable {mem : ℕ → Byte} {i : ValueIn} {freed : List ℕ} {v : Valvec} {kv : Kv}

/-- The structure that is filled does not decide the status. -/
theorem extractGetkey_krc (m : RespMsg KprotoKv) (kv kv' : Kv) :
    (extractGetkey m kv).1 = (extractGetkey m kv').1 := by
  cases m with
  | nocmd | badcmd => rfl
  | cmd c =>
    simp only [extractGetkey]
    split
    · rfl
    · cases c.body <;> rfl

theorem extractGetkey_keeps (m : RespMsg KprotoKv) (kv : Kv) :
    (extractGetkey m kv).2.kvVal = kv.kvVal ∧
      (extractGetkey m kv).2.kvMetaonly = kv.kvMetaonly := by
  cases m with
  | nocmd | badcmd => exact ⟨rfl, rfl⟩
  | cmd c =>
    simp only [extractGetkey]
    split
    · exact ⟨rfl, rfl⟩
    · cases c.body <;> exact ⟨rfl, rfl⟩

theorem extractExecResponse_krc (m : RespMsg ExecStatus) (app app' : Kapplet) :
    (extractExecResponse m app).1 = (extractExecResponse m app').1 := by
  cases m with
  | nocmd | badcmd => rfl
  | cmd c =>
    rcases c with ⟨_ | krc, _ | ⟨msg, _ | _ | _⟩⟩ <;> rfl

theorem extractExecResponse_outkey (m : RespMsg ExecStatus) (app : Kapplet) :
    (extractExecResponse m app).2.kaOutkey = app.kaOutkey := by
  cases m with
  | nocmd | badcmd => rfl
  | cmd c =>
    rcases c with ⟨_ | krc, _ | ⟨msg, _ | _ | _⟩⟩ <;> rfl

/-- Freeing what no element refers to is not seen. -/
theorem Valvec.view_of_fresh (h : ∀ e ∈ v.elems, e.kiovBase ∉ freed) :
    v.view mem freed = v.view mem [] := by
  refine List.map_congr_left fun e he => ?_
  simp [Kiovec.view, h e he]

theorem ValueIn.view_freeVal (test : Prop) [Decidable test] :
    i.vec.view mem (freeVal i.val test) = i.vec.view mem [] := by
  refine Valvec.view_of_fresh fun e he hmem => ?_
  unfold freeVal at hmem
  split_ifs at hmem with hfree
  · exact i.fresh hfree.1 e he (List.mem_singleton.mp hmem)
  · cases hmem

/-- The vector with the value hung on it. -/
theorem hangVal_view (hkv : kv.kvVal = some (i.vec.view mem [])) :
    (hangVal (i.val.bytes mem) kv).kvVal = some ((i.vec.hang i.val).view mem []) := by
  simp [hangVal, hkv, Valvec.view, Valvec.elems, Valvec.hang, Kiovec.view]

/-- **Hung and then freed**: only the first element refers to the buffer. -/
theorem releaseVal_view (hkv : kv.kvVal = some ((i.vec.hang i.val).view mem []))
    (hval : i.val.kiovBase ≠ 0) :
    (releaseVal kv).kvVal = some ((i.vec.hang i.val).view mem [i.val.kiovBase]) := by
  have hrest : ∀ e ∈ i.vec.rest, e.kiovBase ≠ i.val.kiovBase :=
    fun e he => i.fresh hval e (List.mem_cons_of_mem _ he)
  simp [releaseVal, hkv, Valvec.view, Valvec.elems, Valvec.hang, Kiovec.view]
  exact hrest

theorem bytes_isSome (mem : ℕ → Byte) (e : Kiovec) :
    (e.bytes mem).isSome = true ↔ e.kiovBase ≠ 0 := by
  unfold Kiovec.bytes
  split_ifs with h <;> simp [h]

/-- The structure that is filled, at the end of the completion. -/
theorem filled_view (hkv : kv.kvVal = some ((i.vec.hang i.val).view mem [])) {free test : Prop}
    [Decidable free] [Decidable test] (hfree : free ↔ i.val.kiovBase ≠ 0 ∧ test) :
    (if free then releaseVal kv else kv).kvVal =
      some ((i.vec.hang i.val).view mem (freeVal i.val test)) := by
  unfold freeVal
  by_cases h : free
  · rw [if_pos h, if_pos (hfree.mp h)]
    exact releaseVal_view hkv (hfree.mp h).1
  · rw [if_neg h, if_neg (mt hfree.mpr h)]
    exact hkv

/-- **The two models of `g_get_aio_complete`** for a get. -/
theorem gGetAioComplete_view {kio : GetKio} (hcmd : kio.kioCmd = .kmtGet)
    (hkv : kv.kvVal = some (i.vec.view mem [])) (c : Completion KprotoKv) (msglen : ℕ)
    (ses : Ksession) (altkv : Option Kv) :
    let d := gGetAioCompleteVal .kmtGet kv.kvMetaonly i c
    let r := gGetAioComplete { completion := c, msglen, val := i.val.bytes mem } ses kio kv altkv
    r.krc = d.krc ∧ r.kv.kvVal = some (d.vec.view mem d.freed) := by
  match c with
  | .noConfig | .notYet | .resp .lost | .resp .timedout | .resp .failed => exact ⟨rfl, hkv⟩
  | .resp .badpdu | .resp .badmsg =>
    refine ⟨rfl, hkv.trans ?_⟩
    exact congrArg some (i.view_freeVal True).symm
  | .resp (.msg m) =>
    have hkrc := extractGetkey_krc m (hangVal (i.val.bytes mem) kv) {}
    obtain ⟨hval, hmeta⟩ := extractGetkey_keeps m (hangVal (i.val.bytes mem) kv)
    rw [hangVal_view hkv] at hval
    simp only [gGetAioComplete, gGetAioCompleteVal, getExtract, getFinish, hcmd, hkrc, hmeta]
    refine ⟨trivial, filled_view hval ?_⟩
    simp [← bytes_isSome mem, hangVal]

/-- For a getnext or a getprev. -/
theorem gGetAioComplete_altkv_view {kio : GetKio} {altkv : Kv}
    (hcmd : kio.kioCmd = .kmtGetnext ∨ kio.kioCmd = .kmtGetprev)
    (hkv : altkv.kvVal = some (i.vec.view mem [])) (c : Completion KprotoKv) (msglen : ℕ)
    (ses : Ksession) :
    let d := gGetAioCompleteVal kio.kioCmd kv.kvMetaonly i c
    let r := gGetAioComplete { completion := c, msglen, val := i.val.bytes mem } ses kio kv
      (some altkv)
    r.krc = d.krc ∧ r.altkv.bind Kv.kvVal = some (d.vec.view mem d.freed) := by
  match c with
  | .noConfig | .notYet | .resp .lost | .resp .timedout | .resp .failed => exact ⟨rfl, hkv⟩
  | .resp .badpdu | .resp .badmsg =>
    refine ⟨rfl, hkv.trans ?_⟩
    exact congrArg some (i.view_freeVal True).symm
  | .resp (.msg m) =>
    have hkrc := extractGetkey_krc m (hangVal (i.val.bytes mem) altkv) {}
    obtain ⟨hval, -⟩ := extractGetkey_keeps m (hangVal (i.val.bytes mem) altkv)
    rw [hangVal_view hkv] at hval
    have hmap : ∀ (free : Prop) [Decidable free] (kv : Kv),
        ((if free then (some kv).map releaseVal else some kv).bind Kv.kvVal) =
          (if free then releaseVal kv else kv).kvVal := by
      intro free _ kv
      split_ifs <;> rfl
    rcases hcmd with hcmd | hcmd
    all_goals
      simp only [gGetAioComplete, gGetAioCompleteVal, getExtract, getFinish, hcmd, hkrc, hmap]
      refine ⟨trivial, filled_view hval ?_⟩
      simp [← bytes_isSome mem]

theorem execExtract_view {app : Kapplet} (happ : app.kaOutkey = some kv)
    (hkv : kv.kvVal = some (i.vec.view mem [])) (m : RespMsg ExecStatus) :
    (execExtract (i.val.bytes mem) m app).1 = (extractExecResponse m {}).1 ∧
      (execExtract (i.val.bytes mem) m app).2.kaOutkey.bind Kv.kvVal =
        some ((i.vec.hang i.val).view mem
          (freeVal i.val ((extractExecResponse m {}).1 ≠ .kOk))) := by
  let hung := { app with kaOutkey := app.kaOutkey.map (hangVal (i.val.bytes mem)) }
  have hkrc := extractExecResponse_krc m hung {}
  have hout : (extractExecResponse m hung).2.kaOutkey =
      some (hangVal (i.val.bytes mem) kv) := by
    rw [extractExecResponse_outkey m hung]
    simp [hung, happ]
  have hfree : ((extractExecResponse m {}).1 ≠ .kOk ∧ (i.val.bytes mem).isSome = true) ↔
      i.val.kiovBase ≠ 0 ∧ (extractExecResponse m {}).1 ≠ .kOk := by
    rw [bytes_isSome]
    exact and_comm
  have hfilled := filled_view (hangVal_view hkv) hfree
  rw [← hfilled, ← hkrc]
  unfold execExtract
  dsimp only
  split_ifs
  · exact ⟨rfl, by simp [hout, hung]⟩
  · exact ⟨rfl, by simp [hout, hung]⟩

/-- **The two models of `e_exec_aio_complete`.** -/
theorem eExecAioComplete_view {app : Kapplet} (happ : app.kaOutkey = some kv)
    (hkv : kv.kvVal = some (i.vec.view mem [])) (c : Completion ExecStatus) (msglen sendlen : ℕ)
    (ses : Ksession) :
    let d := eExecAioCompleteVal i c
    let r := eExecAioComplete { completion := c, msglen, val := i.val.bytes mem } ses sendlen app
    r.krc = d.krc ∧ r.caller.kaOutkey.bind Kv.kvVal = some (d.vec.view mem d.freed) := by
  have hcaller : app.kaOutkey.bind Kv.kvVal = some (i.vec.view mem []) := by
    rw [happ]
    exact hkv
  match c with
  | .noConfig | .notYet | .resp .lost | .resp .timedout | .resp .failed => exact ⟨rfl, hcaller⟩
  | .resp .badpdu | .resp .badmsg =>
    refine ⟨rfl, hcaller.trans ?_⟩
    exact congrArg some (i.view_freeVal True).symm
  | .resp (.msg m) =>
    obtain ⟨hkrc, hout⟩ := execExtract_view happ hkv m
    exact ⟨hkrc, hout⟩

end Refinement

/-! ### The vector of a completion that fails -/

/-- **The vector is as it was**, and no element refers to what was freed. -/
structure Kept (i : ValueIn) (d : ValueDone) : Prop where
  same : d.vec = i.vec
  alive : ∀ e ∈ d.vec.elems, e.kiovBase ∉ d.freed

/-- The response has no value, and the caller's first element is null and has its length already. -/
def NothingHung (i : ValueIn) : Prop := i.val.kiovBase = 0 ∧ i.vec.first = i.val

/-- The response to a get is a success with a key value. -/
def GetAccepted (c : Completion KprotoKv) : Prop :=
  ∃ r, c = .resp (.msg (.cmd r)) ∧ r.status = some .kOk ∧ r.body.isSome = true

/-- The response to an exec is a success with its texts and three colons in them. -/
def ExecAccepted (c : Completion ExecStatus) : Prop :=
  ∃ r text rc sig out, c = .resp (.msg (.cmd r)) ∧ r.status = some .kOk ∧
    r.body = some { statusmessage := text, detailedmessage := .full rc sig out }

section Kept
variable {i : ValueIn} {krc : KStatus}

/-- Without a message nothing is hung. -/
theorem kept_of_untouched (i : ValueIn) (krc : KStatus) (test : Prop) [Decidable test] :
    Kept i { krc, vec := i.vec, freed := freeVal i.val test } where
  same := rfl
  alive e he hmem := by
    unfold freeVal at hmem
    split_ifs at hmem with hfree
    · exact i.fresh hfree.1 e he (List.mem_singleton.mp hmem)
    · cases hmem

/-- **What was hung stays there**, freed. -/
theorem kept_hang_iff {test : Prop} [Decidable test] (htest : test) :
    Kept i { krc, vec := i.vec.hang i.val, freed := freeVal i.val test } ↔ NothingHung i := by
  constructor
  · rintro ⟨hsame, halive⟩
    have hfirst : i.vec.first = i.val := (congrArg Valvec.first hsame).symm
    refine ⟨?_, hfirst⟩
    by_contra hbase
    refine halive i.val List.mem_cons_self ?_
    rw [freeVal, if_pos ⟨hbase, htest⟩]
    exact List.mem_singleton_self _
  · rintro ⟨hbase, hfirst⟩
    refine ⟨?_, fun e _ hmem => ?_⟩
    · exact congrArg (fun e => { i.vec with first := e }) hfirst.symm
    · rw [freeVal, if_neg fun h => h.1 hbase] at hmem
      cases hmem

theorem extractGetkey_ok {m : RespMsg KprotoKv} {kv : Kv} : (extractGetkey m kv).1 = .kOk ↔
    ∃ r, m = .cmd r ∧ r.status = some .kOk ∧ r.body.isSome = true := by
  cases m with
  | nocmd | badcmd => simp [extractGetkey]
  | cmd r =>
    rcases r with ⟨_ | krc, _ | response⟩
    · simp [extractGetkey, extractCmdstatusCode]
    · simp [extractGetkey, extractCmdstatusCode]
    · by_cases hk : krc = .kOk <;> simp [extractGetkey, extractCmdstatusCode, hk]
    · by_cases hk : krc = .kOk <;> simp [extractGetkey, extractCmdstatusCode, hk]

theorem extractExecResponse_ok {m : RespMsg ExecStatus} {app : Kapplet} :
    (extractExecResponse m app).1 = .kOk ↔ ∃ r text rc sig out, m = .cmd r ∧
      r.status = some .kOk ∧
      r.body = some { statusmessage := text, detailedmessage := .full rc sig out } := by
  cases m with
  | nocmd | badcmd => simp [extractExecResponse]
  | cmd r => rcases r with ⟨_ | krc, _ | ⟨text, _ | _ | _⟩⟩ <;> simp [extractExecResponse]

/-- With a message the value is hung before the status is known. -/
theorem kept_of_failed_iff {accepted test : Prop} [Decidable test] (hok : krc = .kOk ↔ accepted)
    (htest : krc ≠ .kOk → test) :
    (krc ≠ .kOk → Kept i { krc, vec := i.vec.hang i.val, freed := freeVal i.val test }) ↔
      accepted ∨ NothingHung i := by
  by_cases hk : krc = .kOk
  · exact iff_of_true (absurd hk) (.inl (hok.mp hk))
  · rw [← hok, or_iff_right hk, ← kept_hang_iff (htest hk)]
    exact forall_prop_of_true hk

/-- **When a completion that fails leaves the vector as it was.** -/
theorem kept_iff (kvMetaonly : ℕ) (i : ValueIn) (c : Completion KprotoKv)
    (x : Completion ExecStatus) :
    (∀ cmd, cmd = .kmtGet ∨ cmd = .kmtGetnext ∨ cmd = .kmtGetprev →
      (((gGetAioCompleteVal cmd kvMetaonly i c).krc ≠ .kOk →
          Kept i (gGetAioCompleteVal cmd kvMetaonly i c)) ↔
        GetAccepted c ∨ (∀ m, c ≠ .resp (.msg m)) ∨ NothingHung i)) ∧
    (((eExecAioCompleteVal i x).krc ≠ .kOk → Kept i (eExecAioCompleteVal i x)) ↔
        ExecAccepted x ∨ (∀ m, x ≠ .resp (.msg m)) ∨ NothingHung i) := by
  constructor
  · intro cmd hcmd
    have hvers : cmd ≠ .kmtGetvers := by
      rintro rfl
      simp at hcmd
    match c with
    | .noConfig | .notYet | .resp .lost | .resp .timedout | .resp .failed =>
      exact iff_of_true (fun _ => ⟨rfl, by simp [gGetAioCompleteVal]⟩) (.inr (.inl (by simp)))
    | .resp .badpdu | .resp .badmsg =>
      exact iff_of_true (fun _ => kept_of_untouched i _ True) (.inr (.inl (by simp)))
    | .resp (.msg m) =>
      have hok : (extractGetkey m {}).1 = .kOk ↔ GetAccepted (.resp (.msg m)) := by
        rw [extractGetkey_ok]
        simp [GetAccepted]
      have hiff := kept_of_failed_iff (i := i) hok fun h =>
        Or.inl (b := cmd = .kmtGetvers ∨ kvMetaonly ≠ 0) h
      simpa [gGetAioCompleteVal, hvers] using hiff
  · match x with
    | .noConfig | .notYet | .resp .lost | .resp .timedout | .resp .failed =>
      exact iff_of_true (fun _ => ⟨rfl, by simp [eExecAioCompleteVal]⟩) (.inr (.inl (by simp)))
    | .resp .badpdu | .resp .badmsg =>
      exact iff_of_true (fun _ => kept_of_untouched i _ True) (.inr (.inl (by simp)))
    | .resp (.msg m) =>
      have hok : (extractExecResponse m {}).1 = .kOk ↔ ExecAccepted (.resp (.msg m)) := by
        rw [extractExecResponse_ok]
        simp [ExecAccepted]
      have hiff := kept_of_failed_iff (i := i) hok id
      simpa [eExecAioCompleteVal] using hiff

/-- A value of eight bytes at the address 4096, and a vector that refers to 64 bytes of the
caller's. -/
def valueIn : ValueIn where
  val := { kiovBase := 4096, kiovLen := 8 }
  vec := { first := { kiovBase := 512, kiovLen := 64 } }
  fresh := by decide

/-- The server has not found the key, and sends a value all the same. -/
def keyNotFound {β : Type*} : Completion β :=
  .resp (.msg (.cmd { status := some .kEnotfound, body := none }))

/-- The caller's value vector refers to the buffer that was freed. -/
theorem value_dangles :
    gGetAioCompleteVal .kmtGet 0 valueIn keyNotFound =
      { krc := .kEnotfound
        vec := { first := { kiovBase := 4096, kiovLen := 8 } }
        freed := [4096] } ∧
      ¬ Kept valueIn (gGetAioCompleteVal .kmtGet 0 valueIn keyNotFound) ∧
      ¬ Kept valueIn (eExecAioCompleteVal valueIn keyNotFound) := by
  refine ⟨by decide, fun h => ?_, fun h => ?_⟩
  · exact absurd h.same (by decide)
  · exact absurd h.same (by decide)

/-- A response that does not unpack leaves it alone. -/
theorem value_kept :
    (gGetAioCompleteVal .kmtGetnext 0 valueIn (.resp .badmsg)).krc ≠ .kOk ∧
      Kept valueIn (gGetAioCompleteVal .kmtGetnext 0 valueIn (.resp .badmsg)) := by
  have hne : (gGetAioCompleteVal .kmtGetnext 0 valueIn (.resp .badmsg)).krc ≠ .kOk := by decide
  refine ⟨hne, ?_⟩
  exact ((kept_iff 0 valueIn (.resp .badmsg) .notYet).1 .kmtGetnext (.inr (.inl rfl))).mpr
    (.inr (.inl (by simp))) hne

end Kept

end Libkinetic.Kinetic
