import Libkinetic.Kinetic.Batch
import Libkinetic.Kinetic.Iter
import Libkinetic.Kinetic.Ktb

/-! # Creating batches and iterators

`ki_create` allocates the object, and for a batch or an iterator calls `b_startbatch` or
`i_iterinit` and returns the object whatever these return. The object is handed out exactly if its
own allocation succeeds, but for an iterator one of whose ranges cannot be allocated: there
`i_iterinit` destroys null pointers, and the call does not return. -/

namespace Libkinetic.Kinetic

/-! ### A start with races

The start of a batch as in `startBatch`, where the three increments may lose races to other
threads. -/

/-- The values that other threads put into the counters, one for each race that is lost. -/
structure Races where
  bid : List ℕ := []
  bats : List ℕ := []
  drop : List ℕ := []

/-- The error exit. -/
def bexKbIn (races : Races) (krc : KStatus) (ses : Ksession) (kb : Kb) (msgType : Kmtype) :
    BatchIssue :=
  if msgType = .kmtStartbat then
    let a := bAtomInc ses.ksBats (-1) races.drop
    { krc := if a.rc < 0 then .kEbatch else krc, ses := { ses with ksBats := a.p }, kb }
  else { krc, ses, kb }

def sendBatchIn (races : Races) (e : IssueEnv) (ses : Ksession) (kb : Kb) (msgType : Kmtype) :
    BatchIssue :=
  let kmreq := createBatchMessage e.message (batchHdr ses kb msgType) kb.kbOps
  match buildKio e kmreq .kEinternal with
  | .error krc => bexKbIn races krc ses kb msgType
  | .ok (kmreq, _) =>
    if ¬ e.send then bexKbIn races .kEinternal ses kb msgType
    else { krc := .kOk, ses, kb, req := some kmreq }

def startBatchIn (races : Races) (e : IssueEnv) (ses : Ksession) (kb : Kb) : BatchIssue :=
  let a := bAtomInc ses.ksBid 1 races.bid
  let ses := { ses with ksBid := a.p }
  let kb := { kb with kbBid := a.v }
  if a.rc < 0 then { krc := .kEbatch, ses, kb }
  else
    let b := bAtomInc ses.ksBats 1 races.bats
    let ses := { ses with ksBats := b.p }
    if b.rc < 0 then { krc := .kEbatch, ses, kb }
    else if 0 < ses.ksL.klDevbatcnt ∧ ses.ksL.klDevbatcnt < b.v then
      bexKbIn races .kEbatch ses kb .kmtStartbat
    else sendBatchIn races e ses { kb with kbOps := 0, kbDels := 0, kbBytes := 0 } .kmtStartbat

/-- **`b_batch_aio_generic`** for a start. -/
def bBatchAioStart (races : Races) (e : IssueEnv) (ses : Ksession) (kb : Kb) : BatchIssue :=
  if ¬ e.config then { krc := .kEbadsess, ses, kb }
  else if ¬ kiValidateKb kb .kmtStartbat then { krc := .kEinval, ses, kb }
  else startBatchIn races e ses kb

/-- Without races it is the start of the model of sessions. -/
theorem bBatchAioStart_nil (e : IssueEnv) (ses : Ksession) (kb : Kb) :
    bBatchAioStart {} e ses kb = bBatchAioGeneric e ses kb .kmtStartbat := rfl

/-! ### Waiting for the response -/

/-- What the environment answers while a batch is created. -/
structure StartEnv where
  /-- `malloc` gets the object. -/
  buffer : Bool := true
  races : Races := {}
  issue : IssueEnv
  /-- How many times the kio is asked for before it is there. -/
  waits : ℕ := 0
  outcome : Completion Unit
  arrives : outcome ≠ .notYet

/-- The loop of `b_batch_generic`. -/
def batchWait (outcome : Completion Unit) (ses : Ksession) : ℕ → Option (KStatus × Ksession)
  | n + 1 =>
    let (krc, ses) := bBatchAioComplete .notYet ses .kmtStartbat
    if krc = .kEagain then batchWait outcome ses n else some (krc, ses)
  | 0 =>
    let (krc, ses) := bBatchAioComplete outcome ses .kmtStartbat
    -- the kio has been freed, and is waited for again
    if krc = .kEagain then none else some (krc, ses)

/-- **`b_startbatch`** -/
def bStartbatch (env : StartEnv) (ses : Ksession) (kb : Kb) : Option (KStatus × Ksession × Kb) :=
  let r := bBatchAioStart env.races env.issue ses kb
  if r.krc ≠ .kOk then some (r.krc, r.ses, r.kb)
  else (batchWait env.outcome r.ses env.waits).map fun w => (w.1, w.2, r.kb)

/-- **`ki_create`** of a batch, with the session that it leaves. -/
def kiCreateBatch (env : StartEnv) (ses : Ksession) : Option (Option Kb × Ksession) :=
  if ¬ env.buffer then some (none, ses)
  else
    -- the result of `b_startbatch` is not looked at
    (bStartbatch env ses {}).map fun r => (some r.2.2, r.2.1)

/-! ### Iterators -/

/-- `struct kiter` with its pointers to ranges; it is created zeroed. -/
structure KiterObj where
  kiKtd : ℕ := 0
  kiRreq : Option Krange := none
  kiRwin1 : Option Krange := none
  kiRwin2 : Option Krange := none
  kiCurkey : ℕ := 0
  kiSeenkeys : ℤ := 0
  kiMaxkeyreq : ℕ := 0

/-- What the environment answers while an iterator is created. -/
structure IterEnv where
  /-- `malloc` gets the object. -/
  buffer : Bool := true
  /-- The limit of the session, if `ktli_config` finds it. -/
  maxkeyreq : Option ℕ
  /-- `malloc` gets the ranges. -/
  rreq : Bool := true
  rwin1 : Bool := true
  rwin2 : Bool := true
deriving DecidableEq

/-- `ki_create` of a range. -/
def kiCreateRange (buffer : Bool) : Option Krange := if buffer then some {} else none

/-- `ki_destroy` of a range, which reads the header in front of the pointer, null or not. -/
def kiDestroyRange : Option Krange → Option Unit
  | none => none
  | some _ => some ()

/-- **`i_iterinit`**, with its result. -/
def iIterinit (env : IterEnv) (ktd : ℕ) (kit : KiterObj) : Option (ℤ × KiterObj) :=
  match env.maxkeyreq with
  | none => some (-1, kit)
  | some maxkeyreq =>
    let kit := { kit with
      kiRreq := kiCreateRange env.rreq
      kiRwin1 := kiCreateRange env.rwin1
      kiRwin2 := kiCreateRange env.rwin2 }
    if kit.kiRreq = none ∨ kit.kiRwin1 = none ∨ kit.kiRwin2 = none then do
      kiDestroyRange kit.kiRreq
      kiDestroyRange kit.kiRwin1
      kiDestroyRange kit.kiRwin2
      some (-1, { kit with kiRreq := none, kiRwin1 := none, kiRwin2 := none })
    else some (0, { kit with kiKtd := ktd, kiCurkey := 0, kiSeenkeys := 0, kiMaxkeyreq := maxkeyreq })

/-- The iterator of the model of iterations, if it has its ranges. -/
def KiterObj.kiter (kit : KiterObj) : Option Kiter := do
  let kiRreq ← kit.kiRreq
  let kiRwin1 ← kit.kiRwin1
  some { kiRreq, kiRwin1, kiCurkey := kit.kiCurkey, kiSeenkeys := kit.kiSeenkeys,
         kiMaxkeyreq := kit.kiMaxkeyreq }

/-- **`ki_create`** of an iterator. -/
def kiCreateIter (env : IterEnv) (ktd : ℕ) : Option (Option KiterObj) :=
  if ¬ env.buffer then some none
  else
    -- the result of `i_iterinit` is not looked at
    (iIterinit env ktd {}).map fun r => some r.2

/-! ### When a start succeeds -/

/-- The count of active batches that the increment is made from: what the last race left. -/
def batsRead (ses : Ksession) (lost : List ℕ) : ℕ := (lost.take 1000).getLast?.getD ses.ksBats

/-- **The environment lets the server open the batch.** -/
structure StartEnv.Opens (env : StartEnv) (ses : Ksession) : Prop where
  config : env.issue.config = true
  id : env.races.bid.length ≠ 1000
  counted : env.races.bats.length ≠ 1000
  few : ¬ (0 < ses.ksL.klDevbatcnt ∧ ses.ksL.klDevbatcnt < batsRead ses env.races.bats)
  built : (env.issue.kio && env.issue.message.message && env.issue.sendmsg && env.issue.pdu &&
    env.issue.pack.isSome) = true
  sent : env.issue.send = true
  opened : ∃ c, env.outcome = .resp (.msg (.cmd c)) ∧ c.status = some .kOk

section Start
variable {races : Races} {e : IssueEnv} {ses : Ksession} {kb : Kb} {krc : KStatus} {lost : List ℕ}
  {n p : ℕ} {i : ℤ}

theorem bAtomIncLoop_rc_neg (lost : List ℕ) (n v : ℕ) :
    (bAtomIncLoop i lost n v).rc < 0 ↔ lost.length = n := by
  induction lost generalizing n v with
  | nil =>
    unfold bAtomIncLoop
    split_ifs with hn
    · simp [hn]
    · simp [Ne.symm hn]
  | cons q lost ih =>
    unfold bAtomIncLoop
    split_ifs with hn
    · simp [hn]
    · rw [ih, List.length_cons]
      omega

theorem bAtomIncLoop_v (lost : List ℕ) (n v : ℕ) :
    (bAtomIncLoop i lost n v).v = (lost.take n).getLast?.getD v := by
  induction lost generalizing n v with
  | nil => rw [List.take_nil]; rfl
  | cons q lost ih =>
    unfold bAtomIncLoop
    split_ifs with hn
    · rw [hn]
      rfl
    · obtain ⟨n, rfl⟩ := Nat.exists_eq_succ_of_ne_zero hn
      rw [Nat.succ_sub_one, ih, List.take_succ_cons]
      cases hrest : lost.take n with
      | nil => rfl
      | cons r rest => simp [List.getLast?_cons]

theorem bexKbIn_ne_ok (h : krc ≠ .kOk) (races : Races) (ses : Ksession) (kb : Kb)
    (msgType : Kmtype) : (bexKbIn races krc ses kb msgType).krc ≠ .kOk := by
  unfold bexKbIn
  dsimp only
  split_ifs
  · simp
  · exact h
  · exact h

theorem sendBatchIn_ok {msgType : Kmtype} : (sendBatchIn races e ses kb msgType).krc = .kOk ↔
    (e.kio && e.message.message && e.sendmsg && e.pdu && e.pack.isSome) = true ∧ e.send = true := by
  have hmessage : (createBatchMessage e.message (batchHdr ses kb msgType) kb.kbOps).isSome =
      e.message.message := by
    unfold createBatchMessage
    cases e.message.message <;> cases e.message.command <;> rfl
  have hbuilt : (e.kio && e.message.message && e.sendmsg && e.pdu && e.pack.isSome) = true ↔
      ∃ r, buildKio e (createBatchMessage e.message (batchHdr ses kb msgType) kb.kbOps)
        .kEinternal = .ok r := by
    rw [buildKio_ok_iff, hmessage]
    simp only [Bool.and_eq_true, and_assoc]
  rw [hbuilt]
  rcases hb : buildKio e (createBatchMessage e.message (batchHdr ses kb msgType) kb.kbOps)
    .kEinternal with krc | ⟨req, msglen⟩
  · have hexit := bexKbIn_ne_ok (buildKio_ne_ok (by decide) hb) races ses kb msgType
    simp [sendBatchIn, hb, hexit]
  · have hne : KStatus.kEinternal ≠ .kOk := by decide
    have hexit := bexKbIn_ne_ok hne races ses kb msgType
    cases hs : e.send <;> simp [sendBatchIn, hb, hs, hexit]

theorem startBatchIn_ok : (startBatchIn races e ses kb).krc = .kOk ↔
    races.bid.length ≠ 1000 ∧ races.bats.length ≠ 1000 ∧
      ¬ (0 < ses.ksL.klDevbatcnt ∧ ses.ksL.klDevbatcnt < batsRead ses races.bats) ∧
      (e.kio && e.message.message && e.sendmsg && e.pdu && e.pack.isSome) = true ∧
      e.send = true := by
  have hread : (races.bats.take 1000).getLast?.getD ses.ksBats = batsRead ses races.bats := rfl
  simp only [startBatchIn, bAtomInc, bAtomIncLoop_rc_neg, bAtomIncLoop_v, hread]
  by_cases hbid : races.bid.length = 1000
  · simp [hbid]
  by_cases hbats : races.bats.length = 1000
  · simp [hbid, hbats]
  rw [if_neg hbid, if_neg hbats]
  by_cases hlim : 0 < ses.ksL.klDevbatcnt ∧ ses.ksL.klDevbatcnt < batsRead ses races.bats
  · rw [if_pos hlim]
    refine iff_of_false (bexKbIn_ne_ok (by decide) _ _ _ _) ?_
    rintro ⟨-, -, hfew, -⟩
    exact hfew hlim
  · rw [if_neg hlim, sendBatchIn_ok]
    exact ⟨fun h => ⟨hbid, hbats, hlim, h⟩, fun h => h.2.2.2⟩

theorem completionStatus_ok {c : Completion Unit} :
    completionStatus c = .kOk ↔ ∃ m, c = .resp (.msg (.cmd m)) ∧ m.status = some .kOk := by
  constructor
  · intro h
    match c, h with
    | .resp (.msg (.cmd m)), h =>
      refine ⟨m, rfl, ?_⟩
      cases hm : m.status with
      | none => simp [completionStatus, extractStatus, extractCmdstatusCode, hm] at h
      | some krc =>
        simpa [completionStatus, extractStatus, extractCmdstatusCode, hm] using h
    | .resp (.msg .nocmd), h | .resp (.msg .badcmd), h => cases h
  · rintro ⟨m, rfl, hm⟩
    simp [completionStatus, extractStatus, extractCmdstatusCode, hm]

/-- The wait ends with the status of the outcome, unless that is `K_EAGAIN`. -/
theorem batchWait_eq (outcome : Completion Unit) (ses : Ksession) (n : ℕ) :
    batchWait outcome ses n =
      if completionStatus outcome = .kEagain then none else some (completionStatus outcome, ses) := by
  induction n with
  | zero => simp [batchWait, bBatchAioComplete]
  | succ n ih =>
    rw [← ih]
    rfl

/-- **When `b_startbatch` returns `K_OK`.** -/
theorem bStartbatch_ok (env : StartEnv) (ses : Ksession) (kb : Kb) :
    (∃ ses' kb', bStartbatch env ses kb = some (.kOk, ses', kb')) ↔ env.Opens ses := by
  have hissue : (bBatchAioStart env.races env.issue ses kb).krc = .kOk ↔
      env.issue.config = true ∧ (startBatchIn env.races env.issue ses kb).krc = .kOk := by
    cases hc : env.issue.config <;> simp [bBatchAioStart, hc, kiValidateKb]
  rw [startBatchIn_ok] at hissue
  by_cases hok : (bBatchAioStart env.races env.issue ses kb).krc = .kOk
  · obtain ⟨hconfig, hid, hcounted, hfew, hbuilt, hsent⟩ := hissue.mp hok
    constructor
    · rintro ⟨ses', kb', h⟩
      rw [bStartbatch, if_neg (not_not.mpr hok), batchWait_eq] at h
      refine ⟨hconfig, hid, hcounted, hfew, hbuilt, hsent, completionStatus_ok.mp ?_⟩
      split_ifs at h with hagain
      · cases h
      · exact congrArg Prod.fst (Option.some.inj h)
    · intro h
      have hst := completionStatus_ok.mpr h.opened
      refine ⟨(bBatchAioStart env.races env.issue ses kb).ses,
        (bBatchAioStart env.races env.issue ses kb).kb, ?_⟩
      rw [bStartbatch, if_neg (not_not.mpr hok), batchWait_eq, hst]
      rfl
  · refine iff_of_false ?_ fun h => hok (hissue.mpr ?_)
    · rintro ⟨ses', kb', h⟩
      rw [bStartbatch, if_pos hok] at h
      exact hok (congrArg Prod.fst (Option.some.inj h))
    · exact ⟨h.config, h.id, h.counted, h.few, h.built, h.sent⟩

end Start

/-! ### What is handed out -/

/-- The initialisation of a batch took place and succeeded. -/
def BatchStarted (env : StartEnv) (ses : Ksession) : Prop :=
  env.buffer = true ∧ ∃ ses' kb, bStartbatch env ses {} = some (.kOk, ses', kb)

/-- The initialisation of an iterator took place and succeeded. -/
def IterStarted (env : IterEnv) (ktd : ℕ) : Prop :=
  env.buffer = true ∧ ∃ kit, iIterinit env ktd {} = some (0, kit)

/-- **`ki_create` of a batch keeps its promise**: it returns, with an object if and only if the
initialisation succeeded. -/
def BatchCreated (env : StartEnv) (ses : Ksession) : Prop :=
  ∃ p ses', kiCreateBatch env ses = some (p, ses') ∧ (p.isSome = true ↔ BatchStarted env ses)

/-- `ki_create` of an iterator keeps its promise. -/
def IterCreated (env : IterEnv) (ktd : ℕ) : Prop :=
  ∃ p, kiCreateIter env ktd = some p ∧ (p.isSome = true ↔ IterStarted env ktd)

section Created
variable {ktd : ℕ}

theorem batchCreated_iff (env : StartEnv) (ses : Ksession) :
    BatchCreated env ses ↔ env.buffer = false ∨ env.Opens ses := by
  rw [← bStartbatch_ok env ses {}]
  cases hbuf : env.buffer with
  | false =>
    refine iff_of_true ⟨none, ses, ?_, ?_⟩ (.inl rfl)
    · simp [kiCreateBatch, hbuf]
    · simp [BatchStarted, hbuf]
  | true =>
    constructor
    · rintro ⟨p, ses', hp, hiff⟩
      right
      rw [kiCreateBatch, if_neg (by simp [hbuf])] at hp
      obtain ⟨r, -, hr⟩ := Option.map_eq_some_iff.mp hp
      obtain ⟨rfl, -⟩ := Prod.mk.inj hr
      exact (hiff.mp rfl).2
    · rintro (h | ⟨ses', kb, h⟩)
      · cases h
      · refine ⟨some kb, ses', ?_, iff_of_true rfl ⟨hbuf, ses', kb, h⟩⟩
        simp [kiCreateBatch, hbuf, h]

/-- **When `i_iterinit` returns 0.** -/
theorem iIterinit_ok (env : IterEnv) (ktd : ℕ) : (∃ kit, iIterinit env ktd {} = some (0, kit)) ↔
    env.maxkeyreq.isSome = true ∧ env.rreq = true ∧ env.rwin1 = true ∧ env.rwin2 = true := by
  unfold iIterinit
  cases env.maxkeyreq <;> cases env.rreq <;> cases env.rwin1 <;> cases env.rwin2 <;>
    simp [kiCreateRange, kiDestroyRange]

/-- It is then an iterator as `ki_start` takes it. -/
theorem iIterinit_kiter {env : IterEnv} {kit : KiterObj} (h : iIterinit env ktd {} = some (0, kit)) :
    ∃ maxkeyreq ∈ env.maxkeyreq, kit.kiter = some { kiMaxkeyreq := maxkeyreq } := by
  obtain ⟨hconfig, hrreq, hrwin1, hrwin2⟩ := (iIterinit_ok env ktd).mp ⟨kit, h⟩
  obtain ⟨maxkeyreq, hmax⟩ := Option.isSome_iff_exists.mp hconfig
  refine ⟨maxkeyreq, hmax, ?_⟩
  simp only [iIterinit, hmax, hrreq, hrwin1, hrwin2, kiCreateRange] at h
  cases h
  rfl

/-- A range that cannot be allocated is destroyed all the same. -/
theorem iIterinit_null {env : IterEnv} {kit : KiterObj} (hconfig : env.maxkeyreq.isSome = true)
    (hrange : ¬ (env.rreq = true ∧ env.rwin1 = true ∧ env.rwin2 = true)) :
    iIterinit env ktd kit = none := by
  obtain ⟨maxkeyreq, hmax⟩ := Option.isSome_iff_exists.mp hconfig
  unfold iIterinit
  rw [hmax]
  revert hrange
  cases env.rreq <;> cases env.rwin1 <;> cases env.rwin2 <;> simp [kiCreateRange, kiDestroyRange]

theorem iterCreated_iff (env : IterEnv) (ktd : ℕ) : IterCreated env ktd ↔ env.buffer = false ∨
    env.maxkeyreq.isSome = true ∧ env.rreq = true ∧ env.rwin1 = true ∧ env.rwin2 = true := by
  rw [← iIterinit_ok env ktd]
  cases hbuf : env.buffer with
  | false =>
    refine iff_of_true ⟨none, ?_, ?_⟩ (.inl rfl)
    · simp [kiCreateIter, hbuf]
    · simp [IterStarted, hbuf]
  | true =>
    constructor
    · rintro ⟨p, hp, hiff⟩
      right
      rw [kiCreateIter, if_neg (by simp [hbuf])] at hp
      obtain ⟨r, -, rfl⟩ := Option.map_eq_some_iff.mp hp
      exact (hiff.mp rfl).2
    · rintro (h | ⟨kit, h⟩)
      · cases h
      · refine ⟨some kit, ?_, iff_of_true rfl ⟨hbuf, kit, h⟩⟩
        simp [kiCreateIter, hbuf, h]

/-- The same of the model with addresses: only the allocation of the object itself decides if the
pointer is null, whatever the setup makes of the heap. -/
theorem kiCreate_null_iff {P : Ktb.Platform} {fuel t p : ℕ} {maxkeyreq : Option ℕ} {h h' : Ktb.Heap}
    (ht : isKtype t) (hc : Ktb.kiCreate P fuel maxkeyreq h ktd t = some (p, h')) :
    p = 0 ↔ P.malloc h (uint32 (Ktb.ktbSize + P.sizeof t)) = none := by
  rw [Ktb.kiCreate, if_neg (not_not.mpr ht)] at hc
  obtain ⟨⟨q, h1⟩, hq, hc⟩ := Option.bind_eq_some_iff.mp hc
  have hnull : q = 0 ↔ P.malloc h (uint32 (Ktb.ktbSize + P.sizeof t)) = none := by
    unfold Ktb.ktbCreate at hq
    cases hm : P.malloc h (uint32 (Ktb.ktbSize + P.sizeof t)) with
    | none =>
      simp only [hm] at hq
      cases hq
      exact iff_of_true rfl rfl
    | some r =>
      simp only [hm, Option.bind_eq_bind, Option.bind_eq_some_iff, Option.some.injEq,
        Prod.mk.injEq] at hq
      obtain ⟨_, _, _, _, _, _, _, _, _, _, rfl, _⟩ := hq
      simp [Ktb.ktbSize]
  rw [← hnull]
  dsimp only at hc
  split_ifs at hc with h0
  · cases hc
    simp [h0]
  · obtain ⟨_, -, hc⟩ := Option.bind_eq_some_iff.mp hc
    cases hc
    rfl
  · obtain ⟨_, -, hc⟩ := Option.bind_eq_some_iff.mp hc
    cases hc
    rfl
  · cases hc
    rfl

/-- **When `ki_create` keeps its promise.** -/
theorem created_iff (env : StartEnv) (ses : Ksession) (ienv : IterEnv) (ktd : ℕ) :
    (BatchCreated env ses ↔ env.buffer = false ∨ env.Opens ses) ∧
    (IterCreated ienv ktd ↔
      ienv.buffer = false ∨
      ienv.maxkeyreq.isSome = true ∧ ienv.rreq = true ∧ ienv.rwin1 = true ∧ ienv.rwin2 = true) :=
  ⟨batchCreated_iff env ses, iterCreated_iff ienv ktd⟩

/-- A session that has used up its batches. -/
def fullSession : Ksession := { ksL := smallLimits, ksBats := 2 }

/-- The server would open the batch. -/
def willing : StartEnv where
  issue := { pack := some 40 }
  outcome := .resp (.msg (.cmd { status := some .kOk, body := none }))
  arrives := by decide

/-- A batch is handed out though there are too many, and so is an iterator without ranges if there
is no session; an iterator whose ranges cannot be allocated is neither handed out nor refused. -/
theorem batch_not_opened :
    ((kiCreateBatch willing fullSession).map fun r => r.1.isSome) = some true ∧
      ¬ BatchStarted willing fullSession ∧
      kiCreateIter { maxkeyreq := none } 3 = some (some {}) ∧
      ¬ IterStarted { maxkeyreq := none } 3 ∧
      kiCreateIter { maxkeyreq := some 10, rwin2 := false } 3 = none ∧
      ¬ (∀ env ses, BatchCreated env ses) ∧ ¬ (∀ env ktd, IterCreated env ktd) := by
  have hbatch : ¬ BatchStarted willing fullSession := by
    rintro ⟨-, h⟩
    exact ((bStartbatch_ok willing fullSession {}).mp h).few (by decide)
  have hiter : ¬ IterStarted { maxkeyreq := none } 3 := by
    rintro ⟨-, h⟩
    have hconfig := ((iIterinit_ok _ 3).mp h).1
    cases hconfig
  have hret : ((kiCreateBatch willing fullSession).map fun r => r.1.isSome) = some true := by decide
  refine ⟨hret, hbatch, rfl, hiter, rfl, fun h => ?_, fun h => ?_⟩
  · obtain ⟨p, ses', hp, hiff⟩ := h willing fullSession
    rw [hp] at hret
    exact hbatch (hiff.mp (Option.some.inj hret))
  · obtain ⟨p, hp, hiff⟩ := h { maxkeyreq := none } 3
    cases hp
    exact hiter (hiff.mp rfl)

end Created

end Libkinetic.Kinetic
