import Libkinetic.Kinetic.Destroy
import Libkinetic.Kinetic.Keys

/-! # The waits of `ki_getrange` and `ki_getlog`

The two calls send their request and wait for the kio themselves. The result of the send is not
looked at, so that a request that was refused is waited for as well; and a kio that timed out or
failed leaves by the label that frees the receive vectors, which were never attached to it. An
access through a null pointer has no result. -/

namespace Libkinetic.Kinetic

/-! ### The wait -/

/-- What the receiver has attached to a kio: the length of the PDU's vector, the two lengths in the
PDU, the length of the message's vector, and the message, if that unpacks. -/
structure Recvmsg (β : Type) where
  pduLen : ℕ
  kpMsglen : ℕ
  kpVallen : ℕ
  msgLen : ℕ
  message : Option (RespMsg β)

/-- What becomes of a kio that was sent. -/
inductive Fate (β : Type)
  /-- `ktli_receive` fails for another reason than that the kio is not there yet. -/
  | lost
  | timedout
  | failed
  | received (r : Recvmsg β)

/-- The receive vectors of the kio. -/
def Fate.recvmsg {β : Type} : Fate β → Option (Recvmsg β)
  | .received r => some r
  | _ => none

/-- What `ktli_send` and the wait come to. -/
inductive WaitEnv (β : Type)
  /-- `ktli_send` fails; the kio is never found, and after so many attempts, if ever, `ktli_receive`
  fails for another reason. -/
  | refused (attempts : Option ℕ)
  /-- The kio is sent, and is there after so many attempts. -/
  | sent (attempts : ℕ) (fate : Fate β)

/-- What a call returns, what it leaves in the caller's structure, and how often it polled. -/
structure WaitDone (α : Type) where
  krc : KStatus
  caller : α
  polls : ℕ := 0

section Wait
variable {α β : Type}

/-- The checks of the PDU and the unpacking of the message. -/
def Recvmsg.decode (r : Recvmsg β) : Resp β :=
  if r.pduLen ≠ kpPlength then .badpdu
  else if uint32 (r.kpMsglen + r.kpVallen) ≠ r.msgLen then .badpdu
  else
    match r.message with
    | none => .badmsg
    | some m => .msg m

/-- `KI_FREE` of the receive vectors, through the pointer to them. -/
def freeRecvmsg (recvmsg : Option (Recvmsg β)) : Option Unit := recvmsg.map fun _ => ()

/-- What is made of what was received. -/
def ofRecvmsg (extract : RespMsg β → α → Option (KStatus × α)) (caller : α) (r : Recvmsg β) :
    Option (KStatus × α) :=
  match r.decode with
  | .msg m => extract m caller
  | _ => some (.kEinternal, caller)

/-- From the end of the wait to the return. -/
def afterWait (extract : RespMsg β → α → Option (KStatus × α)) (caller : α) (fate : Fate β) :
    Option (KStatus × α) :=
  match fate with
  | .lost => some (.kEinternal, caller)
  | .timedout => (freeRecvmsg fate.recvmsg).map fun _ => (.kEtimedout, caller)
  | .failed => (freeRecvmsg fate.recvmsg).map fun _ => (.kEnomsg, caller)
  | .received r =>
    (ofRecvmsg extract caller r).bind fun done => (freeRecvmsg fate.recvmsg).map fun _ => done

/-- The loop of the wait: a poll and a receive, and again while the kio is not there. -/
def waitLoop (extract : RespMsg β → α → Option (KStatus × α)) (caller : α) (fate : Fate β) :
    ℕ → ℕ → Option (WaitDone α)
  | 0, polls => (afterWait extract caller fate).map fun r => ⟨r.1, r.2, polls + 1⟩
  | n + 1, polls => waitLoop extract caller fate n (polls + 1)

/-- **From `ktli_send` on.** -/
def sendAndWait (extract : RespMsg β → α → Option (KStatus × α)) (caller : α) :
    WaitEnv β → Option (WaitDone α)
  -- the result of `ktli_send` is not looked at
  | .refused none => none
  | .refused (some n) => waitLoop extract caller .lost n 0
  | .sent n fate => waitLoop extract caller fate n 0

end Wait

/-! ### `ki_getrange` -/

/-- `extract_keyrange`; `alloc` says if the array for the keys is there. -/
def extractKeyrangeIn (alloc : Bool) (m : RespMsg (List Key)) (kr : Krange) : KStatus × Krange :=
  let (krc, kr') := extractKeyrange m kr
  if krc = .kOk ∧ ¬ alloc then (.kEnomem, { kr with krKeys := none }) else (krc, kr')

/-- What the environment answers during a call. -/
structure GetrangeEnv where
  issue : IssueEnv
  keys : RangekeyEnv := {}
  /-- The array for the keys of the response. -/
  alloc : Bool := true
  wait : WaitEnv (List Key)

/-- The request of a range that is valid; its PDU is on the stack. -/
def getrangeRequest (e : GetrangeEnv) (ses : Ksession) (kr : Krange) :
    Except KStatus (Option (Request RangeReq) × ℕ) :=
  buildKio { e.issue with pdu := true }
    (createRangekeyMessageIn e.keys { ses.ksCh with kchType := .kmtGetrange } kr) .kEinternal

/-- **`ki_getrange`** -/
def kiGetrangeWait (e : GetrangeEnv) (ses : Ksession) (kr : Krange) : Option (WaitDone Krange) :=
  if ¬ e.issue.config then some { krc := .kEbadsess, caller := kr }
  else if ¬ kiValidateRange kr ses.ksL then some { krc := .kEinval, caller := kr }
  else
    let kr := fixCount ses.ksL kr
    match getrangeRequest e ses kr with
    | .error krc => some { krc, caller := kr }
    | .ok _ => sendAndWait (fun m kr => some (extractKeyrangeIn e.alloc m kr)) kr e.wait

/-! ### `ki_getlog` -/

/-- Whether a call of the hook after an extraction that failed comes back: a pointer that was freed
or that nobody stored is not freed again. -/
def hookReturns (g : Kgetlog) : Bool :=
  match destroyProtobuf g with
  | [.destroyCommand .null] => true
  | _ => false

/-- `extract_getlog` and what the call makes of its result. -/
def getlogExtract (alloc : GetlogAlloc) (mem : GetlogMem) (m : RespMsg KprotoGetlog)
    (glog : Kgetlog) : Option (KStatus × Kgetlog) :=
  let (krc, glog2, _) := extractGetlog alloc mem m mem.glog2
  if krc = .kOk then some (krc, glog2)
  else if hookReturns glog2 then some (krc, glog) else none

/-- What the environment answers during a call. -/
structure GetlogEnv where
  issue : IssueEnv
  alloc : GetlogAlloc := {}
  mem : GetlogMem
  wait : WaitEnv KprotoGetlog

/-- **`ki_getlog`** -/
def kiGetlogWait (e : GetlogEnv) (ses : Ksession) (glog : Kgetlog) : Option (WaitDone Kgetlog) :=
  match getlogRequest e.issue ses glog with
  | .error krc => some { krc, caller := glog }
  | .ok _ => sendAndWait (getlogExtract e.alloc e.mem) glog e.wait

/-! ### What the two calls promise -/

/-- **A wait as it should be**; `sends` says that the call gets to `ktli_send`. A receive vector that
was never attached is not used: a call that uses one does not return. -/
structure Waited {α β : Type} (sends : Prop) (env : WaitEnv β) (done : Option (WaitDone α)) :
    Prop where
  returns : done.isSome = true
  ok : ∀ d ∈ done, d.krc = .kOk → sends ∧ ∃ n r c b, env = .sent n (.received r) ∧
    r.decode = .msg (.cmd c) ∧ c.status = some .kOk ∧ c.body = some b
  timedout : sends → ∀ n, env = .sent n .timedout → ∀ d ∈ done, d.krc = .kEtimedout
  failed : sends → ∀ n, env = .sent n .failed → ∀ d ∈ done, d.krc = .kEnomsg
  stops : sends → ∀ n, env = .refused n → ∀ d ∈ done, d.polls = 0

section Promise
variable {α β : Type} {extract : RespMsg β → α → Option (KStatus × α)} {caller : α}
  {env : WaitEnv β} {fate : Fate β} {sends : Prop}

/-- The loop counts its polls. -/
theorem waitLoop_eq (extract : RespMsg β → α → Option (KStatus × α)) (caller : α) (fate : Fate β)
    (n polls : ℕ) : waitLoop extract caller fate n polls =
      (afterWait extract caller fate).map fun r => ⟨r.1, r.2, polls + n + 1⟩ := by
  induction n generalizing polls with
  | zero => rfl
  | succ n ih =>
    rw [waitLoop, ih, Nat.add_assoc polls 1 n, Nat.add_comm 1 n]

/-- A call that does not get to `ktli_send`. -/
theorem waited_of_error {krc : KStatus} (hk : krc ≠ .kOk) (hsends : ¬ sends) :
    Waited sends env (some { krc, caller }) where
  returns := rfl
  ok d hd hok := by
    obtain rfl : { krc, caller } = d := by simpa using hd
    exact absurd hok hk
  timedout h := absurd h hsends
  failed h := absurd h hsends
  stops h := absurd h hsends

/-- A call that returns, after a wait that did not end with an error. -/
theorem waited_of_no_error {done : Option (WaitDone α)} (hret : done.isSome = true)
    (hok : ∀ d ∈ done, d.krc = .kOk → sends ∧ ∃ n r c b, env = .sent n (.received r) ∧
      r.decode = .msg (.cmd c) ∧ c.status = some .kOk ∧ c.body = some b)
    (htimedout : ∀ n, env ≠ .sent n .timedout) (hfailed : ∀ n, env ≠ .sent n .failed)
    (hrefused : ∀ n, env ≠ .refused n) : Waited sends env done where
  returns := hret
  ok := hok
  timedout _ n h := absurd h (htimedout n)
  failed _ n h := absurd h (hfailed n)
  stops _ n h := absurd h (hrefused n)

/-- The response is looked at, and something comes of it. -/
def Usable (extract : RespMsg β → α → Option (KStatus × α)) (caller : α) (env : WaitEnv β) : Prop :=
  (∃ n, env = .sent n .lost) ∨
    ∃ n r, env = .sent n (.received r) ∧ ∀ m, r.decode = .msg m → (extract m caller).isSome = true

theorem not_usable (hlost : ∀ n, env ≠ .sent n .lost) (hreceived : ∀ n r, env ≠ .sent n (.received r)) :
    ¬ Usable extract caller env := by
  rintro (⟨n, h⟩ | ⟨n, r, h, -⟩)
  · exact hlost n h
  · exact hreceived n r h

theorem afterWait_received (r : Recvmsg β) :
    afterWait extract caller (.received r) = ofRecvmsg extract caller r := by
  show (ofRecvmsg extract caller r).bind (fun done => some done) = _
  cases ofRecvmsg extract caller r <;> rfl

theorem ofRecvmsg_isSome_iff (r : Recvmsg β) : (ofRecvmsg extract caller r).isSome = true ↔
    ∀ m, r.decode = .msg m → (extract m caller).isSome = true := by
  unfold ofRecvmsg
  cases r.decode <;> simp

/-- The status `K_OK` comes from the extraction. -/
theorem ofRecvmsg_ok {r : Recvmsg β} {a : α} (h : ofRecvmsg extract caller r = some (.kOk, a)) :
    ∃ m, r.decode = .msg m ∧ extract m caller = some (.kOk, a) := by
  unfold ofRecvmsg at h
  cases hr : r.decode with
  | msg m =>
    rw [hr] at h
    exact ⟨m, rfl, h⟩
  | lost | timedout | failed | badpdu | badmsg =>
    rw [hr] at h
    cases h

/-- **From `ktli_send` on** the promise is kept if the kio was sent and received, or lost. -/
theorem waited_sendAndWait_iff (hsends : sends)
    (hextract : ∀ m a, extract m caller = some (.kOk, a) →
      ∃ c b, m = .cmd c ∧ c.status = some .kOk ∧ c.body = some b) :
    Waited sends env (sendAndWait extract caller env) ↔ Usable extract caller env := by
  match env with
  | .refused none =>
    refine iff_of_false (fun h => ?_) (not_usable nofun nofun)
    have hret := h.returns
    cases hret
  | .refused (some n) =>
    refine iff_of_false (fun h => ?_) (not_usable nofun nofun)
    -- it is polled at least once
    have hpolls := h.stops hsends (some n) rfl _ (waitLoop_eq extract caller .lost n 0)
    cases hpolls
  | .sent n .lost =>
    have hdone : sendAndWait extract caller (.sent n .lost) =
        some ⟨.kEinternal, caller, 0 + n + 1⟩ := waitLoop_eq extract caller .lost n 0
    rw [hdone]
    refine iff_of_true (waited_of_no_error rfl (fun d hd hok => ?_) nofun nofun nofun) (.inl ⟨n, rfl⟩)
    obtain rfl := Option.some.inj hd
    cases hok
  | .sent n .timedout | .sent n .failed =>
    -- the receive vectors of the kio are freed, and it has none
    refine iff_of_false (fun h => ?_) (not_usable nofun nofun)
    have hret := h.returns
    rw [sendAndWait, waitLoop_eq] at hret
    cases hret
  | .sent n (.received r) =>
    have hdone : sendAndWait extract caller (.sent n (.received r)) =
        (ofRecvmsg extract caller r).map fun r => ⟨r.1, r.2, 0 + n + 1⟩ := by
      rw [sendAndWait, waitLoop_eq, afterWait_received]
    have husable : Usable extract caller (.sent n (.received r)) ↔
        (ofRecvmsg extract caller r).isSome = true := by
      rw [ofRecvmsg_isSome_iff]
      constructor
      · rintro (⟨n', h⟩ | ⟨n', r', h, hr⟩)
        · cases h
        · cases h
          exact hr
      · intro hr
        exact .inr ⟨n, r, rfl, hr⟩
    rw [hdone, husable]
    constructor
    · intro h
      simpa using h.returns
    · intro h
      refine waited_of_no_error (by simpa using h) (fun d hd hok => ?_) nofun nofun nofun
      obtain ⟨⟨krc, a⟩, hr, rfl⟩ := Option.map_eq_some_iff.mp hd
      obtain rfl : krc = .kOk := hok
      obtain ⟨m, hm, hx⟩ := ofRecvmsg_ok hr
      obtain ⟨c, b, rfl, hst, hbody⟩ := hextract m a hx
      exact ⟨hsends, n, r, c, b, rfl, hm, hst, hbody⟩

end Promise

/-! ### Getting to the send -/

/-- The range is valid, and its request can be built. -/
structure GetrangeEnv.Sends (e : GetrangeEnv) (ses : Ksession) (kr : Krange) : Prop where
  config : e.issue.config = true
  valid : kiValidateRange kr ses.ksL = true
  kio : e.issue.kio = true
  message : e.keys.message = true
  sendmsg : e.issue.sendmsg = true
  packed : e.issue.pack.isSome = true

/-- The structure is valid, and its request can be built. -/
structure GetlogEnv.Sends (e : GetlogEnv) (glog : Kgetlog) : Prop where
  config : e.issue.config = true
  valid : kiValidateGlog glog = true
  kio : e.issue.kio = true
  command : e.issue.message.command = true
  message : e.issue.message.message = true
  sendmsg : e.issue.sendmsg = true
  packed : e.issue.pack.isSome = true

section Calls
variable {ses : Ksession} {kr : Krange} {glog : Kgetlog}

/-- A message of a range is created if there is memory for it. -/
theorem createRangekeyMessageIn_isSome_iff (e : RangekeyEnv) (hdr : Kcmdhdr) (kr : Krange) :
    (createRangekeyMessageIn e hdr kr).isSome = true ↔ e.message = true := by
  unfold createRangekeyMessageIn
  cases e.message <;> cases e.command <;> simp

theorem getrangeRequest_ok_iff {e : GetrangeEnv} :
    (∃ r, getrangeRequest e ses kr = .ok r) ↔ e.issue.kio = true ∧ e.keys.message = true ∧
      e.issue.sendmsg = true ∧ e.issue.pack.isSome = true := by
  unfold getrangeRequest
  rw [buildKio_ok_iff, createRangekeyMessageIn_isSome_iff]
  simp

theorem kiGetrangeWait_sends {e : GetrangeEnv} (h : e.Sends ses kr) : kiGetrangeWait e ses kr =
    sendAndWait (fun m kr => some (extractKeyrangeIn e.alloc m kr)) (fixCount ses.ksL kr)
      e.wait := by
  obtain ⟨r, hr⟩ := (@getrangeRequest_ok_iff ses (fixCount ses.ksL kr) e).mpr
    ⟨h.kio, h.message, h.sendmsg, h.packed⟩
  unfold kiGetrangeWait
  rw [if_neg (not_not.mpr h.config), if_neg (not_not.mpr h.valid)]
  dsimp only
  rw [hr]

theorem kiGetrangeWait_stops {e : GetrangeEnv} (h : ¬ e.Sends ses kr) :
    ∃ krc kr', krc ≠ .kOk ∧ kiGetrangeWait e ses kr = some { krc, caller := kr' } := by
  unfold kiGetrangeWait
  by_cases hconfig : e.issue.config = true
  · by_cases hvalid : kiValidateRange kr ses.ksL = true
    · rw [if_neg (not_not.mpr hconfig), if_neg (not_not.mpr hvalid)]
      dsimp only
      cases hb : getrangeRequest e ses (fixCount ses.ksL kr) with
      | error krc => exact ⟨krc, _, buildKio_ne_ok (by decide) hb, rfl⟩
      | ok r =>
        obtain ⟨hkio, hmessage, hsendmsg, hpacked⟩ := getrangeRequest_ok_iff.mp ⟨r, hb⟩
        exact absurd ⟨hconfig, hvalid, hkio, hmessage, hsendmsg, hpacked⟩ h
    · exact ⟨.kEinval, kr, by decide, by simp [hconfig, hvalid]⟩
  · exact ⟨.kEbadsess, kr, by decide, by simp [hconfig]⟩

theorem createGetlogMessage_isSome_iff (m : MsgEnv) (hdr : Kcmdhdr) (glog : Kgetlog) :
    (createGetlogMessage m hdr glog).isSome = true ↔ m.command = true ∧ m.message = true := by
  unfold createGetlogMessage createMessage
  cases m.command <;> cases m.message <;> simp

theorem getlogRequest_ok_iff {e : GetlogEnv} :
    (∃ r, getlogRequest e.issue ses glog = .ok r) ↔ e.Sends glog := by
  unfold getlogRequest
  constructor
  · rintro ⟨r, hr⟩
    split_ifs at hr with hconfig hvalid
    obtain ⟨hkio, hcreated, hsendmsg, -, hpacked⟩ := buildKio_ok_iff.mp ⟨r, hr⟩
    obtain ⟨hcommand, hmessage⟩ := (createGetlogMessage_isSome_iff _ _ _).mp hcreated
    exact ⟨hconfig, hvalid, hkio, hcommand, hmessage, hsendmsg, hpacked⟩
  · intro h
    rw [if_neg (not_not.mpr h.config), if_neg (not_not.mpr h.valid)]
    refine buildKio_ok_iff.mpr ⟨h.kio, ?_, h.sendmsg, rfl, h.packed⟩
    exact (createGetlogMessage_isSome_iff _ _ _).mpr ⟨h.command, h.message⟩

theorem getlogRequest_ne_ok {e : IssueEnv} {krc : KStatus}
    (h : getlogRequest e ses glog = .error krc) : krc ≠ .kOk := by
  unfold getlogRequest at h
  split_ifs at h with hconfig hvalid
  · exact buildKio_ne_ok (by decide) h
  · cases h
    decide
  · cases h
    decide

theorem kiGetlogWait_sends {e : GetlogEnv} (h : e.Sends glog) :
    kiGetlogWait e ses glog = sendAndWait (getlogExtract e.alloc e.mem) glog e.wait := by
  obtain ⟨r, hr⟩ := (@getlogRequest_ok_iff ses glog e).mpr h
  unfold kiGetlogWait
  rw [hr]

theorem kiGetlogWait_stops {e : GetlogEnv} (h : ¬ e.Sends glog) :
    ∃ krc, krc ≠ .kOk ∧ kiGetlogWait e ses glog = some { krc, caller := glog } := by
  unfold kiGetlogWait
  cases hr : getlogRequest e.issue ses glog with
  | error krc => exact ⟨krc, getlogRequest_ne_ok hr, rfl⟩
  | ok r => exact absurd (getlogRequest_ok_iff.mp ⟨r, hr⟩) h

end Calls

/-! ### What the extractions make of a message -/

section Extraction
variable {alloc : GetlogAlloc} {mem : GetlogMem} {m : RespMsg KprotoGetlog} {glog glog' : Kgetlog}

/-- A range that is extracted was in a response with the status `K_OK`. -/
theorem extractKeyrangeIn_ok {alloc : Bool} {m : RespMsg (List Key)} {kr kr' : Krange}
    (h : extractKeyrangeIn alloc m kr = (.kOk, kr')) :
    ∃ c b, m = .cmd c ∧ c.status = some .kOk ∧ c.body = some b := by
  unfold extractKeyrangeIn at h
  have hresult : rangeResult (.msg m) kr = extractKeyrange m kr := rfl
  rcases hx : extractKeyrange m kr with ⟨krc, kr₁⟩
  simp only [hx] at h
  split_ifs at h with hno
  · cases h
  · obtain ⟨rfl, -⟩ := Prod.mk.inj h
    obtain ⟨keys, hlists, -⟩ := rangeResult_ok (hresult.trans hx)
    exact ⟨_, keys, Resp.msg.inj hlists, rfl, rfl⟩

/-- **Something comes of a log**: it is extracted, or there is no command and what happens to be
where the hook belongs can be called. -/
def ExtractReturns (alloc : GetlogAlloc) (mem : GetlogMem) (m : RespMsg KprotoGetlog) : Prop :=
  Extracts alloc m ∨ (∀ c, m ≠ .cmd c) ∧ hookReturns mem.glog2 = true

/-- A command that was destroyed is not destroyed again. -/
theorem not_hookReturns {c : RespCmd KprotoGetlog} {g : Kgetlog}
    (h : g.owner = (.ref c, .ref .destroyProtobufGetlog)) : ¬ hookReturns g = true := by
  have hcmd : g.kglProtobuf = .ref c := congrArg Prod.fst h
  rw [hookReturns, destroyProtobuf_owned h, destroyProtobufGetlog, hcmd]
  simp

theorem getlogExtract_nocmd (hm : ∀ c, m ≠ .cmd c) : getlogExtract alloc mem m glog =
    if hookReturns mem.glog2 then some (.kEinternal, glog) else none := by
  cases m with
  | nocmd | badcmd => rfl
  | cmd c => exact absurd rfl (hm c)

theorem getlogExtract_cmd (c : RespCmd KprotoGetlog) :
    Extracts alloc (.cmd c) ∧ (∃ g', getlogExtract alloc mem (.cmd c) glog = some (.kOk, g')) ∨
      ¬ Extracts alloc (.cmd c) ∧ getlogExtract alloc mem (.cmd c) glog = none := by
  unfold getlogExtract
  obtain ⟨krc, g', howner, ⟨hext, hk, hx⟩ | ⟨hext, hk, hx⟩⟩ :=
    extractGetlog_cases alloc mem c mem.glog2
  · exact .inl ⟨hext, g', by simp only [hx, hk, if_true]⟩
  · exact .inr ⟨hext, by simp only [hx, if_neg hk, if_neg (not_hookReturns howner)]⟩

theorem getlogExtract_isSome_iff :
    (getlogExtract alloc mem m glog).isSome = true ↔ ExtractReturns alloc mem m := by
  by_cases hm : ∀ c, m ≠ .cmd c
  · have hext : ¬ Extracts alloc m := fun ⟨c, _, hc, _⟩ => hm c hc
    rw [getlogExtract_nocmd hm]
    simp [ExtractReturns, hext, hm]
  · obtain ⟨c, rfl⟩ : ∃ c, m = .cmd c := by simpa using hm
    have hcmd : ExtractReturns alloc mem (.cmd c) ↔ Extracts alloc (.cmd c) := by simp [ExtractReturns]
    rw [hcmd]
    obtain ⟨hext, g', hx⟩ | ⟨hext, hx⟩ := @getlogExtract_cmd alloc mem glog c
    · simp [hx, hext]
    · simp [hx, hext]

theorem getlogExtract_ok (h : getlogExtract alloc mem m glog = some (.kOk, glog')) :
    ∃ c b, m = .cmd c ∧ c.status = some .kOk ∧ c.body = some b := by
  by_cases hm : ∀ c, m ≠ .cmd c
  · rw [getlogExtract_nocmd hm] at h
    split_ifs at h
    cases h
  · obtain ⟨c, rfl⟩ : ∃ c, m = .cmd c := by simpa using hm
    obtain ⟨⟨c', b, hc, hst, hbody, -⟩, -⟩ | ⟨-, hx⟩ :=
      @getlogExtract_cmd alloc mem glog c
    · exact ⟨c', b, hc, hst, hbody⟩
    · rw [hx] at h
      cases h

end Extraction

/-! ### The outcome of the two calls -/

section Outcome
variable {α β : Type} {extract : RespMsg β → α → Option (KStatus × α)} {caller : α}
  {env : WaitEnv β} {d : WaitDone α} {ses : Ksession} {kr : Krange} {glog : Kgetlog}

/-- What the two calls see of the kio. -/
def WaitEnv.resp : WaitEnv β → Resp β
  | .refused _ => .lost
  | .sent _ .lost => .lost
  | .sent _ .timedout => .timedout
  | .sent _ .failed => .failed
  | .sent _ (.received r) => r.decode

theorem Recvmsg.decode_cases (r : Recvmsg β) :
    r.decode = .badpdu ∨ r.decode = .badmsg ∨ ∃ m, r.decode = .msg m := by
  unfold Recvmsg.decode
  split_ifs
  · exact .inl rfl
  · exact .inl rfl
  · cases r.message with
    | none => exact .inr (.inl rfl)
    | some m => exact .inr (.inr ⟨m, rfl⟩)

/-- A call that returns after `ktli_send` found no message, or what it extracted. -/
theorem sendAndWait_some (h : sendAndWait extract caller env = some d) :
    (env.resp = .lost ∨ env.resp = .badpdu ∨ env.resp = .badmsg) ∧
        (d.krc, d.caller) = (.kEinternal, caller) ∨
      ∃ m, env.resp = .msg m ∧ extract m caller = some (d.krc, d.caller) := by
  match env with
  | .refused none => cases h
  | .refused (some n) | .sent n .lost =>
    rw [sendAndWait, waitLoop_eq] at h
    cases h
    exact .inl ⟨.inl rfl, rfl⟩
  | .sent n .timedout | .sent n .failed =>
    rw [sendAndWait, waitLoop_eq] at h
    cases h
  | .sent n (.received r) =>
    rw [sendAndWait, waitLoop_eq, afterWait_received] at h
    obtain ⟨⟨krc, a⟩, hr, rfl⟩ := Option.map_eq_some_iff.mp h
    have hresp : (WaitEnv.sent n (.received r)).resp = r.decode := rfl
    rw [hresp]
    unfold ofRecvmsg at hr
    obtain hdec | hdec | ⟨m, hdec⟩ := r.decode_cases
    · rw [hdec] at hr
      exact .inl ⟨.inr (.inl hdec), (Option.some.inj hr).symm⟩
    · rw [hdec] at hr
      exact .inl ⟨.inr (.inr hdec), (Option.some.inj hr).symm⟩
    · rw [hdec] at hr
      exact .inr ⟨m, hdec, hr⟩

/-- **A getrange that returns** gives what the model of the call without its wait gives. -/
theorem kiGetrangeWait_kiGetrange {e : GetrangeEnv} {d : WaitDone Krange} (hs : e.Sends ses kr)
    (halloc : e.alloc = true) (h : kiGetrangeWait e ses kr = some d) :
    kiGetrange (fun _ => e.wait.resp) ses.ksL kr = (d.krc, d.caller) := by
  rw [kiGetrangeWait_sends hs] at h
  unfold kiGetrange
  rw [if_neg (not_not.mpr hs.valid)]
  obtain ⟨hresp, hd⟩ | ⟨m, hresp, hd⟩ := sendAndWait_some h
  · rw [hd]
    rcases hresp with hresp | hresp | hresp <;> rw [hresp] <;> rfl
  · rw [hresp, ← Option.some.inj hd, extractKeyrangeIn, halloc]
    simp [rangeResult]

/-- **A getlog that returns**, likewise. -/
theorem kiGetlogWait_kiGetlog {e : GetlogEnv} {d : WaitDone Kgetlog}
    (h : kiGetlogWait e ses glog = some d) :
    (kiGetlog e.issue ses glog e.alloc e.mem fun _ => e.wait.resp).krc = d.krc ∧
      (kiGetlog e.issue ses glog e.alloc e.mem fun _ => e.wait.resp).glog = d.caller := by
  unfold kiGetlogWait at h
  unfold kiGetlog
  cases hr : getlogRequest e.issue ses glog with
  | error krc =>
    rw [hr] at h
    cases h
    exact ⟨rfl, rfl⟩
  | ok r =>
    simp only [hr] at h ⊢
    obtain ⟨hresp, hd⟩ | ⟨m, hresp, hd⟩ := sendAndWait_some h
    · obtain ⟨hkrc, hcaller⟩ := Prod.mk.inj hd
      rw [hkrc, hcaller]
      rcases hresp with hresp | hresp | hresp <;> rw [hresp] <;> exact ⟨rfl, rfl⟩
    · rw [hresp]
      unfold getlogExtract at hd
      unfold getlogResult
      dsimp only at hd ⊢
      split_ifs at hd ⊢ <;> exact Prod.mk.inj (Option.some.inj hd)

/-- **When a getrange waits as it should.** -/
theorem getrange_waited_iff (e : GetrangeEnv) (ses : Ksession) (kr : Krange) :
    Waited (e.Sends ses kr) e.wait (kiGetrangeWait e ses kr) ↔ (e.Sends ses kr →
      (∃ n, e.wait = .sent n .lost) ∨ ∃ n r, e.wait = .sent n (.received r)) := by
  by_cases hs : e.Sends ses kr
  · have husable : Usable (fun m kr => some (extractKeyrangeIn e.alloc m kr))
        (fixCount ses.ksL kr) e.wait ↔
          (∃ n, e.wait = .sent n .lost) ∨ ∃ n r, e.wait = .sent n (.received r) := by
      simp [Usable]
    rw [kiGetrangeWait_sends hs, waited_sendAndWait_iff hs, husable, forall_prop_of_true hs]
    intro m kr' hx
    exact extractKeyrangeIn_ok (Option.some.inj hx)
  · obtain ⟨krc, kr', hk, hdone⟩ := kiGetrangeWait_stops hs
    rw [hdone]
    exact iff_of_true (waited_of_error hk hs) fun h => absurd h hs

/-- **When a getlog waits as it should.** -/
theorem getlog_waited_iff (e : GetlogEnv) (ses : Ksession) (glog : Kgetlog) :
    Waited (e.Sends glog) e.wait (kiGetlogWait e ses glog) ↔ (e.Sends glog →
      (∃ n, e.wait = .sent n .lost) ∨ ∃ n r, e.wait = .sent n (.received r) ∧
        ∀ m, r.decode = .msg m → ExtractReturns e.alloc e.mem m) := by
  by_cases hs : e.Sends glog
  · have husable : Usable (getlogExtract e.alloc e.mem) glog e.wait ↔
        (∃ n, e.wait = .sent n .lost) ∨ ∃ n r, e.wait = .sent n (.received r) ∧
          ∀ m, r.decode = .msg m → ExtractReturns e.alloc e.mem m := by
      simp only [Usable, getlogExtract_isSome_iff]
    rw [kiGetlogWait_sends hs, waited_sendAndWait_iff hs, husable, forall_prop_of_true hs]
    intro m glog' hx
    exact getlogExtract_ok hx
  · obtain ⟨krc, hk, hdone⟩ := @kiGetlogWait_stops ses glog e hs
    rw [hdone]
    exact iff_of_true (waited_of_error hk hs) fun h => absurd h hs

/-- **When the two calls wait as they should**: they do not get to `ktli_send`, or the kio is sent,
and is lost or received; a log must be of use as well. -/
theorem waits_kept_iff (e : GetrangeEnv) (g : GetlogEnv) (ses : Ksession) (kr : Krange)
    (glog : Kgetlog) :
    (Waited (e.Sends ses kr) e.wait (kiGetrangeWait e ses kr) ↔ (e.Sends ses kr →
      (∃ n, e.wait = .sent n .lost) ∨ ∃ n r, e.wait = .sent n (.received r))) ∧
    (Waited (g.Sends glog) g.wait (kiGetlogWait g ses glog) ↔ (g.Sends glog →
      (∃ n, g.wait = .sent n .lost) ∨ ∃ n r, g.wait = .sent n (.received r) ∧
        ∀ m, r.decode = .msg m → ExtractReturns g.alloc g.mem m)) :=
  ⟨getrange_waited_iff e ses kr, getlog_waited_iff g ses glog⟩

/-- A call that gets to `ktli_send`, with this wait after it. -/
def rangeEnv (wait : WaitEnv (List Key)) : GetrangeEnv := { issue := { pack := some 40 }, wait }

def logEnv (wait : WaitEnv KprotoGetlog) : GetlogEnv :=
  { issue := { pack := some 40 }, mem := zeroMem, wait }

/-- The response of a server that refuses the log. -/
def refusedLog : Recvmsg KprotoGetlog :=
  { pduLen := 9, kpMsglen := 30, kpVallen := 0, msgLen := 30, message := some refusing }

theorem rangeEnv_sends (wait : WaitEnv (List Key)) : (rangeEnv wait).Sends logSes boundedRange :=
  ⟨rfl, by decide, rfl, rfl, rfl, rfl⟩

/-- A kio that timed out and one that failed leave by a null pointer; a request that was not sent is
waited for, without end if the kio just is not there; and a log that is refused is destroyed twice. -/
theorem waits_broken :
    kiGetrangeWait (rangeEnv (.sent 0 .timedout)) logSes boundedRange = none ∧
      kiGetrangeWait (rangeEnv (.sent 0 .failed)) logSes boundedRange = none ∧
      kiGetrangeWait (rangeEnv (.refused none)) logSes boundedRange = none ∧
      (kiGetrangeWait (rangeEnv (.refused (some 0))) logSes boundedRange).map (·.polls) = some 1 ∧
      kiGetlogWait (logEnv (.sent 0 .timedout)) logSes logRequest = none ∧
      (kiGetlogWait (logEnv (.sent 0 (.received refusedLog))) logSes logRequest).isSome = false ∧
      ¬ Waited ((rangeEnv (.sent 0 .timedout)).Sends logSes boundedRange)
        (rangeEnv (.sent 0 .timedout)).wait
        (kiGetrangeWait (rangeEnv (.sent 0 .timedout)) logSes boundedRange) ∧
      ¬ Waited ((rangeEnv (.refused (some 0))).Sends logSes boundedRange)
        (rangeEnv (.refused (some 0))).wait
        (kiGetrangeWait (rangeEnv (.refused (some 0))) logSes boundedRange) := by
  refine ⟨rfl, rfl, rfl, rfl, rfl, by decide, fun h => ?_, fun h => ?_⟩
  · have hret := h.returns
    cases hret
  · have hpolls := h.stops (rangeEnv_sends _) (some 0) rfl _ rfl
    cases hpolls

end Outcome

end Libkinetic.Kinetic
