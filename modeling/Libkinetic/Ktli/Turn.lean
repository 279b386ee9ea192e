import Libkinetic.Ktli.Answers

/-! # The inner loop of the sender

What the inner loop of the sender comes to when nothing interferes, as an explicit list of actions:
each turn hands one request to the driver, and the loop empties sendq, whatever the driver's send
returns (`sender_empties`). -/

namespace Libkinetic.Ktli

open Libkinetic.Base.CursorList Libkinetic.Base.Runs

/-- A list of actions that leads from one state to another, all of them as they should be. -/
abbrev Executes (lib : ListLib KioId) (s : System) (as : List Act) (s' : System) : Prop :=
  Leads (step lib) (Sane lib) s as s'

theorem Kept.executes {lib : ListLib KioId} {s s' : System} {as : List Act} (hs : Kept s)
    (h : Executes lib s as s') : Kept s' := by
  have hreach : Reach (step lib) (Sane lib) (· = s) s' := h.reach (.start rfl)
  refine hreach.invariant (fun _ h => h ▸ hs) fun _ _ _ hs hok hstep => ?_
  exact kept_step hs hok.popOk hstep

/-! ### One turn of the sender -/

/-- The request waits for its response when the driver's send has returned `rc`. -/
def Session.waits (s : Session) (rc : ℤ) (k : KioId) : Bool := decide (0 ≤ rc) && !s.reqonly k

/-- The session after a kio was taken off sendq and handed to the driver. -/
def senderTurn (s : Session) (k : KioId) (rc err : ℤ) : Session :=
  (senderTimeout (senderQueue (senderSequence s k) k) k).setKio k (Kio.mark rc err)

section Turn
variable {s : Session} {k j : KioId} {q : QId} {rc err : ℤ}

theorem reqonly_senderSequence : (senderSequence s k).reqonly j = s.reqonly j := by
  show (s.setKio k fun x => { x with seq := s.sequence }).reqonly j = _
  exact reqonly_setKio s k j _ fun _ => rfl

theorem items_senderTurn : ((senderTurn s k rc err).queue q).items =
    if q = .recvq ∧ s.reqonly k = false then (s.queue q).items ++ [(s.nextNode, k)]
    else (s.queue q).items := by
  show ((senderQueue (senderSequence s k) k).queue q).items = _
  unfold senderQueue
  rw [reqonly_senderSequence]
  by_cases hr : s.reqonly k = true
  · rw [if_pos hr, if_neg (by simp [hr])]
    rfl
  · rw [if_neg hr, items_link]
    have hr' : s.reqonly k = false := by simpa using hr
    split_ifs with h1 h2 h2
    · obtain rfl := h1
      rfl
    · exact absurd ⟨h1, hr'⟩ h2
    · exact absurd h2.1 h1
    · rfl

/-- What the turn leaves on its kio. -/
theorem kio_senderTurn_self : (senderTurn s k rc err).kio k =
    Kio.mark rc err { s.kio k with
      seq := s.sequence
      qbp := if s.reqonly k then (s.kio k).qbp else some s.nextNode
      timeout := deadline s.now } := by
  unfold senderTurn senderTimeout senderQueue
  rw [kio_setKio_self, kio_setKio_self, reqonly_senderSequence]
  congr 1
  have hself : (senderSequence s k).kio k = { s.kio k with seq := s.sequence } :=
    kio_setKio_self s k fun x => { x with seq := s.sequence }
  split_ifs
  · rw [hself]
    rfl
  · rw [kio_link, if_pos rfl, hself, link_eq]
    rfl

theorem kio_senderTurn_of_ne (h : j ≠ k) : (senderTurn s k rc err).kio j = s.kio j := by
  have hseq : (senderSequence s k).kio j = s.kio j := by
    show (s.setKio k fun x => { x with seq := s.sequence }).kio j = _
    rw [kio_setKio, if_neg h]
  unfold senderTurn senderTimeout senderQueue
  rw [kio_setKio, if_neg h, kio_setKio, if_neg h]
  split_ifs
  · exact hseq
  · rw [kio_link, if_neg h, hseq]

theorem reqonly_senderTurn : (senderTurn s k rc err).reqonly j = s.reqonly j := by
  unfold Session.reqonly
  by_cases h : j = k
  · subst h
    rw [kio_senderTurn_self]
    rfl
  · rw [kio_senderTurn_of_ne h]

end Turn

/-- What the sections of an exchange that touch queues and kios leave alone. -/
structure Aside (s s' : Session) : Prop where
  state : s'.state = s.state
  exit : s'.exit = s.exit
  now : s'.now = s.now
  issued : s'.issued = s.issued
  returned : s'.returned = s.returned

theorem Aside.refl (s : Session) : Aside s s := ⟨rfl, rfl, rfl, rfl, rfl⟩

theorem Aside.trans {s s1 s2 : Session} (h : Aside s s1) (h' : Aside s1 s2) : Aside s s2 :=
  ⟨h'.state.trans h.state, h'.exit.trans h.exit, h'.now.trans h.now, h'.issued.trans h.issued,
    h'.returned.trans h.returned⟩

theorem aside_link (s : Session) (q : QId) (k : KioId) : Aside s (s.link q k) := by
  rw [link_eq]
  exact ⟨rfl, rfl, rfl, rfl, rfl⟩

/-- The states in which kios of a list were taken off sendq and handed to the driver, one after the
other; `rc` and `err` are what the driver's send returned for each and left in `errno`. -/
structure HandedOver (rc err : KioId → ℤ) (ks : List KioId) (s s' : System) : Prop where
  sendq : (s.queue .sendq).data = ks ++ (s'.queue .sendq).data
  recvq : (s'.queue .recvq).data =
    (s.queue .recvq).data ++ ks.filter fun k => s.waits (rc k) k
  compq : (s'.queue .compq).data =
    (s.queue .compq).data ++ ks.filter fun k => !s.waits (rc k) k
  kio : ∀ (i : ℕ) (k : KioId), ks[i]? = some k → ∃ qbp, s'.kio k = { s.kio k with
    seq := s.sequence + i
    state := if s.waits (rc k) k then (Kio.mark (rc k) (err k) (s.kio k)).state
      else if 0 ≤ rc k then .received else .failed
    sendmsg := (Kio.mark (rc k) (err k) (s.kio k)).sendmsg
    timeout := deadline s.now
    qbp }
  others : ∀ j ∉ ks, s'.kio j = s.kio j
  sequence : s'.sequence = s.sequence + ks.length
  aside : Aside s.toSession s'.toSession
  threads : s'.sender = s.sender ∧ s'.receiver = s.receiver ∧ s'.calls = s.calls

/-- The steps of the sender for one kio. -/
def turnActs (s : Session) (rc err : KioId → ℤ) (k : KioId) : List Act :=
  List.replicate (if s.waits (rc k) k then 8 else 9) (.sender (rc k) (err k))

section Turn
variable {lib : ListLib KioId} {s s' : System} {k : KioId} {rc err : ℤ} {pc : SenderPc}

/-- A step of the sender while the receiver holds no mutex. -/
theorem step_sender (hfree : ∀ q, s.receiver.holds q = false) {r : Session × SenderPc}
    (h : senderStep lib s.toSession rc err s.sender = some r) :
    step lib s (.sender rc err) = some { s with toSession := r.1, sender := r.2 } := by
  have hmutex : s.mutexFree (s.sender.mutex s.toSession) = true := by
    unfold System.mutexFree
    cases s.sender.mutex s.toSession with
    | none => rfl
    | some q => simp [hfree q]
  simp only [step, if_pos hmutex, h, Option.map_some]

/-- The condition says nothing about the sender but where it pops a kio off. -/
theorem sane_sender (h : s.sender.popping = none) : Sane lib s (.sender rc err) := by
  cases hpc : s.sender with
  | marked k rc => rw [hpc] at h; cases h
  | _ => simp [Sane, hpc]

theorem executes_sender {as : List Act} (s1 : Session) (pc1 : SenderPc)
    (hfree : ∀ q, s.receiver.holds q = false) (hpop : s.sender.popping = none)
    (h : senderStep lib s.toSession rc err s.sender = some (s1, pc1))
    (h' : Executes lib { s with toSession := s1, sender := pc1 } as s') :
    Executes lib s (.sender rc err :: as) s' :=
  .cons _ (sane_sender hpop) (step_sender hfree h) h'

/-- From the take to the test of the result. -/
theorem executes_turn (as : List Act) (hfree : ∀ q, s.receiver.holds q = false)
    (hloop : s.sender = .loop) {old : List (ℕ × KioId)} {n : ℕ}
    (hitems : (s.queue .sendq).items = (n, k) :: old) {s1 : Session}
    (h1 : senderTake lib s.toSession = some (k, s1))
    (h' : Executes lib
      { s with toSession := senderTurn s1 k rc err, sender := .marked k rc } as s') :
    Executes lib s (List.replicate 7 (.sender rc err) ++ as) s' := by
  have hsize : (s.queue .sendq).size ≠ 0 := by
    unfold CList.size
    rw [hitems]
    simp
  have hstep1 : senderStep lib s.toSession rc err s.sender = some (s.toSession, .take) := by
    rw [hloop]
    simp [senderStep, hsize]
  refine executes_sender _ _ hfree (by rw [hloop]; rfl) hstep1 ?_
  refine executes_sender s1 (.taken k) hfree rfl ?_ ?_
  · show (senderTake lib s.toSession).map _ = _
    rw [h1]
    rfl
  refine executes_sender _ (.sequenced k) hfree rfl rfl ?_
  refine executes_sender _ (.queued k) hfree rfl rfl ?_
  refine executes_sender _ (.timed k) hfree rfl rfl ?_
  refine executes_sender _ (.sent k rc err) hfree rfl rfl ?_
  exact executes_sender _ (.marked k rc) hfree rfl rfl h'

end Turn

/-! ### The end of a turn -/

section Ends
variable {lib : ListLib KioId} {s s1 : Session} {k j : KioId} {q : QId} {rc err : ℤ} {n : ℕ}
  {l : CList KioId} {old : List (ℕ × KioId)}

/-- The rear element is the one its kio points back to. -/
theorem items_senderUnqueue (hn : ((s.queue .recvq).items.map Prod.fst).Nodup)
    (hitems : (s.queue .recvq).items = old ++ [(n, k)]) (hqbp : (s.kio k).qbp = some n) :
    ((senderUnqueue lib s k).queue q).items = if q = .recvq then old else (s.queue q).items := by
  have hmem : (n, k) ∈ (s.queue .recvq).items := by rw [hitems]; simp
  obtain ⟨i, hi, hset⟩ := CList.setcurr_of_mem hn hmem
  have hlast : i = old.length := by
    have hl : (s.queue .recvq).items[old.length]? = some (n, k) := by rw [hitems]; simp
    have hfst : ((s.queue .recvq).items.map Prod.fst)[i]? =
        ((s.queue .recvq).items.map Prod.fst)[old.length]? := by
      rw [List.getElem?_map, List.getElem?_map, hi, hl]
    refine (List.getElem?_inj ?_ hn).mp hfst
    rw [List.length_map]
    exact (List.getElem?_eq_some_iff.mp hi).1
  have hrem := @CList.removeCurr_of_split _ lib ⟨(s.queue .recvq).items, some i⟩ old [] n k hitems
    (by rw [hlast])
  unfold senderUnqueue Session.unqbp
  rw [items_mvrear, queue_setKio, queue_setQueue, hqbp, hset]
  dsimp only
  rw [hrem]
  split_ifs
  · simp
  · rfl

theorem kio_senderUnqueue : (senderUnqueue lib s k).kio j =
    if j = k then { s.kio k with qbp := none } else s.kio j := by
  unfold senderUnqueue Session.unqbp
  rw [kio_mvrear, kio_setKio]
  rfl

theorem kio_senderComplete {st : KioState} : ∃ qbp, ((senderComplete s k st).kio j) =
    if j = k then { s.kio k with state := st, qbp } else s.kio j := by
  refine ⟨some s.nextNode, ?_⟩
  unfold senderComplete
  rw [kio_setKio, kio_link, kio_link, if_pos rfl]
  split_ifs <;> rfl

theorem items_senderComplete {st : KioState} : ((senderComplete s k st).queue q).items =
    if q = .compq then (s.queue .compq).items ++ [(s.nextNode, k)] else (s.queue q).items :=
  items_link s .compq q k

/-- The session once the kio was taken and handed to the driver. -/
theorem items_turn (h : senderTake lib s = some (k, s1))
    (hl : (s.queue .sendq).items = (n, k) :: l.items) :
    ((senderTurn s1 k rc err).queue q).items =
      if q = .recvq ∧ s.reqonly k = false then (s.queue .recvq).items ++ [(s.nextNode, k)]
      else if q = .sendq then l.items else (s.queue q).items := by
  obtain ⟨m, l', hl', rfl⟩ := senderTake_some h
  have hitems : l'.items = l.items := (List.cons.inj (hl'.symm.trans hl)).2
  have hreq : ((s.setQueue .sendq l').unqbp k).reqonly k = s.reqonly k :=
    reqonly_setKio (s.setQueue .sendq l') k k _ fun _ => rfl
  rw [items_senderTurn]
  show (if q = .recvq ∧ ((s.setQueue .sendq l').unqbp k).reqonly k = false then _ else _) = _
  rw [hreq]
  show (if _ then ((s.setQueue .sendq l').queue q).items ++ [(s.nextNode, k)]
    else ((s.setQueue .sendq l').queue q).items) = _
  rw [queue_setQueue]
  by_cases hq : q = .sendq
  · subst hq
    simp [hitems]
  · rw [if_neg hq]
    split_ifs with h1
    · rw [h1.1]
    · rfl

theorem kio_turn (rc err : ℤ) (j : KioId) (h : senderTake lib s = some (k, s1)) :
    (senderTurn s1 k rc err).kio j = if j = k then
      Kio.mark rc err { s.kio k with
        seq := s.sequence
        qbp := if s.reqonly k then none else some s.nextNode
        timeout := deadline s.now }
    else s.kio j := by
  obtain ⟨m, l', -, rfl⟩ := senderTake_some h
  have hreq : ((s.setQueue .sendq l').unqbp k).reqonly k = s.reqonly k :=
    reqonly_setKio (s.setQueue .sendq l') k k _ fun _ => rfl
  have hkio : ((s.setQueue .sendq l').unqbp k).kio k = { s.kio k with qbp := none } :=
    kio_setKio_self (s.setQueue .sendq l') k _
  by_cases hj : j = k
  · subst hj
    rw [if_pos rfl, kio_senderTurn_self]
    show Kio.mark rc err { ((s.setQueue .sendq l').unqbp j).kio j with
      seq := s.sequence
      qbp := if ((s.setQueue .sendq l').unqbp j).reqonly j then
        (((s.setQueue .sendq l').unqbp j).kio j).qbp else some s.nextNode
      timeout := deadline s.now } = _
    rw [hreq, hkio]
  · rw [if_neg hj, kio_senderTurn_of_ne hj]
    show ((s.setQueue .sendq l').setKio k fun x => { x with qbp := none }).kio j = _
    rw [kio_setKio, if_neg hj]
    rfl

theorem aside_senderTurn (s : Session) (k : KioId) (rc err : ℤ) :
    Aside s (senderTurn s k rc err) ∧ (senderTurn s k rc err).sequence = s.sequence + 1 := by
  have hq : Aside s (senderQueue (senderSequence s k) k) ∧
      (senderQueue (senderSequence s k) k).sequence = s.sequence + 1 := by
    unfold senderQueue
    split_ifs
    · exact ⟨⟨rfl, rfl, rfl, rfl, rfl⟩, rfl⟩
    · have h1 : Aside s (senderSequence s k) := ⟨rfl, rfl, rfl, rfl, rfl⟩
      refine ⟨h1.trans (aside_link (senderSequence s k) .recvq k), ?_⟩
      rw [link_eq]
      rfl
  exact ⟨⟨hq.1.state, hq.1.exit, hq.1.now, hq.1.issued, hq.1.returned⟩, hq.2⟩

theorem aside_turn (rc err : ℤ) (h : senderTake lib s = some (k, s1)) :
    Aside s (senderTurn s1 k rc err) ∧ (senderTurn s1 k rc err).sequence = s.sequence + 1 := by
  obtain ⟨m, l', -, rfl⟩ := senderTake_some h
  obtain ⟨h1, h2⟩ := aside_senderTurn { (s.setQueue .sendq l').unqbp k with
    takenAt := Function.update s.takenAt k (some s.now) } k rc err
  exact ⟨⟨h1.state, h1.exit, h1.now, h1.issued, h1.returned⟩, h2⟩

theorem senderTake_of_items (lib : ListLib KioId) (h : (s.queue .sendq).items = (n, k) :: old) :
    ∃ s1, senderTake lib s = some (k, s1) := by
  unfold senderTake CList.removeFront
  rw [h]
  exact ⟨_, rfl⟩

/-- A request that does not wait for a response goes on to compq; it is off recvq by then. -/
theorem senderResult_completes (hwaits : s.waits rc k = false)
    (hrear : s.reqonly k = false → (s.queue .recvq).items = old ++ [(n, k)] ∧
      (s.kio k).qbp = some n ∧ ((s.queue .recvq).items.map Prod.fst).Nodup) :
    ∃ s', senderResult lib s k rc =
        (s', .completing k (if 0 ≤ rc then .received else .failed)) ∧
      (∀ q, (s'.queue q).items = if q = .recvq ∧ s.reqonly k = false then old
        else (s.queue q).items) ∧
      (∃ qbp, s'.kio k = { s.kio k with qbp }) ∧ (∀ j, j ≠ k → s'.kio j = s.kio j) ∧
      Aside s s' ∧ s'.sequence = s.sequence := by
  by_cases hr : s.reqonly k = true
  · refine ⟨s, ?_, fun q => by simp [hr], ⟨_, rfl⟩, fun _ _ => rfl, .refl s, rfl⟩
    unfold senderResult
    by_cases hrc : 0 ≤ rc <;> simp [hr, hrc]
  · have hr' : s.reqonly k = false := by simpa using hr
    have hrc : rc < 0 := by simpa [Session.waits, hr'] using hwaits
    obtain ⟨hitems, hqbp, hn⟩ := hrear hr'
    refine ⟨senderUnqueue lib s k, ?_, fun q => ?_, ⟨none, ?_⟩, fun j hj => ?_,
      ⟨rfl, rfl, rfl, rfl, rfl⟩, rfl⟩
    · unfold senderResult
      rw [if_pos (Or.inl hrc), if_pos hr, if_neg (not_le.mpr hrc)]
    · rw [items_senderUnqueue hn hitems hqbp]
      simp [hr']
    · rw [kio_senderUnqueue, if_pos rfl]
    · rw [kio_senderUnqueue, if_neg hj]

end Ends

section One
variable {lib : ListLib KioId} {s s' : System} {k : KioId} {rc err : KioId → ℤ} {rest : List KioId}

/-- A turn for one kio. -/
theorem handedOver_one {F : Session} (hloop : s.sender = .loop)
    (hdata : (s.queue .sendq).data = k :: rest) (hsendq : (F.queue .sendq).data = rest)
    (hrecvq : (F.queue .recvq).data =
      (s.queue .recvq).data ++ if s.waits (rc k) k then [k] else [])
    (hcompq : (F.queue .compq).data =
      (s.queue .compq).data ++ if s.waits (rc k) k then [] else [k])
    (hkio : ∃ qbp, F.kio k = { s.kio k with
      seq := s.sequence
      state := if s.waits (rc k) k then (Kio.mark (rc k) (err k) (s.kio k)).state
        else if 0 ≤ rc k then .received else .failed
      sendmsg := (Kio.mark (rc k) (err k) (s.kio k)).sendmsg
      timeout := deadline s.now
      qbp })
    (hothers : ∀ j, j ≠ k → F.kio j = s.kio j)
    (haside : Aside s.toSession F ∧ F.sequence = s.sequence + 1) :
    HandedOver rc err [k] s { s with toSession := F, sender := .loop } := by
  refine ⟨by rw [hdata, hsendq]; rfl, hrecvq.trans ?_, hcompq.trans ?_, fun i j hj => ?_,
    fun j hj => hothers j (by simpa using hj), haside.2, haside.1, hloop.symm, rfl, rfl⟩
  · cases h : s.waits (rc k) k <;> simp [h]
  · cases h : s.waits (rc k) k <;> simp [h]
  · cases i with
    | zero =>
      obtain rfl := Option.some.inj hj
      obtain ⟨qbp, hqbp⟩ := hkio
      refine ⟨qbp, hqbp.trans ?_⟩
      rw [Nat.cast_zero, add_zero]
    | succ i => cases hj

/-- **One turn of the inner loop**, whatever the driver's send returns. -/
theorem turn_executes (lib : ListLib KioId) (rc err : KioId → ℤ) (hs : Kept s)
    (hfree : ∀ q, s.receiver.holds q = false) (hloop : s.sender = .loop)
    (hdata : (s.queue .sendq).data = k :: rest) :
    ∃ s', Executes lib s (turnActs s.toSession rc err k) s' ∧ HandedOver rc err [k] s s' := by
  obtain ⟨⟨n, k'⟩, old, hitems, rfl, hrest⟩ := List.map_eq_cons_iff.mp hdata
  dsimp only at hdata ⊢
  obtain ⟨s1, h1⟩ := senderTake_of_items lib hitems
  have hqs : ∀ q, ((senderTurn s1 k' (rc k') (err k')).queue q).items =
      if q = .recvq ∧ s.reqonly k' = false then (s.queue .recvq).items ++ [(s.nextNode, k')]
      else if q = .sendq then old else (s.queue q).items := fun q =>
    items_turn (l := ⟨old, none⟩) h1 hitems
  have hkio : ∀ j, _ := fun j => kio_turn (rc k') (err k') j h1
  have haside := aside_turn (rc k') (err k') h1
  have hreq : (senderTurn s1 k' (rc k') (err k')).reqonly k' = s.reqonly k' := by
    unfold Session.reqonly
    rw [hkio, if_pos rfl]
    rfl
  generalize hT : senderTurn s1 k' (rc k') (err k') = T at hqs hkio haside hreq
  have hsane : rc k' < 0 → T.reqonly k' = false → k' ∈ (T.queue .recvq).data := by
    intro _ hr
    unfold CList.data
    rw [hqs, if_pos ⟨rfl, hreq ▸ hr⟩]
    simp
  by_cases hwaits : s.waits (rc k') k' = true
  · -- it waits for its response
    obtain ⟨hrc, hr⟩ : 0 ≤ rc k' ∧ s.reqonly k' = false := by
      simpa [Session.waits] using hwaits
    refine ⟨{ s with toSession := T, sender := .loop }, ?_, ?_⟩
    · unfold turnActs
      rw [if_pos hwaits]
      refine executes_turn [_] hfree hloop hitems h1 ?_
      rw [hT]
      have hres : senderResult lib T k' (rc k') = (T, .loop) := by
        rw [senderResult, hreq, hr, if_neg (by simpa using hrc)]
      exact .cons _ hsane (step_sender
        (s := { s with toSession := T, sender := .marked k' (rc k') }) (r := (T, .loop)) hfree
        (congrArg some hres)) .nil
    · refine handedOver_one hloop hdata ?_ ?_ ?_ ?_ ?_ haside
      · unfold CList.data
        rw [hqs]
        exact hrest
      · unfold CList.data
        rw [hqs, if_pos ⟨rfl, hr⟩, if_pos hwaits]
        simp
      · unfold CList.data
        rw [hqs, if_pos hwaits]
        simp
      · rw [hkio, if_pos rfl, if_pos hwaits]
        exact ⟨_, rfl⟩
      · intro j hj
        rw [hkio, if_neg hj]
  · -- it is completed at once
    have hTwaits : T.waits (rc k') k' = false := by
      unfold Session.waits at hwaits ⊢
      rw [hreq]
      simpa using hwaits
    obtain ⟨U, hres, hU, ⟨qbp, hUself⟩, hUkio, hUaside, hUseq⟩ :=
      @senderResult_completes lib T k' (rc k') s.nextNode (s.queue .recvq).items hTwaits
        fun hr => by
        have hr' : s.reqonly k' = false := hreq ▸ hr
        have hrecvq : (T.queue .recvq).items = (s.queue .recvq).items ++ [(s.nextNode, k')] := by
          rw [hqs, if_pos ⟨rfl, hr'⟩]
        refine ⟨hrecvq, ?_, ?_⟩
        · rw [hkio, if_pos rfl]
          simp [Kio.mark, hr']
        · rw [hrecvq, List.map_append, List.nodup_append]
          refine ⟨hs.sound.nodes .recvq, List.nodup_singleton _, fun i hi j hj => ?_⟩
          obtain ⟨p, hp, rfl⟩ := List.mem_map.mp hi
          have hlt : p.1 < s.nextNode := hs.sound.old .recvq p hp
          obtain rfl := List.mem_singleton.mp hj
          exact hlt.ne
    have hUitems : ∀ q, (U.queue q).items = if q = .sendq then old else (s.queue q).items := by
      intro q
      rw [hU, hqs, hreq]
      cases q <;> cases s.reqonly k' <;> simp
    obtain ⟨st, hst⟩ : ∃ st : KioState, st = if 0 ≤ rc k' then .received else .failed := ⟨_, rfl⟩
    rw [← hst] at hres
    refine ⟨{ s with toSession := senderComplete U k' st, sender := .loop }, ?_, ?_⟩
    · unfold turnActs
      rw [if_neg hwaits]
      refine executes_turn [_, _] hfree hloop hitems h1 ?_
      rw [hT]
      refine .cons _ hsane (step_sender
        (s := { s with toSession := T, sender := .marked k' (rc k') })
        (r := (U, .completing k' st)) hfree (congrArg some hres)) ?_
      exact executes_sender _ .loop hfree rfl rfl .nil
    · obtain ⟨qbp', hC⟩ := @kio_senderComplete U k' k' st
      have hCaside : Aside U (senderComplete U k' st) :=
        ⟨(aside_link U .compq k').state, (aside_link U .compq k').exit,
          (aside_link U .compq k').now, (aside_link U .compq k').issued,
          (aside_link U .compq k').returned⟩
      refine handedOver_one hloop hdata ?_ ?_ ?_ ⟨qbp', ?_⟩ (fun j hj => ?_)
        ⟨(haside.1.trans hUaside).trans hCaside, ?_⟩
      · unfold CList.data
        rw [items_senderComplete, if_neg (by decide), hUitems]
        exact hrest
      · unfold CList.data
        rw [items_senderComplete, if_neg (by decide), hUitems, if_neg hwaits]
        simp
      · unfold CList.data
        rw [items_senderComplete, if_pos rfl, hUitems, if_neg hwaits]
        simp
      · rw [hC, if_pos rfl, hUself, hkio, if_pos rfl, if_neg hwaits, ← hst]
        rfl
      · obtain ⟨qbp', hC⟩ := @kio_senderComplete U k' j st
        rw [hC, if_neg hj, hUkio j hj, hkio, if_neg hj]
      · have hlink : (senderComplete U k' st).sequence =
            U.sequence := by
          show (U.link .compq k').sequence = _
          rw [link_eq]
          rfl
        rw [hlink, hUseq, haside.2]

end One

/-! ### The inner loop -/

section Loop
variable {lib : ListLib KioId} {s s1 s2 : System} {ks ks' : List KioId} {rc err : KioId → ℤ}

theorem HandedOver.reqonly (h : HandedOver rc err ks s s1) (j : KioId) :
    s1.reqonly j = s.reqonly j := by
  unfold Session.reqonly
  by_cases hj : j ∈ ks
  · obtain ⟨i, hi, rfl⟩ := List.mem_iff_getElem.mp hj
    obtain ⟨qbp, hk⟩ := h.kio i _ (List.getElem?_eq_some_iff.mpr ⟨hi, rfl⟩)
    rw [hk]
  · rw [h.others j hj]

theorem HandedOver.waits (h : HandedOver rc err ks s s1) (r : ℤ) (j : KioId) :
    s1.waits r j = s.waits r j := by
  unfold Session.waits
  rw [h.reqonly]

theorem handedOver_nil : HandedOver rc err [] s s :=
  ⟨rfl, by simp, by simp, fun _ _ h => (by cases h), fun _ _ => rfl, by simp, .refl _, rfl, rfl,
    rfl⟩

/-- More kios, after the first. -/
theorem HandedOver.append (h : HandedOver rc err ks s s1) (h' : HandedOver rc err ks' s1 s2)
    (hn : (ks ++ ks').Nodup) : HandedOver rc err (ks ++ ks') s s2 := by
  have hdisj := (List.nodup_append.mp hn).2.2
  refine ⟨?_, ?_, ?_, fun i k hi => ?_, fun j hj => ?_, ?_, h.aside.trans h'.aside,
    h'.threads.1.trans h.threads.1, h'.threads.2.1.trans h.threads.2.1,
    h'.threads.2.2.trans h.threads.2.2⟩
  · rw [h.sendq, h'.sendq, List.append_assoc]
  · rw [h'.recvq, h.recvq, List.append_assoc, List.filter_append]
    simp only [h.waits]
  · rw [h'.compq, h.compq, List.append_assoc, List.filter_append]
    simp only [h.waits]
  · rcases Nat.lt_or_ge i ks.length with hlt | hge
    · rw [List.getElem?_append_left hlt] at hi
      obtain ⟨qbp, hk⟩ := h.kio i k hi
      have hk' : k ∉ ks' := fun hk' => hdisj k (List.mem_of_getElem? hi) k hk' rfl
      exact ⟨qbp, (h'.others k hk').trans hk⟩
    · rw [List.getElem?_append_right hge] at hi
      obtain ⟨qbp, hk⟩ := h'.kio _ k hi
      have hk' : k ∉ ks := fun hk' => hdisj k hk' k (List.mem_of_getElem? hi) rfl
      refine ⟨qbp, hk.trans ?_⟩
      have hseq : s1.sequence + ((i - ks.length : ℕ) : ℤ) = s.sequence + (i : ℤ) := by
        rw [h.sequence, Nat.cast_sub hge]
        ring
      rw [h.others k hk', h.waits, hseq, h.aside.now]
  · rw [List.mem_append, not_or] at hj
    rw [h'.others j hj.2, h.others j hj.1]
  · rw [h'.sequence, h.sequence, List.length_append]
    push_cast
    ring

theorem Kept.nodup (hs : Kept s) (q : QId) : (s.queue q).data.Nodup := by
  have hcount : ∀ k, (s.held (.queue q)).count k ≤ 1 := fun k => hs.custody.once (.queue q) k
  exact Multiset.coe_nodup.mp (Multiset.nodup_iff_count_le_one.mpr hcount)

/-- The turns for what is at the front of sendq. -/
theorem turns_execute (lib : ListLib KioId) (rc err : KioId → ℤ) (ks rest : List KioId)
    {s : System} (hs : Kept s) (hfree : ∀ q, s.receiver.holds q = false) (hloop : s.sender = .loop)
    (hdata : (s.queue .sendq).data = ks ++ rest) :
    ∃ s', Executes lib s (ks.flatMap (turnActs s.toSession rc err)) s' ∧
      HandedOver rc err ks s s' := by
  induction ks generalizing s with
  | nil => exact ⟨s, .nil, handedOver_nil⟩
  | cons k ks ih =>
    obtain ⟨s1, hlead, h1⟩ := turn_executes lib rc err hs hfree hloop hdata
    have hdata1 : (s1.queue .sendq).data = ks ++ rest :=
      (List.cons.inj (hdata.symm.trans h1.sendq)).2.symm
    have hfree1 : ∀ q, s1.receiver.holds q = false := fun q => by
      rw [h1.threads.2.1]
      exact hfree q
    obtain ⟨s2, hlead2, h2⟩ := ih (hs.executes hlead) hfree1 (h1.threads.1.trans hloop) hdata1
    have hacts : ks.flatMap (turnActs s1.toSession rc err) =
        ks.flatMap (turnActs s.toSession rc err) := by
      refine congrArg (ks.flatMap ·) (funext fun j => ?_)
      unfold turnActs
      rw [h1.waits]
    have hn : (k :: ks).Nodup := by
      have hall := hs.nodup .sendq
      rw [hdata] at hall
      exact (List.nodup_append.mp hall).1
    refine ⟨s2, ?_, h1.append h2 hn⟩
    rw [List.flatMap_cons, ← hacts]
    exact hlead.append hlead2

end Loop

end Libkinetic.Ktli
