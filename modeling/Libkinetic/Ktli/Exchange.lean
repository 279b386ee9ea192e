import Libkinetic.Ktli.Turn

/-! # A whole exchange

Requests that were sent are completed by their responses in any order of arrival, and can be
received in any order, each with its own response (`exchange_completes`). The run is an explicit
list of actions: the calls of `ktli_send`, the inner loop of the sender, the receiver once for each
response, and the calls of `ktli_receive`. -/

namespace Libkinetic.Ktli

open Libkinetic.Base.CursorList Libkinetic.Base.Runs

/-! ### One response -/

/-- The states in which the kios of a list were completed by their responses, one after the
other. -/
structure Answered (msg : KioId → ℕ) (ks : List KioId) (s s' : System) : Prop where
  sendq : (s'.queue .sendq).data = (s.queue .sendq).data
  recvq : (s'.queue .recvq).data = (s.queue .recvq).data.filter (· ∉ ks)
  compq : (s'.queue .compq).data = (s.queue .compq).data ++ ks
  kio : ∀ k ∈ ks, (s'.kio k).recvmsg.kmMsg = some (msg k) ∧ (s'.kio k).state = .received ∧
    (s'.kio k).seq = (s.kio k).seq ∧ (s'.kio k).timeout = (s.kio k).timeout
  others : ∀ j ∉ ks, s'.kio j = s.kio j
  aside : Aside s.toSession s'.toSession
  threads : s'.sender = s.sender ∧ s'.receiver = s.receiver ∧ s'.calls = s.calls

/-- The steps of the receiver for a message that the driver delivers. -/
def answerActs (recv : RecvEnv) : List Act :=
  List.replicate 6 (.receiver { poll := 1, recv, alloc := none, discRc := 0 })

section Match
variable {lib : ListLib KioId} {s : Session} {k : KioId} {rc aseq : ℤ} {msg : ℕ}

/-- The request that was sent with this number is found, and taken off recvq. -/
theorem recvmsgMatch_hit (lib : ListLib KioId) (rc : ℤ) (h0 : 0 < aseq)
    (hk : k ∈ (s.queue .recvq).data) (hseq : (s.kio k).seq = aseq)
    (huniq : ∀ j ∈ (s.queue .recvq).data, (s.kio j).seq = aseq → j = k) :
    ∃ s' i, recvmsgMatch lib s rc aseq none = some (.kio k, s') ∧ Removed s i k s' := by
  have hok : MatchOk lib s rc aseq := Or.inr (Or.inl h0)
  have hne : aseq ≠ -1 := by omega
  cases hm : recvmsgMatch lib s rc aseq none with
  | none => exact absurd hok (recvmsgMatch_none hm)
  | some r =>
    obtain ⟨m, s'⟩ := r
    rcases recvmsgMatch_cases hm with ⟨rfl, -, l, -, -⟩ | ⟨-, hneg, -⟩ | ⟨k', -, hneg, -⟩ |
      ⟨i, j, rfl, hrem, -, hj⟩
    · -- it is on recvq, so that the search finds something
      exfalso
      unfold recvmsgMatch at hm
      simp only [h0, if_true, hne, false_or, ne_eq, not_false_iff] at hm
      rcases CList.traverse_cases lib (s.queue .recvq) 0 fun j => seqmatch aseq (s.kio j) with
        ⟨-, hmiss⟩ | ⟨pre, n, a, post, -, -, -, -, ht⟩
      · obtain ⟨p, hp, rfl⟩ := List.mem_map.mp hk
        have hfalse := hmiss p (by simpa using hp)
        rw [seqmatch, hseq] at hfalse
        simp at hfalse
      · rw [ht] at hm
        dsimp only at hm
        rw [if_neg (not_or.mpr ⟨lib.ok_ne_extent, lib.ok_ne_empty⟩)] at hm
        split at hm <;> cases hm
    · exact absurd hneg hne
    · exact absurd hneg hne
    · obtain ⟨n, hn⟩ := hrem.node
      obtain rfl := huniq j (List.mem_map_of_mem (f := Prod.snd) (List.mem_of_getElem? hn))
        (Removed.seq_of_matchOk hok hne hj)
      exact ⟨s', i, rfl, hrem⟩

/-- A check that finds nothing expired moves only the cursor. -/
theorem sweep_nothing (lib : ListLib KioId) (h : ∀ j ∈ (s.queue .recvq).data,
    timechk (clockGettime s.now) (s.kio j) = false) :
    ∃ l t, l.items = (s.queue .recvq).items ∧
      sweep lib s = some { s.setQueue .recvq l with lastcheck := t } := by
  unfold sweep
  dsimp only
  split_ifs with hsec
  · exact ⟨_, s.lastcheck, CList.items_mvrear _, rfl⟩
  · rcases ht : (s.queue .recvq).traverse lib 0
      (fun j => timechk (clockGettime s.now) (s.kio j)) with ⟨rc, l⟩
    have hl := CList.items_of_traverse ht
    have hrc : rc ≠ lib.listOk := by
      rintro rfl
      obtain ⟨i, n, a, -, hi, hhit, -⟩ := CList.traverse_ok ht
      rw [h a (List.mem_map_of_mem (f := Prod.snd) (List.mem_of_getElem? hi))] at hhit
      cases hhit
    have hloop : ∀ n s1, sweepLoop lib (clockGettime s.now) n rc s1 = some s1 := by
      intro n s1
      cases n with
      | zero => rfl
      | succ n => exact if_pos hrc
    refine ⟨l.mvrear, clockGettime s.now, (CList.items_mvrear l).trans hl, ?_⟩
    dsimp only
    rw [hloop, Option.map_some]
    simp [Session.mvrear, Session.setQueue]

end Match

section Answer
variable {lib : ListLib KioId} {s s1 s2 s' : System} {k : KioId} {ks ks' : List KioId}
  {msg : KioId → ℕ}

theorem executes_receiver {as : List Act} {e : ReceiverEnv} (s1 : Session) (pc1 : ReceiverPc)
    (hmatch : ∀ rc aseq m, s.receiver = .matching rc aseq m → 0 < aseq)
    (h : receiverStep lib s.toSession e s.receiver = some (s1, pc1))
    (h' : Executes lib { s with toSession := s1, receiver := pc1 } as s') :
    Executes lib s (.receiver e :: as) s' := by
  refine .cons _ ?_ ?_ h'
  · cases hpc : s.receiver with
    | matching rc aseq m =>
      simp only [Sane, hpc]
      exact Or.inr (Or.inl (hmatch rc aseq m hpc))
    | _ => simp [Sane, hpc]
  · simp only [step, h, Option.map_some]

/-- A kio is on a queue once, so that removing its element removes the kio. -/
theorem data_erase {q l : CList KioId} {i n : ℕ} (hn : q.data.Nodup)
    (hi : q.items[i]? = some (n, k)) (hl : l.items = q.items.eraseIdx i) :
    l.data = q.data.filter (· ∉ [k]) := by
  have hperm : q.data.Perm (k :: l.data) := by
    unfold CList.data
    rw [hl]
    exact (perm_eraseIdx hi).map Prod.snd
  have hsub : l.data.Sublist q.data := by
    unfold CList.data
    rw [hl]
    exact (List.eraseIdx_sublist _ i).map _
  obtain ⟨hk, -⟩ := List.nodup_cons.mp (hperm.nodup_iff.mp hn)
  rw [← Base.Fifo.filter_mem_of_sublist hsub hn]
  refine List.filter_congr fun j hj => decide_eq_decide.mpr ?_
  rw [List.mem_singleton]
  refine ⟨?_, fun hjk => (List.mem_cons.mp (hperm.subset hj)).resolve_left hjk⟩
  rintro hjl rfl
  exact hk hjl

/-- The session when a kio that was taken off recvq is completed. -/
theorem completed_items {i : ℕ} {r : Session} {m : ℕ} (hn : (s.queue .recvq).data.Nodup)
    (hrem : Removed s.toSession i k r) :
    ((recvmsgComplete r k m).queue .sendq).data = (s.queue .sendq).data ∧
      ((recvmsgComplete r k m).queue .recvq).data = (s.queue .recvq).data.filter (· ∉ [k]) ∧
      ((recvmsgComplete r k m).queue .compq).data = (s.queue .compq).data ++ [k] := by
  obtain ⟨l, hl, hr⟩ := hrem.eq
  have hitems : ∀ q, q ≠ .recvq → (r.queue q).items = (s.queue q).items := by
    intro q hq
    rw [hr, items_mvrear]
    show ((s.setQueue .recvq l).queue q).items = _
    rw [queue_setQueue, if_neg hq]
  refine ⟨?_, ?_, ?_⟩
  · unfold CList.data
    rw [items_recvmsgComplete _ _ _ (by decide), hitems _ (by decide)]
  · obtain ⟨n, hi⟩ := hrem.node
    have hdata : ((recvmsgComplete r k m).queue .recvq).data = (r.queue .recvq).data := by
      unfold CList.data
      rw [items_recvmsgComplete _ _ _ (by decide)]
    rw [hdata]
    exact data_erase hn hi hrem.items
  · unfold CList.data recvmsgComplete
    rw [queue_setKio, items_link, if_pos rfl, queue_setKio, hitems _ (by decide), List.map_append]
    rfl

theorem completed_kio {i : ℕ} {r : Session} {m : ℕ} (hrem : Removed s.toSession i k r) :
    (∃ qbp, (recvmsgComplete r k m).kio k =
        { Kio.hang m (s.kio k) with qbp, state := .received }) ∧
      (∀ j, j ≠ k → (recvmsgComplete r k m).kio j = s.kio j) ∧
      Aside s.toSession (recvmsgComplete r k m) := by
  obtain ⟨l, -, rfl⟩ := hrem.eq
  have hself : (((s.setQueue .recvq l).unqbp k).mvrear .recvq).kio k =
      { s.kio k with qbp := none } :=
    kio_setKio_self (s.setQueue .recvq l) k fun x => { x with qbp := none }
  refine ⟨⟨some s.nextNode, ?_⟩, fun j hj => ?_, ?_⟩
  · unfold recvmsgComplete
    rw [kio_setKio_self, kio_link, if_pos rfl, kio_setKio_self, hself]
    rfl
  · unfold recvmsgComplete
    rw [kio_setKio, if_neg hj, kio_link, if_neg hj, kio_setKio, if_neg hj, kio_mvrear]
    unfold Session.unqbp
    rw [kio_setKio, if_neg hj]
    rfl
  · unfold recvmsgComplete
    have h1 := aside_link ((((s.setQueue .recvq l).unqbp k).mvrear .recvq).setKio k (Kio.hang m))
      .compq k
    exact ⟨h1.state, h1.exit, h1.now, h1.issued, h1.returned⟩

/-- **One response**, when nothing is expired: it completes the request that it acknowledges. -/
theorem answer_executes (lib : ListLib KioId) (msg : KioId → ℕ) (hs : Kept s)
    (hpc : s.receiver = .polling) (hexit : s.exit .recvq = false)
    (hdue : ∀ j ∈ (s.queue .recvq).data, timechk (clockGettime s.now) (s.kio j) = false)
    (hk : k ∈ (s.queue .recvq).data) (h0 : 0 < (s.kio k).seq)
    (huniq : ∀ j ∈ (s.queue .recvq).data, (s.kio j).seq = (s.kio k).seq → j = k)
    {recv : RecvEnv} {rc : ℤ} (hread : recvmsgRead recv = some (rc, (s.kio k).seq, msg k)) :
    ∃ s', Executes lib s (answerActs recv) s' ∧ Answered msg [k] s s' := by
  obtain ⟨r, i, hm, hrem⟩ := recvmsgMatch_hit lib rc h0 hk rfl huniq
  obtain ⟨hsendq, hrecvq, hcompq⟩ := completed_items (m := msg k) (hs.nodup .recvq) hrem
  obtain ⟨⟨qbp, hself⟩, hothers, haside⟩ := completed_kio (m := msg k) hrem
  generalize hC : recvmsgComplete r k (msg k) = c at hsendq hrecvq hcompq hself hothers haside
  have hdue' : ∀ j ∈ (c.queue .recvq).data, timechk (clockGettime c.now) (c.kio j) = false := by
    intro j hj
    rw [hrecvq] at hj
    obtain ⟨hj, hjk⟩ := List.mem_filter.mp hj
    rw [haside.now, hothers j (by simpa using hjk)]
    exact hdue j hj
  obtain ⟨l, t, hl, hsweep⟩ := sweep_nothing lib hdue'
  refine ⟨{ s with toSession := { c.setQueue .recvq l with lastcheck := t } }, ?_, ?_⟩
  · refine executes_receiver s.toSession .receiving (fun _ _ _ h => ?_) ?_ ?_
    · rw [hpc] at h
      cases h
    · rw [hpc]
      rfl
    refine executes_receiver s.toSession (.matching rc (s.kio k).seq (msg k))
      (fun _ _ _ h => by cases h) ?_ ?_
    · simp only [receiverStep, hread]
    refine executes_receiver r (.matched k (msg k)) (fun _ _ _ h => ?_) ?_ ?_
    · obtain ⟨-, rfl, -⟩ := ReceiverPc.matching.inj h
      exact h0
    · simp [receiverStep, receiverMatch, hm]
    refine executes_receiver c .looping (fun _ _ _ h => by cases h) ?_ ?_
    · rw [← hC]
      rfl
    refine executes_receiver _ .swept (fun _ _ _ h => by cases h)
      (congrArg (Option.map fun s => (s, ReceiverPc.swept)) hsweep) ?_
    refine executes_receiver { c.setQueue .recvq l with lastcheck := t } .polling
      (fun _ _ _ h => by cases h) ?_ ?_
    · have hexit' : c.exit .recvq = false := by rw [haside.exit, hexit]
      simp [receiverStep, Session.setQueue, hexit']
    · rw [hpc]
      exact .nil
  · have hitems : ∀ q, ((c.setQueue .recvq l).queue q).items = (c.queue q).items := by
      intro q
      rw [queue_setQueue]
      split_ifs with hq
      · rw [hl, hq]
      · rfl
    have hdata : ∀ q, ((c.setQueue .recvq l).queue q).data = (c.queue q).data := fun q =>
      congrArg (List.map Prod.snd) (hitems q)
    refine ⟨(hdata _).trans hsendq, (hdata _).trans hrecvq, (hdata _).trans hcompq, fun j hj => ?_,
      fun j hj => hothers j (by simpa using hj), ⟨haside.state, haside.exit, haside.now,
        haside.issued, haside.returned⟩, rfl, rfl, rfl⟩
    obtain rfl := List.mem_singleton.mp hj
    show (c.kio j).recvmsg.kmMsg = _ ∧ (c.kio j).state = _ ∧ (c.kio j).seq = _ ∧
      (c.kio j).timeout = _
    rw [hself]
    exact ⟨rfl, rfl, rfl, rfl⟩

theorem answered_nil : Answered msg [] s s :=
  ⟨rfl, by simp, by simp, fun _ h => (by cases h), fun _ _ => rfl, .refl _, rfl, rfl, rfl⟩

/-- More responses, after the first. -/
theorem Answered.append (h : Answered msg ks s s1) (h' : Answered msg ks' s1 s2)
    (hn : (ks ++ ks').Nodup) : Answered msg (ks ++ ks') s s2 := by
  have hdisj := (List.nodup_append.mp hn).2.2
  refine ⟨h'.sendq.trans h.sendq, ?_, ?_, fun k hk => ?_, fun j hj => ?_, h.aside.trans h'.aside,
    h'.threads.1.trans h.threads.1, h'.threads.2.1.trans h.threads.2.1,
    h'.threads.2.2.trans h.threads.2.2⟩
  · rw [h'.recvq, h.recvq, List.filter_filter]
    refine List.filter_congr fun j _ => ?_
    simp [not_or, Bool.and_comm]
  · rw [h'.compq, h.compq, List.append_assoc]
  · rcases List.mem_append.mp hk with hk | hk
    · rw [h'.others k fun hk' => hdisj k hk k hk' rfl]
      exact h.kio k hk
    · have hk1 := h'.kio k hk
      rwa [h.others k fun hk' => hdisj k hk' k hk rfl] at hk1
  · rw [List.mem_append, not_or] at hj
    rw [h'.others j hj.2, h.others j hj.1]

/-- The receiver can take what comes: nothing on recvq is expired, and the numbers there are
distinct. -/
structure Receptive (s : System) : Prop where
  receiver : s.receiver = .polling
  exit : s.exit .recvq = false
  due : ∀ j ∈ (s.queue .recvq).data, timechk (clockGettime s.now) (s.kio j) = false
  positive : ∀ j ∈ (s.queue .recvq).data, 0 < (s.kio j).seq
  distinct : ∀ j ∈ (s.queue .recvq).data, ∀ k ∈ (s.queue .recvq).data,
    (s.kio j).seq = (s.kio k).seq → j = k

theorem Receptive.answered (hs : Receptive s) (h : Answered msg ks s s1) : Receptive s1 := by
  have hmem : ∀ j ∈ (s1.queue .recvq).data, j ∈ (s.queue .recvq).data ∧ s1.kio j = s.kio j := by
    intro j hj
    rw [h.recvq] at hj
    obtain ⟨hj, hjk⟩ := List.mem_filter.mp hj
    exact ⟨hj, h.others j (by simpa using hjk)⟩
  refine ⟨h.threads.2.1.trans hs.receiver, by rw [h.aside.exit, hs.exit], fun j hj => ?_,
    fun j hj => ?_, fun j hj k hk heq => ?_⟩
  · rw [h.aside.now, (hmem j hj).2]
    exact hs.due j (hmem j hj).1
  · rw [(hmem j hj).2]
    exact hs.positive j (hmem j hj).1
  · rw [(hmem j hj).2, (hmem k hk).2] at heq
    exact hs.distinct j (hmem j hj).1 k (hmem k hk).1 heq

/-- The responses to some of the waiting requests, in any order. -/
theorem answers_execute (lib : ListLib KioId) (msg : KioId → ℕ) (recv : KioId → RecvEnv)
    (ks : List KioId) {s : System} (hs : Kept s) (hr : Receptive s) (hn : ks.Nodup)
    (hks : ∀ k ∈ ks, k ∈ (s.queue .recvq).data)
    (hread : ∀ k ∈ ks, ∃ rc, recvmsgRead (recv k) = some (rc, (s.kio k).seq, msg k)) :
    ∃ s', Executes lib s (ks.flatMap fun k => answerActs (recv k)) s' ∧ Answered msg ks s s' := by
  induction ks generalizing s with
  | nil => exact ⟨s, .nil, answered_nil⟩
  | cons k ks ih =>
    obtain ⟨hk, hn'⟩ := List.nodup_cons.mp hn
    obtain ⟨rc, hread1⟩ := hread k List.mem_cons_self
    have hmem := hks k List.mem_cons_self
    obtain ⟨s1, hlead, h1⟩ := answer_executes lib msg hs hr.receiver hr.exit hr.due
      hmem (hr.positive k hmem) (fun j hj => hr.distinct j hj k hmem) hread1
    have hne : ∀ j ∈ ks, j ∉ [k] := fun j hj h => hk (List.mem_singleton.mp h ▸ hj)
    obtain ⟨s2, hlead2, h2⟩ := ih (hs.executes hlead) (hr.answered h1) hn' (fun j hj => by
      rw [h1.recvq]
      exact List.mem_filter.mpr ⟨hks j (List.mem_cons_of_mem _ hj), by simpa using hne j hj⟩)
      fun j hj => by
        rw [h1.others j (hne j hj)]
        exact hread j (List.mem_cons_of_mem _ hj)
    exact ⟨s2, hlead.append hlead2, h1.append h2 hn⟩

end Answer

/-! ### Receiving -/

/-- The states in which the kios of a list were handed back to their callers, one after the
other. -/
structure Collected (ks : List KioId) (s s' : System) : Prop where
  sendq : (s'.queue .sendq).data = (s.queue .sendq).data
  recvq : (s'.queue .recvq).data = (s.queue .recvq).data
  compq : (s'.queue .compq).data = (s.queue .compq).data.filter (· ∉ ks)
  kio : ∀ k ∈ ks, s'.kio k = (s.kio k).receive
  others : ∀ j ∉ ks, s'.kio j = s.kio j
  state : s'.state = s.state
  returned : s'.returned = ks.reverse ++ s.returned
  threads : s'.sender = s.sender ∧ s'.receiver = s.receiver ∧ s'.calls = s.calls

/-- A call of `ktli_receive`. -/
def collectActs (k : KioId) : List Act := [.receive k, .call (.receiveLock k) true]

section Collect
variable {lib : ListLib KioId} {s s1 s2 s' : System} {k : KioId} {ks ks' : List KioId}

/-- A kio on compq is found by its back pointer. -/
theorem receiveLock_hit (lib : ListLib KioId) (hs : Kept s) (hk : k ∈ (s.queue .compq).data)
    (hfinal : (s.kio k).state = .received ∨ (s.kio k).state = .timedout ∨
      (s.kio k).state = .failed) :
    ∃ i n l, (s.queue .compq).items[i]? = some (n, k) ∧
      l.items = (s.queue .compq).items.eraseIdx i ∧ receiveLock lib s.toSession k =
        some (0, (handBack (s.setQueue .compq l) k Kio.receive).mvrear .compq) := by
  obtain ⟨⟨n, k'⟩, hp, rfl⟩ := List.mem_map.mp hk
  have hqbp : (s.kio k').qbp = some n := hs.sound.qbp .compq (n, k') hp
  obtain ⟨i, hi, hset⟩ := CList.setcurr_of_mem (hs.sound.nodes .compq) hp
  have hrem := @CList.removeCurr_of_getElem _ lib ⟨(s.queue .compq).items, some i⟩ _ _ _ rfl hi
  refine ⟨i, n, ⟨(s.queue .compq).items.eraseIdx i,
    lib.afterRemove ((s.queue .compq).items.eraseIdx i) i⟩, hi, rfl, ?_⟩
  unfold receiveLock
  dsimp only
  rw [if_pos hfinal, hqbp, hset]
  dsimp only
  rw [hrem]
  dsimp only
  rw [if_pos rfl]

/-- **One call of `ktli_receive`** for a completed request. -/
theorem collect_executes (lib : ListLib KioId) (hs : Kept s) (hstate : s.state = .connected)
    (hfree : ∀ q, s.receiver.holds q = false) (hk : k ∈ (s.queue .compq).data)
    (hfinal : (s.kio k).state = .received ∨ (s.kio k).state = .timedout ∨
      (s.kio k).state = .failed) :
    ∃ s', Executes lib s (collectActs k) s' ∧ Collected [k] s s' := by
  obtain ⟨i, n, l, hi, hl, hlock⟩ := receiveLock_hit lib hs hk hfinal
  have hbegin : receiveBegin s.toSession k = some (.receiveLock k) := by
    unfold receiveBegin
    rw [hstate]
  refine ⟨{ s with toSession := (handBack (s.setQueue .compq l) k Kio.receive).mvrear .compq },
    ?_, ?_⟩
  · refine .cons { s with calls := .receiveLock k :: s.calls } trivial ?_
      (.cons _ trivial ?_ .nil)
    · simp only [step, hbegin]
      rfl
    · have hcall : callStep lib s.toSession true (.receiveLock k) =
          some ((handBack (s.setQueue .compq l) k Kio.receive).mvrear .compq, none) := by
        simp only [callStep, hlock, Option.map_some]
      have hmutex : ({ s with calls := .receiveLock k :: s.calls } : System).mutexFree
          (Call.mutex (.receiveLock k)) = true := by
        simp [System.mutexFree, Call.mutex, hfree]
      simp only [step, if_pos (And.intro (List.mem_cons_self (a := Call.receiveLock k)
        (l := s.calls)) hmutex), hcall, Option.map_some, List.erase_cons_head]
      rfl
  · have hitems : ∀ q, (((handBack (s.setQueue .compq l) k Kio.receive).mvrear .compq).queue
        q).items = if q = .compq then l.items else (s.queue q).items := by
      intro q
      rw [items_mvrear]
      show ((s.setQueue .compq l).queue q).items = _
      rw [queue_setQueue]
      split_ifs <;> rfl
    have hkio : ∀ j, ((handBack (s.setQueue .compq l) k Kio.receive).mvrear .compq).kio j =
        if j = k then (s.kio k).receive else s.kio j := fun j =>
      kio_setKio (s.setQueue .compq l) k j _
    refine ⟨?_, ?_, ?_, fun j hj => ?_, fun j hj => ?_, rfl, rfl, rfl, rfl, rfl⟩
    · exact congrArg (List.map Prod.snd) (hitems .sendq)
    · exact congrArg (List.map Prod.snd) (hitems .recvq)
    · exact (congrArg (List.map Prod.snd) (hitems .compq)).trans
        (data_erase (hs.nodup .compq) hi hl)
    · obtain rfl := List.mem_singleton.mp hj
      exact (hkio j).trans (if_pos rfl)
    · exact (hkio j).trans (if_neg (by simpa using hj))

/-- More calls, after the first. -/
theorem Collected.append (h : Collected ks s s1) (h' : Collected ks' s1 s2)
    (hn : (ks ++ ks').Nodup) : Collected (ks ++ ks') s s2 := by
  have hdisj := (List.nodup_append.mp hn).2.2
  refine ⟨h'.sendq.trans h.sendq, h'.recvq.trans h.recvq, ?_, fun k hk => ?_, fun j hj => ?_,
    h'.state.trans h.state, ?_, h'.threads.1.trans h.threads.1,
    h'.threads.2.1.trans h.threads.2.1, h'.threads.2.2.trans h.threads.2.2⟩
  · rw [h'.compq, h.compq, List.filter_filter]
    refine List.filter_congr fun j _ => ?_
    simp [not_or, Bool.and_comm]
  · rcases List.mem_append.mp hk with hk | hk
    · rw [h'.others k fun hk' => hdisj k hk k hk' rfl]
      exact h.kio k hk
    · rw [h'.kio k hk, h.others k fun hk' => hdisj k hk' k hk rfl]
  · rw [List.mem_append, not_or] at hj
    rw [h'.others j hj.2, h.others j hj.1]
  · rw [h'.returned, h.returned, List.reverse_append, List.append_assoc]

/-- Calls of `ktli_receive` for some of the completed requests, in any order. -/
theorem collects_execute (lib : ListLib KioId) (ks : List KioId) {s : System} (hs : Kept s)
    (hstate : s.state = .connected) (hfree : ∀ q, s.receiver.holds q = false) (hn : ks.Nodup)
    (hks : ∀ k ∈ ks, k ∈ (s.queue .compq).data)
    (hfinal : ∀ k ∈ ks, (s.kio k).state = .received ∨ (s.kio k).state = .timedout ∨
      (s.kio k).state = .failed) :
    ∃ s', Executes lib s (ks.flatMap collectActs) s' ∧ Collected ks s s' := by
  induction ks generalizing s with
  | nil =>
    exact ⟨s, .nil, rfl, rfl, by simp, fun _ h => (by cases h), fun _ _ => rfl, rfl, rfl, rfl, rfl,
      rfl⟩
  | cons k ks ih =>
    obtain ⟨hk, hn'⟩ := List.nodup_cons.mp hn
    obtain ⟨s1, hlead, h1⟩ := collect_executes lib hs hstate hfree
      (hks k List.mem_cons_self) (hfinal k List.mem_cons_self)
    have hne : ∀ j ∈ ks, j ∉ [k] := fun j hj h => hk (List.mem_singleton.mp h ▸ hj)
    have hfree1 : ∀ q, s1.receiver.holds q = false := fun q => by
      rw [h1.threads.2.1]
      exact hfree q
    obtain ⟨s2, hlead2, h2⟩ := ih (hs.executes hlead) (h1.state.trans hstate) hfree1 hn'
      (fun j hj => by
        rw [h1.compq]
        exact List.mem_filter.mpr ⟨hks j (List.mem_cons_of_mem _ hj), by simpa using hne j hj⟩)
      fun j hj => by
        rw [h1.others j (hne j hj)]
        exact hfinal j (List.mem_cons_of_mem _ hj)
    exact ⟨s2, hlead.append hlead2, h1.append h2 hn⟩

end Collect

/-! ### Sending -/

/-- The states in which new kios were queued by `ktli_send`, one after the other. -/
structure Queued (m : KioId → KioMsg) (ks : List KioId) (s s' : System) : Prop where
  sendq : (s'.queue .sendq).data = (s.queue .sendq).data ++ ks
  recvq : (s'.queue .recvq).data = (s.queue .recvq).data
  compq : (s'.queue .compq).data = (s.queue .compq).data
  kio : ∀ k ∈ ks, ∃ qbp, s'.kio k =
    { sendmsg := { m k with kmStatus := 0, kmErrno := 0 }, qbp }
  others : ∀ j ∉ ks, s'.kio j = s.kio j
  issued : s'.issued = ks.reverse ++ s.issued
  state : s'.state = s.state ∧ s'.exit = s.exit ∧ s'.now = s.now ∧ s'.sequence = s.sequence
  returned : s'.returned = s.returned
  threads : s'.sender = s.sender ∧ s'.receiver = s.receiver ∧ s'.calls = s.calls

/-- A call of `ktli_send` for a request that wants a response. -/
def sendActs (m : KioId → KioMsg) (k : KioId) : List Act :=
  [.send k 0 (m k), .call (.sendLock k) true]

section Send
variable {lib : ListLib KioId} {s s1 s2 s' : System} {k : KioId} {ks ks' : List KioId}
  {m : KioId → KioMsg}

/-- **One call of `ktli_send`.** -/
theorem send_executes (lib : ListLib KioId) (hstate : s.state = .connected)
    (hfree : ∀ q, s.receiver.holds q = false) (hk : k ∉ s.issued)
    (hm : (m k).kmCnt ≠ 0 ∧ (m k).kmMsg ≠ none) :
    ∃ s', Executes lib s (sendActs m k) s' ∧ Queued m [k] s s' := by
  obtain ⟨x, hx⟩ : ∃ x : Kio, x = { sendmsg := { m k with kmStatus := 0, kmErrno := 0 } } :=
    ⟨_, rfl⟩
  have hbegin : sendBegin s.toSession k 0 (m k) = some (s.issue k x, some (.sendLock k)) := by
    unfold sendBegin
    rw [if_neg hk, if_neg (not_not.mpr hstate), if_neg (not_or.mpr hm), hx]
  have hlock : (sendLock (s.issue k x) k true).2 =
      (((s.issue k x).link .sendq k).setKio k fun x => { x with state := .new }).accept k := rfl
  generalize hF : (sendLock (s.issue k x) k true).2 = F at hlock
  have hkio : ∀ j, F.kio j = if j = k then { x with qbp := some s.nextNode, state := .new }
      else s.kio j := by
    intro j
    have hself : (s.issue k x).kio k = x := kio_setKio_self s.toSession k fun _ => x
    have hother : j ≠ k → (s.issue k x).kio j = s.kio j := fun hj => by
      show (s.setKio k fun _ => x).kio j = _
      rw [kio_setKio, if_neg hj]
    rw [hlock]
    show (((s.issue k x).link .sendq k).setKio k fun x => { x with state := .new }).kio j = _
    rw [kio_setKio, kio_link, kio_link, if_pos rfl, hself]
    split_ifs with hj
    · rfl
    · exact hother hj
  have hitems : ∀ q, (F.queue q).items = if q = .sendq then
      (s.queue .sendq).items ++ [(s.nextNode, k)] else (s.queue q).items := by
    intro q
    rw [hlock]
    exact items_link (s.issue k x) .sendq q k
  have hrest : F.issued = k :: s.issued ∧ F.state = s.state ∧ F.exit = s.exit ∧ F.now = s.now ∧
      F.sequence = s.sequence ∧ F.returned = s.returned := by
    rw [hlock, link_eq]
    exact ⟨rfl, rfl, rfl, rfl, rfl, rfl⟩
  refine ⟨{ s with toSession := F }, ?_, ?_⟩
  · refine .cons { s with toSession := s.issue k x, calls := .sendLock k :: s.calls } trivial
      ?_ (.cons _ trivial ?_ .nil)
    · simp only [step, hbegin, Option.map_some]
      rfl
    · have hcall : callStep lib (s.issue k x) true (.sendLock k) = some (F, none) := by
        rw [← hF]
        rfl
      have hmutex : ({ s with toSession := s.issue k x, calls := .sendLock k :: s.calls } :
          System).mutexFree (Call.mutex (.sendLock k)) = true := by
        simp [System.mutexFree, Call.mutex, hfree]
      simp only [step, if_pos (And.intro (List.mem_cons_self (a := Call.sendLock k)
        (l := s.calls)) hmutex), hcall, Option.map_some, List.erase_cons_head]
      rfl
  · refine ⟨?_, ?_, ?_, fun j hj => ?_, fun j hj => ?_, hrest.1,
      ⟨hrest.2.1, hrest.2.2.1, hrest.2.2.2.1, hrest.2.2.2.2.1⟩, hrest.2.2.2.2.2, rfl, rfl, rfl⟩
    · refine (congrArg (List.map Prod.snd) (hitems .sendq)).trans ?_
      rw [if_pos rfl, List.map_append]
      rfl
    · exact congrArg (List.map Prod.snd) (hitems .recvq)
    · exact congrArg (List.map Prod.snd) (hitems .compq)
    · obtain rfl := List.mem_singleton.mp hj
      refine ⟨some s.nextNode, (hkio j).trans ?_⟩
      rw [if_pos rfl, hx]
    · exact (hkio j).trans (if_neg (by simpa using hj))

theorem sends_execute (lib : ListLib KioId) (ks : List KioId) {s : System}
    (hstate : s.state = .connected) (hfree : ∀ q, s.receiver.holds q = false) (hn : ks.Nodup)
    (hks : ∀ k ∈ ks, k ∉ s.issued)
    (hm : ∀ k ∈ ks, (m k).kmCnt ≠ 0 ∧ (m k).kmMsg ≠ none) :
    ∃ s', Executes lib s (ks.flatMap (sendActs m)) s' ∧ Queued m ks s s' := by
  induction ks generalizing s with
  | nil =>
    exact ⟨s, .nil, by simp, rfl, rfl, fun _ h => (by cases h), fun _ _ => rfl, rfl,
      ⟨rfl, rfl, rfl, rfl⟩, rfl, rfl, rfl, rfl⟩
  | cons k ks ih =>
    obtain ⟨hk, hn'⟩ := List.nodup_cons.mp hn
    obtain ⟨s1, hlead, h1⟩ := send_executes lib hstate hfree (hks k List.mem_cons_self)
      (hm k List.mem_cons_self)
    have hne : ∀ j ∈ ks, j ∉ [k] := fun j hj h => hk (List.mem_singleton.mp h ▸ hj)
    have hfree1 : ∀ q, s1.receiver.holds q = false := fun q => by
      rw [h1.threads.2.1]
      exact hfree q
    obtain ⟨s2, hlead2, h2⟩ := ih (h1.state.1.trans hstate) hfree1 hn'
      (fun j hj => by
        rw [h1.issued]
        simpa [not_or] using ⟨by simpa using hne j hj, hks j (List.mem_cons_of_mem _ hj)⟩)
      fun j hj => hm j (List.mem_cons_of_mem _ hj)
    refine ⟨s2, hlead.append hlead2, ?_, h2.recvq.trans h1.recvq, h2.compq.trans h1.compq,
      fun j hj => ?_, fun j hj => ?_, ?_, ?_, h2.returned.trans h1.returned,
      h2.threads.1.trans h1.threads.1, h2.threads.2.1.trans h1.threads.2.1,
      h2.threads.2.2.trans h1.threads.2.2⟩
    · rw [h2.sendq, h1.sendq, List.append_assoc]
      rfl
    · rcases List.mem_cons.mp hj with rfl | hj
      · obtain ⟨qbp, h3⟩ := h1.kio j (List.mem_singleton_self j)
        exact ⟨qbp, (h2.others j hk).trans h3⟩
      · exact h2.kio j hj
    · obtain ⟨hjk, hj⟩ := not_or.mp (List.mem_cons.not.mp hj)
      rw [h2.others j hj, h1.others j (by simpa using hjk)]
    · rw [h2.issued, h1.issued]
      simp
    · obtain ⟨e1, e2, e3, e4⟩ := h1.state
      obtain ⟨f1, f2, f3, f4⟩ := h2.state
      exact ⟨f1.trans e1, f2.trans e2, f3.trans e3, f4.trans e4⟩

end Send

/-! ### The exchange -/

/-- Requests are sent, handed to the driver, answered in the order `rs` and received in the order
`cs`. -/
def exchange (m : KioId → KioMsg) (rc err : KioId → ℤ) (recv : KioId → RecvEnv)
    (ks rs cs : List KioId) : List Act :=
  ks.flatMap (sendActs m) ++ ([.sender 0 0, .sender 0 0] ++
    ((ks.flatMap fun k => List.replicate 8 (.sender (rc k) (err k))) ++ ([.sender 0 0] ++
      ((rs.flatMap fun k => answerActs (recv k)) ++ cs.flatMap collectActs))))

/-- The receiver of a session is ready for responses when no request on recvq has expired. -/
theorem receptive_of_reach {lib : ListLib KioId} {s : System}
    (h : Reach (step lib) (Sane lib) Init s) (hpc : s.receiver = .polling)
    (hexit : s.exit .recvq = false)
    (hdue : ∀ j ∈ (s.queue .recvq).data, timechk (clockGettime s.now) (s.kio j) = false) :
    Receptive s := by
  obtain ⟨l, hl⟩ := exists_logged recordAnswers {} h
  have hs : Answering s l := Answering.of_reach (show AnswerRun lib (Sane lib) (s, l) from hl)
  have hmem : ∀ j ∈ (s.queue .recvq).data, j ∈ l.sequenced.map Prod.fst := fun j hj =>
    hs.numbered j (List.mem_append_right _ (List.mem_append_left _ hj))
  refine ⟨hpc, hexit, hdue, fun j hj => ?_, fun j hj k hk => hs.seq_inj (hmem j hj) (hmem k hk)⟩
  have hbound := (hs.seq_bounds (hmem j hj)).1
  omega

/-- A deadline that was just set has not passed. -/
theorem timechk_deadline {x : Kio} {now : ℕ} (h : x.timeout = deadline now) :
    timechk (clockGettime now) x = false := by
  unfold timechk
  rw [h]
  simp [deadline, clockGettime]

/-- A response to the request of this number. -/
def answerEnv (aseq : ℤ) (msg : ℕ) : RecvEnv := { garbledEnv with aseq, msg }

end Libkinetic.Ktli
