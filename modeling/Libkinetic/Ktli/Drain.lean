import Libkinetic.Ktli.Close

/-! # Draining a session

The calls that empty the queues of a disconnected session, each run from its begin to its end with
the service threads idle: `ktli_drain` takes whatever comes first, `ktli_drain_match` and, on a
draining session, `ktli_receive` take one kio that the caller names. -/

namespace Libkinetic.Ktli

open Libkinetic.Base.CursorList

/-! ### `ktli_drain` -/

/-- The sections of `ktli_drain`: what it returns, and the kio it leaves in `*kio`. -/
def drainRun (lib : ListLib KioId) : List QId → Session → (ℤ × Option KioId) × Session
  | [], s => ((0, none), { s with state := .opened })
  | q :: todo, s =>
    match drainLock lib s q todo with
    | (s, none) => ((1, s.returned.head?), s)
    | (s, some _) => drainRun lib todo s

/-- **`ktli_drain`** -/
def ktliDrain (lib : ListLib KioId) (s : Session) : (ℤ × Option KioId) × Session :=
  match drainBegin s with
  | none => ((-1, none), s)
  | some _ => drainRun lib drainOrder s

/-- The session after `n` calls. -/
def drained (lib : ListLib KioId) (n : ℕ) (s : Session) : Session :=
  (fun s => (ktliDrain lib s).2)^[n] s

/-- What is on the queues, in the order in which they are drained. -/
def queued (s : Session) : List KioId := drainOrder.flatMap fun q => (s.queue q).data

/-! ### `ktli_drain_match` -/

/-- The sections of `ktli_drain_match`. -/
def matchRun (lib : ListLib KioId) (k : KioId) :
    List QId → Session → ℕ → ℤ → Option (ℤ × Session)
  | [], s, tqlen, rc => some (rc, if tqlen = 0 then { s with state := .opened } else s)
  | q :: todo, s, tqlen, _ =>
    match matchLock lib s k q todo tqlen with
    | some (s, some (.matchLock _ _ tqlen rc)) => matchRun lib k todo s tqlen rc
    | _ => none

/-- **`ktli_drain_match`** -/
def ktliDrainMatch (lib : ListLib KioId) (s : Session) (k : KioId) : Option (ℤ × Session) :=
  match matchCheck s k with
  | none => some (-1, s)
  | some _ => matchRun lib k drainOrder s 0 (-1)

/-- **`ktli_receive`** -/
def ktliReceive (lib : ListLib KioId) (s : Session) (k : KioId) : Option (ℤ × Session) :=
  match receiveBegin s k with
  | none => some (-1, s)
  | some (.receiveLock k) => receiveLock lib s k
  | some _ => ktliDrainMatch lib s k

/-! ### What `ktli_drain` does -/

section Drain
variable {lib : ListLib KioId} {s : Session} {q : QId} {k : KioId} {todo : List QId}

/-- An empty queue is passed over. -/
theorem drainLock_empty (h : (s.queue q).items = []) :
    drainLock lib s q todo = (s, some (.drainLock todo)) := by
  simp [drainLock, CList.removeFront, h]

/-- The front of a queue is taken off and handed back. -/
theorem drainLock_front {n : ℕ} {rest : List (ℕ × KioId)} (h : (s.queue q).items = (n, k) :: rest) :
    ∃ l : CList KioId, l.items = rest ∧
      drainLock lib s q todo = (handBack (s.setQueue q l) k Kio.drain, none) := by
  refine ⟨⟨rest, lib.afterFront rest (s.queue q).curr⟩, rfl, ?_⟩
  simp [drainLock, CList.removeFront, h]

/-- What a session looks like after the first kio on its queues was drained. -/
structure FrontDrained (k : KioId) (rest : List KioId) (s s' : Session) : Prop where
  queued : queued s' = rest
  kio : ∀ j, s'.kio j = if j = k then (s.kio k).drain else s.kio j
  state : s'.state = s.state

/-- What a run over some queues finds first. -/
theorem drainRun_front : ∀ {todo : List QId} {s : Session} {k : KioId} {rest : List KioId},
    todo.Nodup → (todo.flatMap fun q => (s.queue q).data) = k :: rest →
    ∃ s', drainRun lib todo s = ((1, some k), s') ∧
      (todo.flatMap fun q => (s'.queue q).data) = rest ∧
      (∀ q ∉ todo, s'.queue q = s.queue q) ∧
      (∀ j, s'.kio j = if j = k then (s.kio k).drain else s.kio j) ∧ s'.state = s.state
  | [], s, k, rest, _, h => by cases h
  | q :: todo, s, k, rest, hn, h => by
    obtain ⟨hq, hn⟩ := List.nodup_cons.mp hn
    rcases hi : (s.queue q).items with _ | ⟨⟨n, k'⟩, items⟩
    · have hdata : (s.queue q).data = [] := by rw [CList.data, hi]; rfl
      rw [List.flatMap_cons, hdata, List.nil_append] at h
      obtain ⟨s', hrun, hrest, hkeep, hkio, hstate⟩ := drainRun_front hn h
      refine ⟨s', ?_, ?_, fun r hr => hkeep r fun hm => hr (List.mem_cons_of_mem _ hm), hkio,
        hstate⟩
      · rw [drainRun, drainLock_empty hi]
        exact hrun
      · rw [List.flatMap_cons, hkeep q hq, hdata, List.nil_append, hrest]
    · have hdata : (s.queue q).data = k' :: items.map Prod.snd := by rw [CList.data, hi]; rfl
      rw [List.flatMap_cons, hdata, List.cons_append] at h
      obtain ⟨rfl, hrest⟩ := List.cons.inj h
      obtain ⟨l, hl, hlock⟩ := @drainLock_front lib s q k' todo n items hi
      refine ⟨handBack (s.setQueue q l) k' Kio.drain, ?_, ?_, fun r hr => ?_, fun j => ?_, rfl⟩
      · rw [drainRun, hlock]
        rfl
      · have hother : (todo.flatMap fun r => ((s.setQueue q l).queue r).data) =
            todo.flatMap fun r => (s.queue r).data := by
          refine List.flatMap_congr fun r hr => ?_
          have hrq : r ≠ q := by rintro rfl; exact hq hr
          rw [queue_setQueue, if_neg hrq]
        rw [List.flatMap_cons, ← hrest, ← hother]
        show ((s.setQueue q l).queue q).data ++ _ = _
        rw [queue_setQueue_self, CList.data, hl]
        rfl
      · have hrq : r ≠ q := by rintro rfl; exact hr List.mem_cons_self
        show (s.setQueue q l).queue r = _
        rw [queue_setQueue, if_neg hrq]
      · show ((s.setQueue q l).setKio k' Kio.drain).kio j = _
        rw [kio_setKio, kio_setQueue]

/-- A run over empty queues opens the session. -/
theorem drainRun_empty : ∀ {todo : List QId}, (∀ q ∈ todo, (s.queue q).items = []) →
    drainRun lib todo s = ((0, none), { s with state := .opened })
  | [], _ => rfl
  | q :: todo, h => by
    rw [drainRun, drainLock_empty (h q List.mem_cons_self)]
    exact drainRun_empty fun r hr => h r (List.mem_cons_of_mem _ hr)

theorem ktliDrain_eq (h : s.state = .draining) : ktliDrain lib s = drainRun lib drainOrder s := by
  rw [ktliDrain, drainBegin, if_pos h]

/-- **One call of `ktli_drain`** on queues that are not empty. -/
theorem ktliDrain_front {rest : List KioId} (h : s.state = .draining)
    (hq : queued s = k :: rest) :
    ∃ s', ktliDrain lib s = ((1, some k), s') ∧ FrontDrained k rest s s' := by
  obtain ⟨s', hrun, hrest, -, hkio, hstate⟩ :=
    @drainRun_front lib drainOrder s k rest (by decide) hq
  exact ⟨s', (ktliDrain_eq h).trans hrun, hrest, hkio, hstate⟩

/-- Every queue is drained. -/
theorem mem_drainOrder (q : QId) : q ∈ drainOrder := by
  cases q <;> decide

theorem items_of_queued_nil (h : queued s = []) (q : QId) : (s.queue q).items = [] := by
  have hdata := List.flatMap_eq_nil_iff.mp h q (mem_drainOrder q)
  exact List.map_eq_nil_iff.mp hdata

theorem drained_succ (n : ℕ) :
    drained lib (n + 1) s = drained lib n (ktliDrain lib s).2 :=
  Function.iterate_succ_apply ..

/-- What `n` calls of `ktli_drain` have done. -/
theorem drained_spec (h : s.state = .draining) {n : ℕ} (hn : n ≤ (queued s).length) :
    queued (drained lib n s) = (queued s).drop n ∧ (drained lib n s).state = .draining := by
  induction n generalizing s with
  | zero => exact ⟨rfl, h⟩
  | succ n ih =>
    rcases hq : queued s with _ | ⟨k, rest⟩
    · rw [hq] at hn
      exact absurd hn (Nat.not_succ_le_zero n)
    · obtain ⟨s', hs', hfront⟩ := @ktliDrain_front lib s k rest h hq
      rw [drained_succ, hs', List.drop_succ_cons, ← hfront.queued]
      refine ih (hfront.state.trans h) ?_
      rw [hfront.queued]
      rw [hq, List.length_cons] at hn
      omega

/-- The checks that `ktli_close` makes before it calls the driver. -/
structure ClosePasses (l : Life) : Prop where
  begins : closeBegin l = some (.sizes [.sendq, .recvq, .compq])
  sizes : ∀ rc q todo, closeStep l rc (.sizes (q :: todo)) = some (l, some (.sizes todo))
  driver : ∀ rc, closeStep l rc (.sizes []) = some (l, some .driver)

/-- **Draining a session**: as many calls as kios are queued hand these back, one each, in the order
of the queues and from front to rear, marked as failed and on no queue; the next call returns none
and opens the session, and `ktli_close` passes its checks. -/
theorem drains_all (lib : ListLib KioId) {s : Session} (h : s.state = .draining) :
    (∀ i k, (queued s)[i]? = some k → ∃ s', ktliDrain lib (drained lib i s) = ((1, some k), s') ∧
        s' = drained lib (i + 1) s ∧ (s'.kio k).state = .failed ∧ (s'.kio k).qbp = none) ∧
      ∃ s', ktliDrain lib (drained lib (queued s).length s) = ((0, none), s') ∧
        s'.state = .opened ∧ (∀ q, (s'.queue q).items = []) ∧
        ∀ l : Life, l.toSession = s' → (∀ q, l.freed q = false) → ClosePasses l := by
  constructor
  · intro i k hik
    have hi := (List.getElem?_eq_some_iff.mp hik).1
    obtain ⟨hq, hstate⟩ := @drained_spec lib s h i hi.le
    rw [List.drop_eq_getElem_cons hi, (List.getElem?_eq_some_iff.mp hik).2] at hq
    obtain ⟨s', hs', hfront⟩ := @ktliDrain_front lib _ k _ hstate hq
    refine ⟨s', hs', ?_, ?_, ?_⟩
    · rw [drained, Function.iterate_succ_apply', ← drained, hs']
    · rw [hfront.kio, if_pos rfl]
      rfl
    · rw [hfront.kio, if_pos rfl]
      rfl
  · obtain ⟨hq, hstate⟩ := @drained_spec lib s h _ (Nat.le_refl _)
    rw [List.drop_length] at hq
    have hempty := items_of_queued_nil hq
    refine ⟨_, (ktliDrain_eq hstate).trans (drainRun_empty fun q _ => hempty q), rfl, hempty, ?_⟩
    intro l hl hfreed
    have hopen : l.state = .opened := by
      rw [show l.state = l.toSession.state from rfl, hl]
    have hsize : ∀ q, (l.queue q).size = 0 := by
      intro q
      rw [show l.queue = l.toSession.queue from rfl, hl]
      show (CList.items _).length = 0
      rw [hempty q]
      rfl
    refine ⟨if_pos hopen, fun rc q todo => ?_, fun rc => rfl⟩
    simp only [closeStep, hfreed q, hsize q, Bool.false_eq_true, if_false, if_true]

end Drain

/-- A draining session with kio 1 on sendq and kio 2 on compq. -/
def twoQueued : Session := { (({} : Session).link .sendq 1).link .compq 2 with state := .draining }

theorem twoQueued_drains :
    (∀ i k, (queued twoQueued)[i]? = some k → ∃ s',
        ktliDrain (ListLib.next KioId) (drained (ListLib.next KioId) i twoQueued) =
            ((1, some k), s') ∧
          s' = drained (ListLib.next KioId) (i + 1) twoQueued ∧ (s'.kio k).state = .failed ∧
          (s'.kio k).qbp = none) ∧
      ∃ s', ktliDrain (ListLib.next KioId) (drained (ListLib.next KioId)
          (queued twoQueued).length twoQueued) = ((0, none), s') ∧
        s'.state = .opened ∧ (∀ q, (s'.queue q).items = []) ∧
        ∀ l : Life, l.toSession = s' → (∀ q, l.freed q = false) → ClosePasses l :=
  drains_all (ListLib.next KioId) rfl

/-! ### What `ktli_drain_match` does -/

/-- What the section on a queue leaves in `rc`. -/
def matchCode (lib : ListLib KioId) (s : Session) (k : KioId) (q : QId) : ℤ :=
  if k ∈ (s.queue q).data then 0 else (s.queue q).missCode lib

/-- What is left on some queues without a kio. -/
def leftOn (s : Session) (k : KioId) (todo : List QId) : ℕ :=
  (todo.map fun q => ((s.queue q).data.erase k).length).sum

section Match
variable {lib : ListLib KioId} {s s' : Session} {q : QId} {k : KioId} {todo : List QId}
  {tqlen : ℕ} {rc : ℤ}

/-- What sections on some queues have done. -/
structure Matched (k : KioId) (todo : List QId) (s s' : Session) : Prop where
  inside : ∀ q ∈ todo, (s'.queue q).data = (s.queue q).data.erase k
  outside : ∀ q ∉ todo, s'.queue q = s.queue q
  marked : ∀ q ∈ todo, k ∈ (s.queue q).data → s'.kio k = (s.kio k).drain
  kept : ∀ j, (j = k → ∀ q ∈ todo, k ∉ (s.queue q).data) → s'.kio j = s.kio j

/-- A queue without the kio keeps its kios, wherever its cursor is left. -/
theorem Matched.miss {l : CList KioId} (hl : l.data = (s.queue q).data)
    (habsent : k ∉ (s.queue q).data) : Matched k [q] s ((s.setQueue q l).mvrear q) where
  inside := by
    intro r hr
    obtain rfl := List.mem_singleton.mp hr
    rw [List.erase_of_not_mem habsent, ← hl]
    simp [Session.mvrear, CList.data]
  outside := by
    intro r hr
    have hrq : r ≠ q := fun h => hr (List.mem_singleton.mpr h)
    rw [Session.mvrear, queue_setQueue, if_neg hrq, queue_setQueue, if_neg hrq]
  marked := fun r hr hk => absurd (List.mem_singleton.mp hr ▸ hk) habsent
  kept := by
    intro j _
    rw [kio_mvrear, kio_setQueue]

/-- A queue with the kio loses it, and hands it back. -/
theorem Matched.hit {l : CList KioId} (hl : l.data = (s.queue q).data.erase k)
    (hmem : k ∈ (s.queue q).data) :
    Matched k [q] s ((handBack (s.setQueue q l) k Kio.drain).mvrear q) where
  inside := by
    intro r hr
    obtain rfl := List.mem_singleton.mp hr
    rw [← hl, CList.data, items_mvrear]
    show ((s.setQueue r l).queue r).data = _
    rw [queue_setQueue_self]
  outside := by
    intro r hr
    have hrq : r ≠ q := fun h => hr (List.mem_singleton.mpr h)
    rw [Session.mvrear, queue_setQueue, if_neg hrq]
    show (s.setQueue q l).queue r = _
    rw [queue_setQueue, if_neg hrq]
  marked := by
    intro _ _ _
    rw [kio_mvrear]
    exact kio_setKio_self ..
  kept := by
    intro j hj
    have hjk : j ≠ k := fun h => hj h q (List.mem_singleton_self q) hmem
    rw [kio_mvrear]
    show ((s.setQueue q l).setKio k Kio.drain).kio j = _
    rw [kio_setKio, if_neg hjk, kio_setQueue]

/-- **The section on one queue.** -/
theorem matchLock_spec (lib : ListLib KioId) (s : Session) (k : KioId) (q : QId)
    (todo : List QId) (tqlen : ℕ) :
    ∃ s', matchLock lib s k q todo tqlen =
        some (s', some (.matchLock k todo ((tqlen + ((s.queue q).data.erase k).length) % 2 ^ 32)
          (matchCode lib s k q))) ∧
      Matched k [q] s s' ∧ s'.state = s.state := by
  unfold matchLock
  rcases CList.traverse_cases lib (s.queue q) 0 (fun j => k == j) with ⟨hmiss, hno⟩ |
    ⟨pre, n, a, post, hitems, -, hhit, hbefore, ht⟩
  · -- not on this queue
    rw [List.drop_zero] at hno
    have habsent : k ∉ (s.queue q).data := by
      intro hk
      obtain ⟨p, hp, rfl⟩ := List.mem_map.mp hk
      simpa using hno p hp
    rcases ht : (s.queue q).traverse lib 0 (fun j => k == j) with ⟨code, l⟩
    rw [ht] at hmiss
    have hl : l.data = (s.queue q).data := congrArg (List.map Prod.snd) (CList.items_of_traverse ht)
    have hcode : ¬ (code ≠ lib.listExtent ∧ code ≠ lib.listEmpty) := by
      have hm : code = (s.queue q).missCode lib := hmiss
      rw [hm, CList.missCode]
      split_ifs <;> simp
    have hsize : ((s.setQueue q l).queue q).size = ((s.queue q).data.erase k).length := by
      rw [queue_setQueue_self, List.erase_of_not_mem habsent, ← hl, CList.data, List.length_map]
      rfl
    refine ⟨_, ?_, .miss hl habsent, rfl⟩
    dsimp only
    rw [if_neg hcode, hsize, matchCode, if_neg habsent, ← hmiss]
  · -- the first element that refers to it
    obtain rfl : k = a := by simpa using hhit
    rw [List.drop_zero] at hbefore
    have hpre : k ∉ pre.map Prod.snd := by
      intro hk
      obtain ⟨p, hp, rfl⟩ := List.mem_map.mp hk
      simpa using hbefore p hp
    have hdata : (s.queue q).data = pre.map Prod.snd ++ k :: post.map Prod.snd := by
      rw [CList.data, hitems, List.map_append, List.map_cons]
    have herase : (s.queue q).data.erase k = (pre ++ post).map Prod.snd := by
      rw [hdata, List.erase_append_right _ hpre, List.erase_cons_head, List.map_append]
    have hmem : k ∈ (s.queue q).data := by
      rw [hdata]
      exact List.mem_append_right _ List.mem_cons_self
    have hrem := @CList.removeCurr_of_split _ lib { s.queue q with curr := some pre.length } pre
      post n k hitems rfl
    obtain ⟨l, hl⟩ : ∃ l : CList KioId,
        l = ⟨pre ++ post, lib.afterRemove (pre ++ post) pre.length⟩ := ⟨_, rfl⟩
    rw [← hl] at hrem
    have hldata : l.data = (s.queue q).data.erase k := by rw [herase, hl]; rfl
    refine ⟨_, ?_, .hit hldata hmem, rfl⟩
    rw [ht]
    dsimp only
    rw [if_pos ⟨lib.ok_ne_extent, lib.ok_ne_empty⟩, hrem]
    dsimp only
    rw [if_pos rfl, matchCode, if_pos hmem, ← hldata]
    show some (_, some (Call.matchLock k todo
      ((tqlen + ((s.setQueue q l).queue q).size) % 2 ^ 32) 0)) = _
    rw [queue_setQueue_self, CList.data, List.length_map]
    rfl

/-- **The sections of `ktli_drain_match`**, one after the other: `rc` is what the last one has left
in it. -/
theorem matchRun_spec (lib : ListLib KioId) (k : KioId) : ∀ (todo : List QId) (s : Session)
    (tqlen : ℕ) (rc : ℤ), todo.Nodup → tqlen < 2 ^ 32 →
    ∃ s', matchRun lib k todo s tqlen rc =
        some (todo.foldl (fun _ q => matchCode lib s k q) rc, s') ∧ Matched k todo s s' ∧
      s'.state = if (tqlen + leftOn s k todo) % 2 ^ 32 = 0 then .opened else s.state
  | [], s, tqlen, rc, _, ht => by
    refine ⟨_, rfl, ⟨fun q hq => ?_, fun q _ => ?_, fun q hq => ?_, fun j _ => ?_⟩, ?_⟩
    · cases hq
    · split_ifs <;> rfl
    · cases hq
    · split_ifs <;> rfl
    · rw [leftOn, List.map_nil, List.sum_nil, Nat.add_zero, Nat.mod_eq_of_lt ht]
      split_ifs <;> rfl
  | q :: todo, s, tqlen, rc, hn, ht => by
    obtain ⟨hq, hn⟩ := List.nodup_cons.mp hn
    obtain ⟨s1, hlock, hm1, hst1⟩ := matchLock_spec lib s k q todo tqlen
    have hsame : ∀ r ∈ todo, s1.queue r = s.queue r := by
      intro r hr
      refine hm1.outside r fun h => hq ?_
      rwa [← List.mem_singleton.mp h]
    obtain ⟨s', hrun, hm', hst'⟩ := matchRun_spec lib k todo s1
      ((tqlen + ((s.queue q).data.erase k).length) % 2 ^ 32) (matchCode lib s k q) hn
      (Nat.mod_lt _ (by decide))
    have hcode : ∀ r ∈ todo, matchCode lib s1 k r = matchCode lib s k r := by
      intro r hr
      rw [matchCode, matchCode, hsame r hr]
    have hleft : leftOn s1 k todo = leftOn s k todo := by
      refine congrArg List.sum (List.map_congr_left fun r hr => ?_)
      rw [hsame r hr]
    refine ⟨s', ?_, ⟨fun r hr => ?_, fun r hr => ?_, fun r hr hk => ?_, fun j hj => ?_⟩, ?_⟩
    · rw [matchRun, hlock, List.foldl_cons]
      dsimp only
      rw [hrun]
      refine congrArg some (Prod.ext ?_ rfl)
      exact List.foldl_ext _ _ _ fun _ r hr => hcode r hr
    · rcases List.mem_cons.mp hr with rfl | hr
      · rw [hm'.outside r hq]
        exact hm1.inside r (List.mem_singleton_self r)
      · rw [hm'.inside r hr, hsame r hr]
    · rw [List.mem_cons, not_or] at hr
      rw [hm'.outside r hr.2, hm1.outside r fun h => hr.1 (List.mem_singleton.mp h)]
    · -- the first queue that it is on marks it, and the others do so again
      have h1 : k ∈ (s.queue q).data → s1.kio k = (s.kio k).drain :=
        hm1.marked q (List.mem_singleton_self q)
      have h2 : k ∉ (s.queue q).data → s1.kio k = s.kio k := fun hk =>
        hm1.kept k fun _ r hr => List.mem_singleton.mp hr ▸ hk
      have hdrain : (s1.kio k).drain = (s.kio k).drain := by
        by_cases hq1 : k ∈ (s.queue q).data
        · rw [h1 hq1]
          rfl
        · rw [h2 hq1]
      by_cases hrest : ∃ r ∈ todo, k ∈ (s.queue r).data
      · obtain ⟨r', hr', hk'⟩ := hrest
        rw [hm'.marked r' hr' (by rwa [hsame r' hr']), hdrain]
      · rw [hm'.kept k fun _ r' hr' hk' => hrest ⟨r', hr', by rwa [← hsame r' hr']⟩]
        rcases List.mem_cons.mp hr with rfl | hr
        · exact h1 hk
        · exact absurd ⟨r, hr, hk⟩ hrest
    · rw [hm'.kept j fun h r hr => by rw [hsame r hr]; exact hj h r (List.mem_cons_of_mem _ hr),
        hm1.kept j fun h r hr => hj h r (List.mem_singleton.mp hr ▸ List.mem_cons_self)]
    · rw [hst', hst1, hleft, leftOn, leftOn, List.map_cons, List.sum_cons, ← Nat.add_assoc,
        Nat.mod_add_mod]

end Match

/-- **What a caller may expect** of `ktli_drain_match`: 0 if the kio was on a queue, which it has
then left, marked as failed; -1 if it was not; and an opened session when the queues are empty. -/
structure DrainsMatch (s : Session) (k : KioId) (r : ℤ × Session) : Prop where
  found : r.1 = 0 ↔ ∃ q, k ∈ (s.queue q).data
  missed : (∀ q, k ∉ (s.queue q).data) → r.1 = -1
  queue : ∀ q, (r.2.queue q).data = (s.queue q).data.erase k
  marked : ∀ q, k ∈ (s.queue q).data → r.2.kio k = (s.kio k).drain
  kept : ∀ j, (j = k → ∀ q, k ∉ (s.queue q).data) → r.2.kio j = s.kio j
  opened : r.2.state = .opened ↔ ∀ q, (r.2.queue q).items = []

theorem exists_queue_iff {P : QId → Prop} :
    (∃ q, P q) ↔ P .sendq ∨ P .compq ∨ P .recvq := by
  constructor
  · rintro ⟨_ | _ | _, hq⟩
    · exact .inl hq
    · exact .inr (.inr hq)
    · exact .inr (.inl hq)
  · rintro (hq | hq | hq)
    · exact ⟨_, hq⟩
    · exact ⟨_, hq⟩
    · exact ⟨_, hq⟩

/-- **The code of the last section** says what a caller may expect if the kio was on sendq, or the
code of a queue without it is by chance the one expected. -/
theorem matchCode_sendq_iff (lib : ListLib KioId) (s : Session) (k : KioId) :
    ((matchCode lib s k .sendq = 0 ↔ ∃ q, k ∈ (s.queue q).data) ∧
        ((∀ q, k ∉ (s.queue q).data) → matchCode lib s k .sendq = -1)) ↔
      k ∈ (s.queue .sendq).data ∨
        (k ∈ (s.queue .compq).data ∨ k ∈ (s.queue .recvq).data) ∧
          (s.queue .sendq).missCode lib = 0 ∨
        (∀ q, k ∉ (s.queue q).data) ∧ (s.queue .sendq).missCode lib = -1 := by
  unfold matchCode
  by_cases hs : k ∈ (s.queue .sendq).data
  · have hany : ∃ q, k ∈ (s.queue q).data := ⟨_, hs⟩
    rw [if_pos hs]
    exact iff_of_true ⟨iff_of_true rfl hany, fun hnone => absurd hs (hnone _)⟩ (.inl hs)
  · rw [if_neg hs, or_iff_right hs]
    by_cases hany : ∃ q, k ∈ (s.queue q).data
    · have hothers : k ∈ (s.queue .compq).data ∨ k ∈ (s.queue .recvq).data :=
        (exists_queue_iff.mp hany).resolve_left hs
      have hnone : ¬ ∀ q, k ∉ (s.queue q).data := fun h => not_exists.mpr h hany
      simp only [hany, hothers, hnone, iff_true, true_and, false_and, or_false, false_implies,
        and_true]
    · have hnone : ∀ q, k ∉ (s.queue q).data := not_exists.mp hany
      have hothers : ¬ (k ∈ (s.queue .compq).data ∨ k ∈ (s.queue .recvq).data) := fun h =>
        h.elim (hnone _) (hnone _)
      simp only [hany, hothers, iff_false, false_and, false_or]
      constructor
      · exact fun h => ⟨hnone, h.2 hnone⟩
      · exact fun h => ⟨by rw [h.2]; decide, fun _ => h.2⟩

/-- **`ktli_drain_match`**, and `ktli_receive` on a draining session, do what a caller may expect if
and only if the kio was on sendq, which is searched last, or the code that the list library gives
there is by chance the one expected; and the kios left are not so many that their number is 0 in 32
bits. -/
theorem drainMatch_iff (lib : ListLib KioId) {s : Session} (h : s.state = .draining) (k : KioId) :
    ∃ r, ktliDrainMatch lib s k = some r ∧ ktliReceive lib s k = some r ∧
      (DrainsMatch s k r ↔
        (k ∈ (s.queue .sendq).data ∨
          (k ∈ (s.queue .compq).data ∨ k ∈ (s.queue .recvq).data) ∧
            (s.queue .sendq).missCode lib = 0 ∨
          (∀ q, k ∉ (s.queue q).data) ∧ (s.queue .sendq).missCode lib = -1) ∧
        (leftOn s k drainOrder % 2 ^ 32 = 0 → leftOn s k drainOrder = 0)) := by
  obtain ⟨s', hrun, hm, hst⟩ := matchRun_spec lib k drainOrder s 0 (-1) (by decide) (by decide)
  have hmatch : ktliDrainMatch lib s k = some (matchCode lib s k .sendq, s') := by
    rw [ktliDrainMatch, matchCheck, if_pos h]
    exact hrun
  have hreceive : ktliReceive lib s k = ktliDrainMatch lib s k := by
    rw [ktliReceive, receiveBegin, h]
  refine ⟨_, hmatch, hreceive.trans hmatch, ?_⟩
  have hqueue : ∀ q, (s'.queue q).data = (s.queue q).data.erase k := fun q =>
    hm.inside q (mem_drainOrder q)
  have hempty : leftOn s k drainOrder = 0 ↔ ∀ q, (s'.queue q).items = [] := by
    rw [leftOn, List.sum_eq_zero_iff]
    constructor
    · intro h0 q
      have hlen := h0 _ (List.mem_map_of_mem (mem_drainOrder q))
      rw [List.length_eq_zero_iff, ← hqueue] at hlen
      exact List.map_eq_nil_iff.mp hlen
    · intro h0 n hn
      obtain ⟨q, -, rfl⟩ := List.mem_map.mp hn
      rw [← hqueue, CList.data, h0 q]
      rfl
  have hstate : s'.state = .opened ↔ leftOn s k drainOrder % 2 ^ 32 = 0 := by
    rw [hst, Nat.zero_add, h]
    split_ifs with h0
    · exact iff_of_true rfl h0
    · exact iff_of_false (by decide) h0
  have hopened : (s'.state = .opened ↔ ∀ q, (s'.queue q).items = []) ↔
      (leftOn s k drainOrder % 2 ^ 32 = 0 → leftOn s k drainOrder = 0) := by
    rw [hstate, ← hempty]
    exact ⟨Iff.mp, fun himp => ⟨himp, fun h0 => by rw [h0]; rfl⟩⟩
  rw [← hopened, ← matchCode_sendq_iff]
  constructor
  · intro hd
    exact ⟨⟨hd.found, hd.missed⟩, hd.opened⟩
  · rintro ⟨⟨hfound, hmissed⟩, hop⟩
    refine ⟨hfound, hmissed, hqueue, fun q => hm.marked q (mem_drainOrder q), fun j hj => ?_, hop⟩
    exact hm.kept j fun hjk q _ => hj hjk q

/-- Kio 1 on sendq is drained as it should be. -/
theorem sendq_matched : ∃ r, ktliDrainMatch (ListLib.next KioId) twoQueued 1 = some r ∧
    ktliReceive (ListLib.next KioId) twoQueued 1 = some r ∧
    (DrainsMatch twoQueued 1 r ↔
      (1 ∈ (twoQueued.queue .sendq).data ∨
        (1 ∈ (twoQueued.queue .compq).data ∨ 1 ∈ (twoQueued.queue .recvq).data) ∧
          (twoQueued.queue .sendq).missCode (ListLib.next KioId) = 0 ∨
        (∀ q, 1 ∉ (twoQueued.queue q).data) ∧
          (twoQueued.queue .sendq).missCode (ListLib.next KioId) = -1) ∧
      (leftOn twoQueued 1 drainOrder % 2 ^ 32 = 0 → leftOn twoQueued 1 drainOrder = 0)) :=
  drainMatch_iff (ListLib.next KioId) rfl 1

/-- **A kio on compq** is taken off and marked, and the call does not return 0. -/
theorem compq_matched_in_vain : ∃ r s', ktliReceive (ListLib.next KioId) twoQueued 2 = some (r, s') ∧
    r ≠ 0 ∧ 2 ∈ (twoQueued.queue .compq).data ∧ 2 ∉ (s'.queue .compq).data ∧
    (s'.kio 2).state = .failed ∧ ¬ DrainsMatch twoQueued 2 (r, s') := by
  refine ⟨1, _, rfl, by decide, by decide, by decide, by decide, fun h => ?_⟩
  exact absurd (h.found.mpr ⟨.compq, by decide⟩) (by decide)

end Libkinetic.Ktli
