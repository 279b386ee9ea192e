import Libkinetic.Ktli.Receiver

/-! # The timeout sweep

What one sweep of the receiver over recvq does, for a list library that leaves the cursor on the
successor of a removed element, or on the new rear: it ends, and it moves the expired kios, and no
others, to the rear of compq. The removals and the traversals that resume at the cursor are followed
by splitting the queue at the cursor. -/

namespace Libkinetic.Ktli

open Libkinetic.Base.CursorList

/-! ### One sweep -/

/-- The search from the front and the loop, for a current time. -/
def sweepPass (lib : ListLib KioId) (cur : Timespec) (s : Session) : Option Session :=
  let (rc, l) := (s.queue .recvq).traverse lib 0 fun j => timechk cur (s.kio j)
  sweepLoop lib cur (s.queue .recvq).size rc (s.setQueue .recvq l)

/-- **The section under the mutex of recvq** makes a sweep if a new second has begun. -/
theorem sweep_eq (lib : ListLib KioId) (s : Session) : sweep lib s =
    if s.lastcheck.tvSec = (clockGettime s.now).tvSec then some (s.mvrear .recvq)
    else (sweepPass lib (clockGettime s.now) s).map fun s' =>
      { s' with lastcheck := clockGettime s.now }.mvrear .recvq := rfl

/-- The loop ends, in a number of turns that is not bounded beforehand. -/
inductive SweepRun (lib : ListLib KioId) (cur : Timespec) : ℤ → Session → Session → Prop
  | done {rc : ℤ} {s : Session} (h : rc ≠ lib.listOk) : SweepRun lib cur rc s s
  | turn {s s1 s' : Session} {k : KioId} {l l1 : CList KioId} {rc1 : ℤ}
      (hrem : (s.queue .recvq).removeCurr lib = (some k, l))
      (h1 : s1 = timeOut (s.setQueue .recvq l) k)
      (ht : (s1.queue .recvq).traverse lib (s1.queue .recvq).currPos
        (fun j => timechk cur (s1.kio j)) = (rc1, l1))
      (h : SweepRun lib cur rc1 (s1.setQueue .recvq l1) s') :
      SweepRun lib cur lib.listOk s s'

/-- The cursor after the removal of the current element: on its successor, or on the new rear. -/
def FollowsRemoval (lib : ListLib KioId) : Prop := ∀ l i, lib.afterRemove l i =
  if i < l.length then some i else if l = [] then none else some (l.length - 1)

/-! ### Kios that are timed out -/

/-- `moved` was moved to the rear of compq. -/
structure Moved (moved : List KioId) (s s' : Session) : Prop where
  compq : ∃ new, (s'.queue .compq).items = (s.queue .compq).items ++ new ∧
    new.map Prod.snd = moved
  sendq : s'.queue .sendq = s.queue .sendq
  timedout : ∀ k ∈ moved, (s'.kio k).state = .timedout ∧ (s'.kio k).errno = ETIMEDOUT ∧
    ∃ n, (s'.kio k).qbp = some n ∧ (n, k) ∈ (s'.queue .compq).items
  kept : ∀ k ∉ moved, s'.kio k = s.kio k
  timeout : ∀ k, (s'.kio k).timeout = (s.kio k).timeout

section Moving
variable {lib : ListLib KioId} {cur : Timespec} {s s1 s' : Session} {k : KioId}
  {ks ks' : List KioId}

theorem Moved.refl (s : Session) : Moved [] s s :=
  ⟨⟨[], (List.append_nil _).symm, rfl⟩, rfl, fun _ hk => (List.not_mem_nil hk).elim,
    fun _ _ => rfl, fun _ => rfl⟩

theorem Moved.trans (h : Moved ks s s1) (h' : Moved ks' s1 s') : Moved (ks ++ ks') s s' := by
  obtain ⟨new, hnew, hks⟩ := h.compq
  obtain ⟨new', hnew', hks'⟩ := h'.compq
  refine ⟨⟨new ++ new', ?_, ?_⟩, h'.sendq.trans h.sendq, fun k hk => ?_, fun k hk => ?_,
    fun k => (h'.timeout k).trans (h.timeout k)⟩
  · rw [hnew', hnew, List.append_assoc]
  · rw [List.map_append, hks, hks']
  · by_cases hk' : k ∈ ks'
    · exact h'.timedout k hk'
    · obtain ⟨hst, herr, n, hqbp, hn⟩ := h.timedout k ((List.mem_append.mp hk).resolve_right hk')
      rw [h'.kept k hk']
      refine ⟨hst, herr, n, hqbp, ?_⟩
      rw [hnew']
      exact List.mem_append_left _ hn
  · rw [List.mem_append, not_or] at hk
    rw [h'.kept k hk.2, h.kept k hk.1]

/-- A change of recvq alone. -/
theorem moved_setQueue (l : CList KioId) : Moved [] s (s.setQueue .recvq l) := by
  refine ⟨⟨[], ?_, rfl⟩, ?_, fun _ hk => (List.not_mem_nil hk).elim, fun _ _ => rfl, fun _ => rfl⟩
  · rw [queue_setQueue, if_neg (by decide), List.append_nil]
  · rw [queue_setQueue, if_neg (by decide)]

theorem queue_timeOut_recvq (s : Session) (k : KioId) :
    (timeOut s k).queue .recvq = s.queue .recvq := by
  unfold timeOut
  rw [queue_setKio, link_eq, queue_setKio, queue_setQueue, if_neg (by decide), queue_setKio]

/-- **One kio is timed out.** -/
theorem moved_timeOut (s : Session) (k : KioId) : Moved [k] s (timeOut s k) := by
  have hitems : ((timeOut s k).queue .compq).items =
      (s.queue .compq).items ++ [(s.nextNode, k)] := by
    unfold timeOut
    rw [queue_setKio, items_link, if_pos rfl]
    rfl
  have hkio : ∀ j, (timeOut s k).kio j = if j = k then
      { s.kio k with errno := ETIMEDOUT, qbp := some s.nextNode, state := .timedout }
      else s.kio j := by
    intro j
    unfold timeOut
    rw [kio_setKio, kio_link, kio_link, kio_setKio, if_pos rfl, if_pos rfl]
    split_ifs with hj
    · rfl
    · rw [kio_setKio, if_neg hj]
  refine ⟨⟨_, hitems, rfl⟩, ?_, fun j hj => ?_, fun j hj => ?_, fun j => ?_⟩
  · unfold timeOut
    rw [queue_setKio, link_eq, queue_setKio, queue_setQueue, if_neg (by decide), queue_setKio]
  · obtain rfl := List.mem_singleton.mp hj
    rw [hkio, if_pos rfl]
    refine ⟨rfl, rfl, s.nextNode, rfl, ?_⟩
    rw [hitems]
    exact List.mem_append_right _ (List.mem_singleton_self _)
  · rw [hkio, if_neg fun h => hj (List.mem_singleton.mpr h)]
  · rw [hkio]
    split_ifs with hj
    · rw [hj]
    · rfl

theorem Moved.timechk (h : Moved ks s s') (cur : Timespec) (j : KioId) :
    timechk cur (s'.kio j) = timechk cur (s.kio j) := by
  unfold Libkinetic.Ktli.timechk
  rw [h.timeout]

end Moving

/-! ### The loop -/

/-- The element refers to an expired kio. -/
def Session.expired (s : Session) (cur : Timespec) (p : ℕ × KioId) : Bool :=
  timechk cur (s.kio p.2)

section Sweeping
variable {lib : ListLib KioId} {cur : Timespec} {s : Session}

/-- What a sweep leaves behind. -/
structure SweptFrom (cur : Timespec) (pre todo : List (ℕ × KioId)) (s s' : Session) : Prop where
  recvq : (s'.queue .recvq).items = pre ++ todo.filter fun p => !s.expired cur p
  moved : Moved ((todo.filter (s.expired cur)).map Prod.snd) s s'

/-- **One turn** at a hit: the current kio is timed out, and the cursor stands on what follows it, or
on an element that has been passed. -/
theorem turn_spec (hlib : FollowsRemoval lib) {pre post : List (ℕ × KioId)} {n : ℕ} {k : KioId}
    (hq : s.queue .recvq = ⟨pre ++ (n, k) :: post, some pre.length⟩) :
    ∃ l, (s.queue .recvq).removeCurr lib = (some k, l) ∧ l.items = pre ++ post ∧
      l.currPos ≤ pre.length ∧ Moved [k] s (timeOut (s.setQueue .recvq l) k) ∧
      (timeOut (s.setQueue .recvq l) k).queue .recvq = l := by
  refine ⟨⟨pre ++ post, lib.afterRemove (pre ++ post) pre.length⟩,
    CList.removeCurr_of_split (by rw [hq]) (by rw [hq]), rfl, ?_,
    (moved_setQueue _).trans (moved_timeOut _ k),
    by rw [queue_timeOut_recvq, queue_setQueue_self]⟩
  have hpos := hlib (pre ++ post) pre.length
  unfold CList.currPos
  dsimp only
  rw [hpos]
  split_ifs with hlt hnil
  · exact Nat.le_refl _
  · rw [hnil]
    exact Nat.zero_le _
  · rw [Option.getD_some]
    omega

/-- A hit that follows `pre` leaves some of `post` behind. -/
theorem split_of_hit {α : Type*} {pre post pre' post' : List α} {x : α}
    (h : pre ++ post = pre' ++ x :: post') (hx : x ∉ pre) :
    ∃ mid, pre' = pre ++ mid ∧ post = mid ++ x :: post' := by
  rcases List.append_eq_append_iff.mp h with ⟨mid, hmid, hpost⟩ | ⟨mid, hpre, hmid⟩
  · exact ⟨mid, hmid, hpost⟩
  · rcases mid with _ | ⟨y, mid⟩
    · exact ⟨[], by simpa using hpre.symm, by simpa using hmid.symm⟩
    · obtain ⟨rfl, -⟩ := List.cons.inj hmid
      exact (hx (by rw [hpre]; simp)).elim

theorem Moved.expired {ks : List KioId} {s' : Session} (h : Moved ks s s') :
    s'.expired cur = s.expired cur := by
  funext p
  exact h.timechk cur p.2

theorem filter_expired_nil {l : List (ℕ × KioId)} (h : ∀ p ∈ l, s.expired cur p = false) :
    l.filter (s.expired cur) = [] ∧ (l.filter fun p => !s.expired cur p) = l := by
  constructor
  · rw [List.filter_eq_nil_iff]
    intro p hp
    rw [h p hp]
    exact Bool.false_ne_true
  · rw [List.filter_eq_self]
    intro p hp
    rw [h p hp]
    rfl

/-- Nothing more to time out. -/
theorem sweptFrom_of_miss {pre todo : List (ℕ × KioId)} {l : CList KioId}
    (hl : l.items = pre ++ todo) (hmiss : ∀ p ∈ todo, s.expired cur p = false) :
    SweptFrom cur pre todo s (s.setQueue .recvq l) := by
  obtain ⟨hnone, hall⟩ := filter_expired_nil hmiss
  constructor
  · rw [queue_setQueue_self, hl, hall]
  · rw [hnone]
    exact moved_setQueue l

/-- What was passed on the way to the next hit is added to what was passed before. -/
theorem SweptFrom.skip {pre mid todo : List (ℕ × KioId)} {s' : Session}
    (hmid : ∀ p ∈ mid, s.expired cur p = false) (h : SweptFrom cur (pre ++ mid) todo s s') :
    SweptFrom cur pre (mid ++ todo) s s' := by
  obtain ⟨hnone, hall⟩ := filter_expired_nil hmid
  constructor
  · rw [h.recvq, List.filter_append, hall, List.append_assoc]
  · rw [List.filter_append, hnone]
    exact h.moved

/-- A kio is timed out, and the rest is swept. -/
theorem SweptFrom.turn {pre post : List (ℕ × KioId)} {n : ℕ} {k : KioId} {s1 s' : Session}
    (hk : s.expired cur (n, k) = true) (hmoved : Moved [k] s s1)
    (h : SweptFrom cur pre post s1 s') : SweptFrom cur pre ((n, k) :: post) s s' := by
  have hexp : s1.expired cur = s.expired cur := hmoved.expired
  have hmoved' := hmoved.trans h.moved
  rw [hexp] at hmoved'
  constructor
  · rw [h.recvq, hexp, List.filter_cons_of_neg (by simp [hk])]
  · rw [List.filter_cons_of_pos hk]
    exact hmoved'

/-- **The loop**, from a hit on: `pre` has been passed, and `post` is still to come. -/
theorem sweepLoop_spec (hlib : FollowsRemoval lib) (pre post : List (ℕ × KioId)) (n : ℕ)
    (k : KioId) (s : Session)
    (hq : s.queue .recvq = ⟨pre ++ (n, k) :: post, some pre.length⟩)
    (hk : s.expired cur (n, k) = true) (hpre : ∀ p ∈ pre, s.expired cur p = false) :
    ∃ s', SweepRun lib cur lib.listOk s s' ∧
      (∀ fuel, post.length < fuel → sweepLoop lib cur fuel lib.listOk s = some s') ∧
      SweptFrom cur pre ((n, k) :: post) s s' := by
  -- the elements that the cursor has still to pass grow fewer with every turn
  induction hm : post.length using Nat.strong_induction_on generalizing pre post n k s with
  | _ m ih =>
    obtain ⟨l, hrem, hl, hpos, hmoved, hq1⟩ := turn_spec hlib hq
    generalize h1 : timeOut (s.setQueue .recvq l) k = s1 at hmoved hq1
    have hexp : s1.expired cur = s.expired cur := hmoved.expired
    rcases ht : (s1.queue .recvq).traverse lib (s1.queue .recvq).currPos
      (fun j => timechk cur (s1.kio j)) with ⟨rc, l1⟩
    have hloop : ∀ fuel, sweepLoop lib cur (fuel + 1) lib.listOk s =
        sweepLoop lib cur fuel rc (s1.setQueue .recvq l1) := by
      intro fuel
      rw [sweepLoop, if_neg (not_not.mpr rfl), hrem]
      dsimp only
      rw [h1, ht]
    have hl1 : l1.items = l.items := by rw [CList.items_of_traverse ht, hq1]
    have hcases := CList.traverse_cases lib (s1.queue .recvq) (s1.queue .recvq).currPos
      fun j => timechk cur (s1.kio j)
    rw [ht, hq1, hl] at hcases
    rcases hcases with ⟨hmiss, hrest⟩ | ⟨pre', n', k', post', hsplit, hstart, hhit, hskip, heq⟩
    · -- nothing behind the cursor has expired
      have hrc : rc ≠ lib.listOk := by
        rw [show rc = _ from hmiss]
        exact CList.missCode_ne_ok lib l
      have hpost : ∀ p ∈ post, s1.expired cur p = false := by
        intro p hp
        refine hrest p ?_
        rw [List.drop_append_of_le_length hpos]
        exact List.mem_append_right _ hp
      refine ⟨s1.setQueue .recvq l1, .turn hrem h1.symm ht (.done hrc), ?_,
        .turn hk hmoved (sweptFrom_of_miss (hl1.trans hl) hpost)⟩
      intro fuel hfuel
      obtain ⟨fuel, rfl⟩ := Nat.exists_eq_succ_of_ne_zero (Nat.ne_zero_of_lt hfuel)
      rw [hloop]
      rcases fuel with _ | f
      · rfl
      · rw [sweepLoop, if_pos hrc]
    · -- the next hit is behind what has been passed
      obtain ⟨rfl, rfl⟩ := Prod.mk.inj heq
      have hnew : (n', k') ∉ pre := by
        intro hmem
        have hlate : timechk cur (s1.kio k') = false := by
          rw [← hpre _ hmem, ← hexp]
          rfl
        rw [hhit] at hlate
        exact Bool.noConfusion hlate
      obtain ⟨mid, rfl, rfl⟩ := split_of_hit hsplit hnew
      have hmid : ∀ p ∈ mid, s1.expired cur p = false := by
        intro p hp
        refine hskip p ?_
        rw [List.drop_append_of_le_length hpos]
        exact List.mem_append_right _ hp
      rw [List.length_append, List.length_cons] at hm
      obtain ⟨s', hrun, hfuels, hswept⟩ := ih post'.length (by omega) (pre ++ mid) post' n' k'
        (s1.setQueue .recvq ⟨pre ++ (mid ++ (n', k') :: post'), some (pre ++ mid).length⟩)
        (by rw [queue_setQueue_self, List.append_assoc]) hhit
        (fun p hp => (List.mem_append.mp hp).elim
          (fun hp => (congrFun hexp p).trans (hpre p hp)) (hmid p)) rfl
      have hmoved' : ∀ l1, Moved [k] s (s1.setQueue .recvq l1) :=
        fun l1 => hmoved.trans (moved_setQueue l1)
      refine ⟨s', .turn hrem h1.symm ht hrun, ?_, .turn hk (hmoved' _) (.skip hmid hswept)⟩
      intro fuel hfuel
      obtain ⟨fuel, rfl⟩ := Nat.exists_eq_succ_of_ne_zero (Nat.ne_zero_of_lt hfuel)
      rw [hloop]
      exact hfuels fuel (by omega)

/-- **One sweep** ends, whatever recvq holds and whatever the time is: the expired kios, and no
others, go to the rear of compq in their order, and the others keep theirs. The section of the
receiver makes this sweep when a new second has begun. -/
theorem sweep_moves_expired (lib : ListLib KioId) (hlib : FollowsRemoval lib) (cur : Timespec)
    (s : Session) : ∃ s', sweepPass lib cur s = some s' ∧
      SweptFrom cur [] (s.queue .recvq).items s s' ∧
      (∃ rc l, (s.queue .recvq).traverse lib 0 (fun j => timechk cur (s.kio j)) = (rc, l) ∧
        SweepRun lib cur rc (s.setQueue .recvq l) s') ∧
      (s.lastcheck.tvSec ≠ cur.tvSec → cur = clockGettime s.now →
        sweep lib s = some ({ s' with lastcheck := cur }.mvrear .recvq)) := by
  rcases ht : (s.queue .recvq).traverse lib 0 (fun j => timechk cur (s.kio j)) with ⟨rc, l⟩
  have hl := CList.items_of_traverse ht
  have hpass : sweepPass lib cur s =
      sweepLoop lib cur (s.queue .recvq).size rc (s.setQueue .recvq l) := by
    unfold sweepPass
    rw [ht]
  have hsweep : ∀ s', sweepPass lib cur s = some s' → s.lastcheck.tvSec ≠ cur.tvSec →
      cur = clockGettime s.now →
        sweep lib s = some ({ s' with lastcheck := cur }.mvrear .recvq) := by
    rintro s' hs' hsec rfl
    rw [sweep_eq, if_neg hsec, hs']
    rfl
  have hcases := CList.traverse_cases lib (s.queue .recvq) 0 fun j => timechk cur (s.kio j)
  rw [ht] at hcases
  rcases hcases with ⟨hmiss, hrest⟩ | ⟨pre, n, k, post, hsplit, -, hhit, hskip, heq⟩
  · have hrc : rc ≠ lib.listOk := by
      rw [show rc = _ from hmiss]
      exact CList.missCode_ne_ok lib _
    have hs' : sweepPass lib cur s = some (s.setQueue .recvq l) := by
      rw [hpass]
      rcases (s.queue .recvq).size with _ | f
      · rfl
      · rw [sweepLoop, if_pos hrc]
    exact ⟨_, hs', sweptFrom_of_miss hl hrest, ⟨rc, l, rfl, .done hrc⟩, hsweep _ hs'⟩
  · obtain ⟨rfl, rfl⟩ := Prod.mk.inj heq
    have hq : (s.setQueue .recvq ⟨(s.queue .recvq).items, some pre.length⟩).queue .recvq =
        ⟨pre ++ (n, k) :: post, some pre.length⟩ := by
      rw [queue_setQueue_self, hsplit]
    obtain ⟨s', hrun, hfuels, hswept⟩ := sweepLoop_spec hlib pre post n k _ hq hhit hskip
    have hs' : sweepPass lib cur s = some s' := by
      rw [hpass]
      refine hfuels _ ?_
      rw [CList.size, hsplit, List.length_append, List.length_cons]
      omega
    have hall : SweptFrom cur [] (pre ++ (n, k) :: post) (s.setQueue .recvq _) s' :=
      .skip hskip hswept
    refine ⟨s', hs', ?_, ⟨_, _, rfl, hrun⟩, hsweep s' hs'⟩
    rw [hsplit]
    exact ⟨hall.recvq, (moved_setQueue _).trans hall.moved⟩

end Sweeping

/-- Four kios wait for responses; the second, the third and the last are late. -/
def lateSession : Session where
  queue q := if q = .recvq then ⟨[(0, 5), (1, 6), (2, 7), (3, 8), (4, 9)], some 4⟩ else {}
  kio k := { timeout := ⟨if k = 5 ∨ k = 8 then 40 else 30, 0⟩ }
  nextNode := 5

theorem lateSession_swept : FollowsRemoval (.next KioId) ∧
    ∃ s', sweepPass (.next KioId) ⟨35, 0⟩ lateSession = some s' ∧
      (s'.queue .recvq).items = [(0, 5), (3, 8)] ∧ (s'.queue .compq).data = [6, 7, 9] := by
  have hlib : FollowsRemoval (.next KioId) := by
    intro l i
    unfold ListLib.next
    cases l <;> rfl
  obtain ⟨s', hs', hswept, -⟩ := sweep_moves_expired (.next KioId) hlib ⟨35, 0⟩ lateSession
  obtain ⟨new, hnew, hdata⟩ := hswept.moved.compq
  refine ⟨hlib, s', hs', ?_, ?_⟩
  · rw [hswept.recvq]
    decide
  · rw [CList.data, hnew, List.map_append, hdata]
    decide

end Libkinetic.Ktli
