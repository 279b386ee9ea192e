import Libkinetic.Base.Fifo
import Libkinetic.Ktli.Timeout

/-! # The order of requests and their sequence numbers

sendq is first in, first out: the sender hands the requests to the driver in the order in which
`ktli_send` queued them, but for those that were drained, and numbers them 100, 101 and so on. A log
beside the session says which kios were queued and drained, which the sender took and numbered, and
which the driver got (`sent_in_order`). -/

namespace Libkinetic.Ktli

open Libkinetic.Base.CursorList Libkinetic.Base.Runs Libkinetic.Base.Fifo

/-! ### The log -/

structure SendLog where
  sendq : History KioId := {}
  /-- The kios the sender took, with the sequence numbers they got. -/
  sequenced : List (KioId × ℤ) := []
  /-- The kios handed to the driver, with their sequence numbers by then. -/
  sent : List (KioId × ℤ) := []
deriving DecidableEq

/-- What a step adds to the log. -/
def record (s : System) (a : Act) (s' : System) (l : SendLog) : SendLog :=
  match a with
  | .call (.sendLock k) true => { l with sendq := l.sendq.enter k }
  -- a drain takes what it finds on sendq
  | .call _ _ =>
    { l with sendq := l.sendq.drop ((s.queue .sendq).data.filter (· ∉ (s'.queue .sendq).data)) }
  | .sender _ _ =>
    match s.sender, s'.sender with
    | .take, .taken k => { l with sendq := l.sendq.leave k }
    | .taken _, .sequenced k => { l with sequenced := l.sequenced ++ [(k, (s'.kio k).seq)] }
    | .timed k, .sent _ _ _ => { l with sent := l.sent ++ [(k, (s.kio k).seq)] }
    | _, _ => l
  | _ => l

/-- A session as `ktli_open` leaves it, and nothing logged. -/
def InitLog (p : System × SendLog) : Prop := Init p.1 ∧ p.2 = {}

/-! ### Sections that number nothing -/

/-- What a section does that leaves sendq and the sequence numbers alone. -/
structure Quiet (s s' : Session) : Prop where
  state : s'.state = s.state
  sendq : (s'.queue .sendq).data = (s.queue .sendq).data
  sequence : s'.sequence = s.sequence
  seq : ∀ k ∈ s.issued, (s'.kio k).seq = (s.kio k).seq
  issued : s.issued ⊆ s'.issued

section Quiet
variable {lib : ListLib KioId} {s s1 s2 s' : Session} {q : QId} {k : KioId} {rc err : ℤ}
  {f : Kio → Kio} {l : CList KioId}

theorem Quiet.refl : Quiet s s := ⟨rfl, rfl, rfl, fun _ _ => rfl, List.Subset.refl _⟩

theorem Quiet.trans (h1 : Quiet s s1) (h2 : Quiet s1 s2) : Quiet s s2 where
  state := h2.state.trans h1.state
  sendq := h2.sendq.trans h1.sendq
  sequence := h2.sequence.trans h1.sequence
  seq k hk := (h2.seq k (h1.issued hk)).trans (h1.seq k hk)
  issued := List.Subset.trans h1.issued h2.issued

theorem Quiet.setKio (hf : ∀ x, (f x).seq = x.seq) : Quiet s (s.setKio k f) :=
  ⟨rfl, rfl, rfl, fun j _ => kio_setKio_field s k j f Kio.seq hf, List.Subset.refl _⟩

theorem Quiet.unqbp : Quiet s (s.unqbp k) := by
  unfold Session.unqbp
  exact .setKio fun _ => rfl

theorem Quiet.setQueue (hq : q ≠ .sendq) : Quiet s (s.setQueue q l) := by
  refine ⟨rfl, ?_, rfl, fun _ _ => rfl, List.Subset.refl _⟩
  rw [queue_setQueue, if_neg hq.symm]

theorem Quiet.mvrear : Quiet s (s.mvrear q) :=
  ⟨rfl, congrArg (List.map Prod.snd) (items_mvrear s q .sendq), rfl, fun _ _ => rfl,
    List.Subset.refl _⟩

theorem Quiet.insertAfter (hq : q ≠ .sendq) : Quiet s (s.insertAfter q k) := by
  have h1 : Quiet s (s.setQueue q ((s.queue q).insertAfter s.nextNode k)) := .setQueue hq
  have h2 := h1.trans (.setKio (k := k)
    (f := fun x => { x with qbp := ((s.queue q).insertAfter s.nextNode k).elementCurr })
    fun _ => rfl)
  exact ⟨h2.state, h2.sendq, h2.sequence, h2.seq, h2.issued⟩

theorem Quiet.link (hq : q ≠ .sendq) : Quiet s (s.link q k) := Quiet.mvrear.trans (.insertAfter hq)

/-- A new kio has no number yet that anything depends on. -/
theorem Quiet.issue {x : Kio} (hk : k ∉ s.issued) : Quiet s (s.issue k x) := by
  refine ⟨rfl, rfl, rfl, fun j hj => ?_, List.subset_cons_self _ _⟩
  have hjk : j ≠ k := by rintro rfl; exact hk hj
  show ((s.setKio k fun _ => x).kio j).seq = _
  rw [kio_setKio, if_neg hjk]

theorem moveAll_quiet (hq : q ≠ .sendq) (n : ℕ) : Quiet s (moveAll lib q n s) := by
  refine moveAll_rule (fun _ => .refl) (fun _ _ _ => .trans) fun s k l m _ => ?_
  have h1 : Quiet s ((s.setQueue q l).setKio k Kio.abort) :=
    (Quiet.setQueue hq).trans (.setKio fun _ => rfl)
  exact h1.trans (.insertAfter (by decide))

theorem timeOut_quiet : Quiet s (timeOut s k) := by
  unfold timeOut
  refine Quiet.trans (Quiet.trans (.setKio ?_) (.link (by decide))) (.setKio ?_)
  · exact fun _ => rfl
  · exact fun _ => rfl

theorem recvmsgComplete_quiet {msg : ℕ} : Quiet s (recvmsgComplete s k msg) := by
  unfold recvmsgComplete
  refine Quiet.trans (Quiet.trans (.setKio ?_) (.link (by decide))) (.setKio ?_)
  · exact fun _ => rfl
  · exact fun _ => rfl

theorem recvmsgMoves_quiet : Quiet s (recvmsgMoves lib s) :=
  (Quiet.mvrear.trans (moveAll_quiet (by decide) _)).trans (moveAll_quiet (by decide) _)

theorem sweep_quiet (h : sweep lib s = some s') : Quiet s s' := by
  have hq : ∀ s l, Quiet s (s.setQueue .recvq l) := fun s l => .setQueue (by decide)
  refine sweep_rule (fun _ => .refl) (fun _ _ _ => .trans) (fun s l _ => hq s l) ?_ ?_ h
  · exact fun _ _ => ⟨rfl, rfl, rfl, fun _ _ => rfl, List.Subset.refl _⟩
  · exact fun _ s k l _ _ _ _ _ => (hq s l).trans timeOut_quiet

theorem receiverMatch_quiet {aseq : ℤ} {msg : ℕ} {alloc : Option KioId} {pc : ReceiverPc}
    (h : receiverMatch lib s rc aseq msg alloc = some (s', pc)) : Quiet s s' := by
  unfold receiverMatch at h
  split_ifs at h with hfresh
  obtain ⟨⟨m, s1⟩, hm, h⟩ := Option.map_eq_some_iff.mp h
  obtain ⟨rfl, -⟩ := Prod.mk.inj h
  have hq : ∀ l, Quiet s (s.setQueue .recvq l) := fun l => .setQueue (by decide)
  rcases recvmsgMatch_cases hm with ⟨-, -, l, -, rfl⟩ | ⟨-, -, -, rfl⟩ | ⟨k, -, -, rfl, rfl⟩ |
    ⟨i, k, -, hrem, -, -⟩
  · exact hq l
  · exact hq _
  · exact ((hq _).trans (.issue (hfresh k rfl))).trans .mvrear
  · obtain ⟨l, -, rfl⟩ := hrem.eq
    exact ((hq l).trans .unqbp).trans .mvrear

/-- **Every section of the receiver** is quiet, or it only sets the session's state, which it never
sets to opened. -/
theorem receiverStep_quiet {e : ReceiverEnv} {pc pc' : ReceiverPc}
    (h : receiverStep lib s e pc = some (s', pc')) :
    Quiet s s' ∨ ∃ st, st ≠ .opened ∧ s' = { s with state := st } := by
  cases pc with
  | waiting | polling | receiving | disconnecting | swept =>
    obtain ⟨rfl, -⟩ := Prod.mk.inj (Option.some.inj h)
    exact Or.inl .refl
  | matching rc aseq msg => exact Or.inl (receiverMatch_quiet h)
  | matched k msg =>
    obtain ⟨rfl, -⟩ := Prod.mk.inj (Option.some.inj h)
    exact Or.inl recvmsgComplete_quiet
  | aborting | disconnected =>
    obtain ⟨rfl, -⟩ := Prod.mk.inj (Option.some.inj h)
    exact Or.inr ⟨_, by decide, rfl⟩
  | locking held todo =>
    cases todo with
    | nil =>
      obtain ⟨rfl, -⟩ := Prod.mk.inj (Option.some.inj h)
      exact Or.inl recvmsgMoves_quiet
    | cons q todo =>
      simp only [receiverStep] at h
      split_ifs at h
      obtain ⟨rfl, -⟩ := Prod.mk.inj (Option.some.inj h)
      exact Or.inl .refl
  | looping =>
    obtain ⟨s1, h1, h2⟩ := Option.map_eq_some_iff.mp h
    obtain ⟨rfl, -⟩ := Prod.mk.inj h2
    exact Or.inl (sweep_quiet h1)
  | exited => cases h

end Quiet

/-! ### The sections of the calls -/

section Calls
variable {lib : ListLib KioId} {s : Session}

/-- What a section of a call leaves of the sequence numbers: all of them. -/
def KeepsSeq (s s' : Session) : Prop :=
  s'.sequence = s.sequence ∧ ∀ j, (s'.kio j).seq = (s.kio j).seq

theorem Leaves.seq {D : Prop} {x y : Kio} (h : Leaves D x y) : y.seq = x.seq := by
  cases h <;> rfl

/-- **No call numbers a kio.** -/
theorem callStep_seq {c : Call} {mem : Bool} {r : Session × Option Call}
    (h : callStep lib s mem c = some r) : KeepsSeq s r.1 := by
  by_cases hc : c.kio = none
  · exact ⟨(callStep_handsBack h hc).sequence, fun j => ((callStep_leaves h hc).1 j).seq⟩
  · cases c with
    | sendLock k =>
      obtain rfl := Option.some.inj h
      show KeepsSeq s (sendLock s k mem).2
      unfold sendLock
      split_ifs
      · refine ⟨by rw [link_eq]; rfl, fun j => ?_⟩
        show (((s.link .sendq k).setKio k fun x => { x with state := .new }).kio j).seq = _
        rw [kio_setKio_field _ _ _ _ Kio.seq, kio_link_field _ _ _ _ Kio.seq]
        · exact fun _ _ => rfl
        · exact fun _ => rfl
      · exact ⟨rfl, fun j => kio_setKio_field s k j id Kio.seq fun _ => rfl⟩
    | _ => exact absurd rfl hc

end Calls

/-! ### The invariant -/

/-- The kio that is off sendq and has no number yet. -/
def SenderPc.unsequenced : SenderPc → Option KioId
  | .taken k => some k
  | _ => none

/-- The kio that has its number and is not handed to the driver yet. -/
def SenderPc.unsent : SenderPc → Option KioId
  | .sequenced k | .queued k | .timed k => some k
  | _ => none

/-- **The invariant**: the log of sendq is in order, and the sender is at most one kio behind it. -/
structure InOrder (s : System) (l : SendLog) : Prop where
  fifo : Ordered l.sendq (s.queue .sendq).data
  fresh : (s.calls.filterMap Call.kio ++ l.sendq.entered).Nodup
  issued : ∀ k ∈ s.calls.filterMap Call.kio ++ l.sendq.entered, k ∈ s.issued
  taken : l.sequenced.map Prod.fst ++ s.sender.unsequenced.toList = l.sendq.out
  numbers : l.sequenced.map Prod.snd = (List.range l.sequenced.length).map fun i : ℕ => 100 + (i : ℤ)
  sequence : s.sequence = 100 + (l.sequenced.length : ℤ)
  sent : l.sequenced = l.sent ++ s.sender.unsent.toList.map fun k => (k, (s.kio k).seq)

section Step
variable {lib : ListLib KioId} {s s' : System} {l : SendLog} {a : Act} {k : KioId} {rc err : ℤ}

/-- Every kio the sender has taken was issued. -/
theorem InOrder.issued_of_taken (hs : InOrder s l) (hk : k ∈ l.sendq.out) : k ∈ s.issued :=
  hs.issued k (List.mem_append_right _ (hs.fifo.mem_entered (List.mem_append_left _ hk)))

theorem InOrder.issued_of_unsent (hs : InOrder s l) (hk : k ∈ s.sender.unsent) : k ∈ s.issued := by
  have h1 : (k, (s.kio k).seq) ∈ l.sequenced := by
    rw [hs.sent]
    exact List.mem_append_right _ (List.mem_map_of_mem (Option.mem_toList.mpr hk))
  refine hs.issued_of_taken ?_
  rw [← hs.taken]
  exact List.mem_append_left _ (List.mem_map_of_mem (f := Prod.fst) h1)

/-- The numbers of the kios that were issued matter. -/
theorem InOrder.sent_congr (hs : InOrder s l) {r : Session}
    (h : ∀ k ∈ s.issued, (r.kio k).seq = (s.kio k).seq) :
    l.sequenced = l.sent ++ s.sender.unsent.toList.map fun k => (k, (r.kio k).seq) := by
  refine hs.sent.trans (congrArg (l.sent ++ ·) (List.map_congr_left fun k hk => ?_))
  rw [h k (hs.issued_of_unsent (Option.mem_toList.mp hk))]

/-- A step that numbers nothing and takes nothing on or off sendq. -/
theorem InOrder.of_quiet (hs : InOrder s l) (hq : Quiet s.toSession s'.toSession)
    (hcalls : s'.calls.filterMap Call.kio = s.calls.filterMap Call.kio)
    (h1 : s'.sender.unsequenced = s.sender.unsequenced)
    (h2 : s'.sender.unsent = s.sender.unsent) : InOrder s' l := by
  refine ⟨?_, ?_, fun k hk => ?_, ?_, hs.numbers, hq.sequence.trans hs.sequence, ?_⟩
  · rw [hq.sendq]
    exact hs.fifo
  · rw [hcalls]
    exact hs.fresh
  · rw [hcalls] at hk
    exact hq.issued (hs.issued k hk)
  · rw [h1]
    exact hs.taken
  · rw [h2]
    exact hs.sent_congr hq.seq

theorem InOrder.send (hs : InOrder s l) {flags : ℕ} {msg : KioMsg}
    (h : step lib s (.send k flags msg) = some s') : InOrder s' l := by
  obtain ⟨r, hr, rfl⟩ := Option.map_eq_some_iff.mp h
  unfold sendBegin at hr
  split_ifs at hr with hk
  · obtain rfl := Option.some.inj hr
    exact hs.of_quiet .refl rfl rfl rfl
  · obtain rfl := Option.some.inj hr
    exact hs.of_quiet .refl rfl rfl rfl
  · obtain rfl := Option.some.inj hr
    -- the new kio is with its caller
    refine ⟨hs.fifo, ?_, fun j hj => ?_, hs.taken, hs.numbers, hs.sequence,
      hs.sent_congr (Quiet.issue hk).seq⟩
    · exact List.nodup_cons.mpr ⟨fun hj => hk (hs.issued k hj), hs.fresh⟩
    · rcases List.mem_cons.mp hj with rfl | hj
      · exact List.mem_cons_self
      · exact List.mem_cons_of_mem _ (hs.issued j hj)

/-- `ktli_send` queues its kio. -/
theorem InOrder.sendLock (hs : InOrder s l) (hc : Call.sendLock k ∈ s.calls) {r : Session}
    (hr : r = (Ktli.sendLock s.toSession k true).2) (hseq : KeepsSeq s.toSession r) :
    InOrder { s with toSession := r, calls := s.calls.erase (.sendLock k) }
      { l with sendq := l.sendq.enter k } := by
  have hperm : (s.calls.filterMap Call.kio).Perm
      (k :: (s.calls.erase (.sendLock k)).filterMap Call.kio) := filterMap_erase hc
  have hall : (s.calls.filterMap Call.kio ++ l.sendq.entered).Perm
      ((s.calls.erase (.sendLock k)).filterMap Call.kio ++ (l.sendq.enter k).entered) := by
    refine (hperm.append_right _).trans ?_
    show (k :: (_ ++ l.sendq.entered)).Perm (_ ++ (l.sendq.entered ++ [k]))
    rw [← List.append_assoc]
    exact (List.perm_append_singleton k _).symm
  have hk : k ∉ l.sendq.entered := by
    have h1 := (List.nodup_append.mp hs.fresh).2.2
    exact fun h2 => h1 k (hperm.mem_iff.mpr List.mem_cons_self) k h2 rfl
  have hitems : (r.queue .sendq).data = (s.queue .sendq).data ++ [k] := by
    rw [hr]
    show ((s.toSession.link .sendq k).queue .sendq).items.map Prod.snd = _
    rw [items_link, if_pos rfl]
    simp [CList.data]
  have hissued : r.issued = s.issued := by
    rw [hr]
    exact (link_history s.toSession .sendq k).2.2
  refine ⟨?_, hall.nodup_iff.mp hs.fresh, fun j hj => ?_, hs.taken, hs.numbers,
    hseq.1.trans hs.sequence, hs.sent_congr fun j _ => hseq.2 j⟩
  · rw [hitems]
    exact hs.fifo.enter hk
  · rw [hissued]
    exact hs.issued j (hall.mem_iff.mpr hj)

/-- Any other section of a call may take kios off sendq. -/
theorem InOrder.drop (hs : InOrder s l) {r : Session} {calls : List Call}
    (hf : Frame (fun _ => False) s.toSession r) (hseq : KeepsSeq s.toSession r)
    (hcalls : (calls.filterMap Call.kio).Sublist (s.calls.filterMap Call.kio)) :
    InOrder { s with toSession := r, calls }
      { l with
        sendq := l.sendq.drop ((s.queue .sendq).data.filter (· ∉ (r.queue .sendq).data)) } := by
  have hsub : (calls.filterMap Call.kio ++ l.sendq.entered).Sublist
      (s.calls.filterMap Call.kio ++ l.sendq.entered) := hcalls.append_right _
  refine ⟨hs.fifo.drop hf.sendq, hs.fresh.sublist hsub, fun j hj => ?_, hs.taken, hs.numbers,
    hseq.1.trans hs.sequence, hs.sent_congr fun j _ => hseq.2 j⟩
  rw [hf.issued]
  exact hs.issued j (hsub.subset hj)

theorem InOrder.call (hs : InOrder s l) {c : Call} {mem : Bool}
    (h : step lib s (.call c mem) = some s') : InOrder s' (record s (.call c mem) s' l) := by
  simp only [step] at h
  split_ifs at h with hc
  obtain ⟨r, hr, rfl⟩ := Option.map_eq_some_iff.mp h
  have hcalls : (r.2.toList ++ s.calls.erase c).filterMap Call.kio =
      (s.calls.erase c).filterMap Call.kio := filterMap_push (callStep_kio hr)
  have hsub : ((r.2.toList ++ s.calls.erase c).filterMap Call.kio).Sublist
      (s.calls.filterMap Call.kio) := by
    rw [hcalls]
    exact List.erase_sublist.filterMap _
  by_cases hk : c.kio = none
  · have hdrop := hs.drop (callStep_handsBack hr hk).frame (callStep_seq hr) hsub
    cases c with
    | sendLock k => cases hk
    | _ => exact hdrop
  · cases c with
    | sendLock k =>
      have hr' := Option.some.inj hr
      cases mem with
      | true =>
        have h1 := hs.sendLock hc.1 (r := r.1) (by rw [← hr']) (callStep_seq hr)
        rw [← hr'] at h1 ⊢
        exact h1
      | false =>
        refine hs.drop ?_ (callStep_seq hr) hsub
        have h1 : Frame (fun _ => False) s.toSession ((s.toSession.mvrear .sendq).setKio k id) :=
          Frame.mvrear.trans (.setKio (fun _ => rfl) fun _ h => Or.inl h)
        rw [← hr']
        exact ⟨h1.recvq, h1.sendq, h1.timeout, h1.timedout, h1.takenAt, h1.now, h1.issued⟩
    | _ => exact absurd rfl hk

/-- The other steps of the sender leave the queue of unsent kios alone. -/
theorem senderResult_quiet {pc : SenderPc} {r : Session}
    (h : senderResult lib s.toSession k rc = (r, pc)) :
    Quiet s.toSession r ∧ pc.unsequenced = none ∧ pc.unsent = none := by
  unfold senderResult at h
  split_ifs at h <;> obtain ⟨rfl, rfl⟩ := Prod.mk.inj h
  · exact ⟨.refl, rfl, rfl⟩
  · exact ⟨.refl, rfl, rfl⟩
  · refine ⟨?_, rfl, rfl⟩
    unfold senderUnqueue
    exact ((Quiet.setQueue (by decide)).trans .unqbp).trans .mvrear
  · exact ⟨.refl, rfl, rfl⟩

theorem senderQueue_quiet : Quiet s.toSession (senderQueue s.toSession k) := by
  unfold senderQueue
  split_ifs
  · exact .refl
  · exact .link (by decide)

theorem senderTimeout_quiet : Quiet s.toSession (senderTimeout s.toSession k) := by
  unfold senderTimeout
  exact .setKio fun _ => rfl

theorem senderComplete_quiet {st : KioState} :
    Quiet s.toSession (senderComplete s.toSession k st) := by
  unfold senderComplete
  exact (Quiet.link (by decide)).trans (.setKio fun _ => rfl)

/-- The front of sendq is taken. -/
theorem InOrder.take (hs : InOrder s l) (hpc : s.sender = .take) {r : Session}
    (h : senderTake lib s.toSession = some (k, r)) :
    InOrder { s with toSession := r, sender := .taken k } { l with sendq := l.sendq.leave k } := by
  obtain ⟨n, q, hn, rfl⟩ := senderTake_some h
  have hdata : (s.queue .sendq).data = k :: q.data := by simp [CList.data, hn]
  have hfifo := hs.fifo
  rw [hdata] at hfifo
  have htaken := hs.taken
  have hsent := hs.sent
  rw [hpc] at htaken hsent
  refine ⟨?_, hs.fresh, hs.issued, ?_, hs.numbers, hs.sequence, hsent⟩
  · show Ordered (l.sendq.leave k) (((s.setQueue .sendq q).unqbp k).queue .sendq).data
    rw [show ((s.setQueue .sendq q).unqbp k).queue = (s.setQueue .sendq q).queue from rfl,
      queue_setQueue_self]
    exact hfifo.leave
  · show l.sequenced.map Prod.fst ++ [k] = l.sendq.out ++ [k]
    rw [← htaken]
    simp [SenderPc.unsequenced]

/-- The kio gets the next number. -/
theorem InOrder.sequenceNext (hs : InOrder s l) (hpc : s.sender = .taken k) :
    InOrder { s with toSession := senderSequence s.toSession k, sender := .sequenced k }
      { l with
        sequenced := l.sequenced ++ [(k, ((senderSequence s.toSession k).kio k).seq)] } := by
  have hseq : ((senderSequence s.toSession k).kio k).seq = s.sequence := by
    show ((s.toSession.setKio k fun x => { x with seq := s.sequence }).kio k).seq = _
    rw [kio_setKio_self]
  have htaken := hs.taken
  have hsent := hs.sent
  rw [hpc] at htaken hsent
  refine ⟨hs.fifo, hs.fresh, hs.issued, ?_, ?_, ?_, ?_⟩
  · simpa [SenderPc.unsequenced] using htaken
  · rw [hseq, hs.sequence]
    simp [List.range_succ, hs.numbers]
  · show s.sequence + 1 = _
    rw [hs.sequence]
    push_cast [List.length_append, List.length_singleton]
    omega
  · have h1 : l.sequenced = l.sent := by simpa [SenderPc.unsent] using hsent
    show l.sequenced ++ _ = l.sent ++ _
    rw [h1]
    rfl

/-- The driver gets the kio. -/
theorem InOrder.handOver (hs : InOrder s l) (hpc : s.sender = .timed k) {pc : SenderPc}
    (h1 : pc.unsequenced = none) (h2 : pc.unsent = none) :
    InOrder { s with sender := pc } { l with sent := l.sent ++ [(k, (s.kio k).seq)] } := by
  have htaken := hs.taken
  have hsent := hs.sent
  rw [hpc] at htaken hsent
  refine ⟨hs.fifo, hs.fresh, hs.issued, ?_, hs.numbers, hs.sequence, ?_⟩
  · show l.sequenced.map Prod.fst ++ pc.unsequenced.toList = l.sendq.out
    rw [h1]
    exact htaken
  · show l.sequenced = l.sent ++ [(k, (s.kio k).seq)] ++ pc.unsent.toList.map _
    rw [h2]
    simpa [SenderPc.unsent] using hsent

theorem InOrder.sender (hs : InOrder s l) (h : step lib s (.sender rc err) = some s') :
    InOrder s' (record s (.sender rc err) s' l) := by
  have hcalls := (calls_of_sender h).1
  have hstep := sender_step h
  have hkeep : ∀ {pc : SenderPc}, s.sender = pc → Quiet s.toSession s'.toSession →
      s'.sender.unsequenced = pc.unsequenced → s'.sender.unsent = pc.unsent → InOrder s' l := by
    rintro pc rfl hq h1 h2
    exact hs.of_quiet hq (congrArg _ hcalls) h1 h2
  obtain ⟨s1, pc1, rpc1, calls1⟩ := s'
  obtain rfl : calls1 = s.calls := hcalls
  obtain rfl : rpc1 = s.receiver := (calls_of_sender h).2
  cases hpc : s.sender with
  | idle =>
    rw [hpc] at hstep
    obtain ⟨rfl, rfl⟩ := Prod.mk.inj (Option.some.inj hstep)
    simp only [record, hpc]
    exact hkeep hpc .refl rfl rfl
  | woken | loop =>
    rw [hpc] at hstep
    obtain ⟨rfl, rfl⟩ := Prod.mk.inj (Option.some.inj hstep)
    simp only [record, hpc]
    refine hkeep hpc .refl ?_ ?_ <;> dsimp only <;> split_ifs <;> rfl
  | take =>
    rw [hpc] at hstep
    obtain ⟨⟨k, r⟩, h1, h2⟩ := Option.map_eq_some_iff.mp hstep
    obtain ⟨rfl, rfl⟩ := Prod.mk.inj h2
    simp only [record, hpc]
    exact hs.take hpc h1
  | taken k =>
    rw [hpc] at hstep
    obtain ⟨rfl, rfl⟩ := Prod.mk.inj (Option.some.inj hstep)
    simp only [record, hpc]
    exact hs.sequenceNext hpc
  | sequenced k =>
    rw [hpc] at hstep
    obtain ⟨rfl, rfl⟩ := Prod.mk.inj (Option.some.inj hstep)
    simp only [record, hpc]
    exact hkeep hpc senderQueue_quiet rfl rfl
  | queued k =>
    rw [hpc] at hstep
    obtain ⟨rfl, rfl⟩ := Prod.mk.inj (Option.some.inj hstep)
    simp only [record, hpc]
    exact hkeep hpc senderTimeout_quiet rfl rfl
  | timed k =>
    rw [hpc] at hstep
    obtain ⟨rfl, rfl⟩ := Prod.mk.inj (Option.some.inj hstep)
    simp only [record, hpc]
    exact hs.handOver hpc rfl rfl
  | sent k rc' err' =>
    rw [hpc] at hstep
    obtain ⟨rfl, rfl⟩ := Prod.mk.inj (Option.some.inj hstep)
    simp only [record, hpc]
    exact hkeep hpc (.setKio fun _ => rfl) rfl rfl
  | marked k rc' =>
    rw [hpc] at hstep
    obtain ⟨hq, h1, h2⟩ := senderResult_quiet (Option.some.inj hstep)
    simp only [record, hpc]
    exact hkeep hpc hq h1 h2
  | completing k st =>
    rw [hpc] at hstep
    obtain ⟨rfl, rfl⟩ := Prod.mk.inj (Option.some.inj hstep)
    simp only [record, hpc]
    exact hkeep hpc senderComplete_quiet rfl rfl
  | exited =>
    rw [hpc] at hstep
    cases hstep

/-- **Every step** keeps the log in order. -/
theorem InOrder.step (hs : InOrder s l) (h : step lib s a = some s') :
    InOrder s' (record s a s' l) := by
  cases a with
  | send k flags msg => exact hs.send h
  | receive | receiveUnsolicited | drain | drainMatch | connect | disconnect =>
    obtain ⟨c, rfl, hc⟩ := step_push h rfl
    exact hs.of_quiet .refl (filterMap_push fun c' h' => (hc c' h').kio) rfl rfl
  | call c mem => exact hs.call h
  | sender rc err => exact hs.sender h
  | receiver e =>
    obtain ⟨⟨s1, pc⟩, hr, rfl⟩ := Option.map_eq_some_iff.mp h
    rcases receiverStep_quiet hr with hq | ⟨st, -, rfl⟩
    · exact hs.of_quiet hq rfl rfl rfl
    · exact ⟨hs.fifo, hs.fresh, hs.issued, hs.taken, hs.numbers, hs.sequence, hs.sent⟩
  | tick ns =>
    obtain rfl := Option.some.inj h
    exact hs.of_quiet ⟨rfl, rfl, rfl, fun _ _ => rfl, List.Subset.refl _⟩ rfl rfl rfl

theorem inOrder_init {p : System × SendLog} (h : InitLog p) : InOrder p.1 p.2 := by
  obtain ⟨s, l⟩ := p
  obtain ⟨⟨now, rfl⟩, rfl⟩ := h
  refine ⟨ordered_empty, List.nodup_nil, fun _ hk => ?_, rfl, rfl, rfl, rfl⟩
  cases hk

end Step

/-! ### The runs -/

/-- The runs of a session with their logs. -/
abbrev LoggedRun (lib : ListLib KioId) : System × SendLog → Prop :=
  Reach (logged (step lib) record) always InitLog

theorem InOrder.of_reach {lib : ListLib KioId} {p : System × SendLog} (h : LoggedRun lib p) :
    InOrder p.1 p.2 := by
  refine h.invariant (I := fun p => InOrder p.1 p.2) (fun _ => inOrder_init) ?_
  intro p p' a hs _ hstep
  obtain ⟨h1, h2⟩ := logged_some hstep
  rw [h2]
  exact hs.step h1

/-- What is handed to the driver has its number, and is a part of what was numbered. -/
theorem InOrder.sent_prefix {s : System} {l : SendLog} (hs : InOrder s l) :
    l.sent <+: l.sequenced := ⟨_, hs.sent.symm⟩

theorem InOrder.number {s : System} {l : SendLog} (hs : InOrder s l) {i : ℕ} {k : KioId} {n : ℤ}
    (h : l.sequenced[i]? = some (k, n)) : l.sendq.out[i]? = some k ∧ n = 100 + i := by
  have hi : i < l.sequenced.length := (List.getElem?_eq_some_iff.mp h).1
  constructor
  · rw [← hs.taken, List.getElem?_append_left (by simpa using hi), List.getElem?_map, h]
    rfl
  · have h1 : (l.sequenced.map Prod.snd)[i]? = some n := by rw [List.getElem?_map, h]; rfl
    rw [hs.numbers, List.getElem?_map, List.getElem?_range hi] at h1
    simpa [eq_comm] using h1

theorem InOrder.increasing {s : System} {l : SendLog} (hs : InOrder s l) :
    (l.sequenced.map Prod.snd).Pairwise (· < ·) := by
  rw [hs.numbers, List.pairwise_map]
  exact List.pairwise_lt_range.imp fun h => by omega

/-- **In order, and numbered from 100.** The driver gets the kios in the order in which they were
queued, without those that were drained from sendq; the kio taken as number `i` gets `100 + i`; the
numbers increase, also from send to send, and the counter of a session does not overflow as long as
fewer than `2 ^ 63 - 100` kios were taken. -/
theorem sent_in_order (lib : ListLib KioId) (s : System) (l : SendLog) (h : LoggedRun lib (s, l)) :
    l.sent.map Prod.fst <+: l.sendq.entered.filter (· ∉ l.sendq.dropped) ∧
      l.sendq.entered.Nodup ∧
      (∀ (i : ℕ) (k : KioId) (n : ℤ), l.sequenced[i]? = some (k, n) →
        l.sendq.out[i]? = some k ∧ n = 100 + i) ∧
      l.sendq.out.length ≤ l.sequenced.length + 1 ∧
      (l.sequenced.map Prod.snd).Pairwise (· < ·) ∧ l.sent <+: l.sequenced ∧
      (l.sendq.out.length < 2 ^ 63 - 100 → s.sequence < 2 ^ 63) := by
  have hs : InOrder s l := InOrder.of_reach h
  have htaken := congrArg List.length hs.taken
  rw [List.length_append, List.length_map] at htaken
  refine ⟨?_, hs.fifo.nodup, fun i k n => hs.number, ?_, hs.increasing, hs.sent_prefix, ?_⟩
  · have h1 : l.sent.map Prod.fst <+: l.sendq.out := by
      rw [← hs.taken]
      exact (hs.sent_prefix.map Prod.fst).trans (List.prefix_append _ _)
    exact h1.trans hs.fifo.out_prefix
  · have h1 : s.sender.unsequenced.toList.length ≤ 1 := by
      cases s.sender.unsequenced <;> simp
    omega
  · intro hlt
    rw [hs.sequence]
    omega

/-- A call of `ktli_drain` that looks at this many queues. -/
def drainCall (n : ℕ) : List Act :=
  .drain :: (drainOrder.tails.take n).map fun todo => .call (.drainLock todo) true

/-- One of two requests is sent; both are drained, one of them from sendq; the session is connected
again and a third request is sent. -/
def reconnectTrace : List Act :=
  twoRequests ++ [.sender 0 0, .sender 0 0] ++ upToSend ++ sendReturns 10 ++
    [.disconnect 0, .call .disconnected true] ++ drainCall 2 ++ drainCall 3 ++ drainCall 4 ++
    [.connect 0, .call .connected true, .send 2 1 oneBuffer, .call (.sendLock 2) true] ++
    upToSend ++ sendReturns 10

theorem reconnectTrace_in_order : ∃ (s : System) (l : SendLog),
    run (logged (step (ListLib.next KioId)) record) ({ now := 5 }, {}) reconnectTrace = some (s, l) ∧
      l.sendq.entered = [0, 1, 2] ∧ l.sendq.dropped = [1] ∧ l.sent = [(0, 100), (2, 101)] ∧
      (l.sequenced.map Prod.snd).Pairwise (· < ·) := by
  obtain ⟨⟨s, l⟩, hs, hl⟩ := Option.map_eq_some_iff.mp
    (show (run (logged (step (ListLib.next KioId)) record) ({ now := 5 }, {})
      reconnectTrace).map (fun p => (p.2.sendq.entered, p.2.sendq.dropped, p.2.sent)) =
        some ([0, 1, 2], [1], [(0, 100), (2, 101)]) by decide)
  simp only [Prod.mk.injEq] at hl
  have hreach : LoggedRun (ListLib.next KioId) (s, l) :=
    reach_of_run ⟨⟨5, rfl⟩, rfl⟩ (runOk_always _ _) hs
  exact ⟨s, l, hs, hl.1, hl.2.1, hl.2.2,
    (sent_in_order (ListLib.next KioId) s l hreach).2.2.2.2.1⟩

end Libkinetic.Ktli
