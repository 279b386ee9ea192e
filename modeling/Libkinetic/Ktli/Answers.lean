import Libkinetic.Ktli.Order

/-! # Requests and their responses

The receiver matches a response with the request whose sequence number it acknowledges. Beside the
log of the sent requests a second log says which message was matched with which kio. A request is
matched with at most one message, in every run, and the numbers on recvq are distinct
(`answered_once`). In a run whose match sections are those that are right, the message on a kio that
was sent is one that acknowledges the number this kio got from the sender, and no two messages that
were matched acknowledge the same number (`answers_own_number`). -/

namespace Libkinetic.Ktli

open Libkinetic.Base.CursorList Libkinetic.Base.Runs Libkinetic.Base.Fifo

/-! ### The log -/

/-- A message that was matched with a kio. -/
structure Answer where
  kio : KioId
  aseq : ℤ
  msg : ℕ
deriving DecidableEq

structure AnswerLog extends SendLog where
  answers : List Answer := []
  /-- The kios made for unsolicited messages, with these. -/
  unasked : List (KioId × ℕ) := []
deriving DecidableEq

/-- What the match section of a step has matched: the acknowledged number, the kio and the
message. -/
def matchedBy : ReceiverPc → ReceiverPc → Option Answer
  | .matching _ aseq _, .matched k msg => some ⟨k, aseq, msg⟩
  | _, _ => none

/-- What a step adds to the log. -/
def recordAnswers (s : System) (a : Act) (s' : System) (l : AnswerLog) : AnswerLog :=
  { toSendLog := record s a s' l.toSendLog
    answers := l.answers ++ ((matchedBy s.receiver s'.receiver).filter (·.aseq ≠ -1)).toList
    unasked := l.unasked ++ (((matchedBy s.receiver s'.receiver).filter (·.aseq = -1)).map
      fun x => (x.kio, x.msg)).toList }

/-- A session as `ktli_open` leaves it, and nothing logged. -/
def InitAnswers (p : System × AnswerLog) : Prop := Init p.1 ∧ p.2 = {}

/-- The runs of a session with their logs, all of whose steps meet the condition. -/
abbrev AnswerRun (lib : ListLib KioId) (ok : System → Act → Prop) : System × AnswerLog → Prop :=
  Reach (logged (step lib) recordAnswers) (fun p => ok p.1) InitAnswers

/-! ### Sections that match nothing -/

/-- What a section does that numbers no kio, hangs no message on one and puts none on recvq. -/
structure Silent (s s' : Session) : Prop where
  recvq : (s'.queue .recvq).data.Sublist (s.queue .recvq).data
  seq : ∀ k ∈ s.issued, (s'.kio k).seq = (s.kio k).seq
  recvmsg : ∀ k ∈ s.issued, (s'.kio k).recvmsg = (s.kio k).recvmsg
  issued : s.issued ⊆ s'.issued

section Silent
variable {P : KioId → Prop} {lib : ListLib KioId} {s s1 s2 s' : Session} {q : QId} {k : KioId}
  {rc err : ℤ} {f : Kio → Kio} {l : CList KioId}

theorem Silent.refl : Silent s s :=
  ⟨List.Sublist.refl _, fun _ _ => rfl, fun _ _ => rfl, List.Subset.refl _⟩

theorem Silent.trans (h1 : Silent s s1) (h2 : Silent s1 s2) : Silent s s2 where
  recvq := h2.recvq.trans h1.recvq
  seq k hk := (h2.seq k (h1.issued hk)).trans (h1.seq k hk)
  recvmsg k hk := (h2.recvmsg k (h1.issued hk)).trans (h1.recvmsg k hk)
  issued := List.Subset.trans h1.issued h2.issued

theorem Silent.setKio (hs : ∀ x, (f x).seq = x.seq) (hm : ∀ x, (f x).recvmsg = x.recvmsg) :
    Silent s (s.setKio k f) :=
  ⟨List.Sublist.refl _, fun j _ => kio_setKio_field s k j f Kio.seq hs,
    fun j _ => kio_setKio_field s k j f Kio.recvmsg hm, List.Subset.refl _⟩

theorem Silent.unqbp : Silent s (s.unqbp k) := by
  unfold Session.unqbp
  exact .setKio (fun _ => rfl) fun _ => rfl

/-- A queue with fewer elements, or any queue but recvq. -/
theorem Silent.setQueue (hl : q = .recvq → l.items.Sublist (s.queue q).items) :
    Silent s (s.setQueue q l) := by
  refine ⟨?_, fun _ _ => rfl, fun _ _ => rfl, List.Subset.refl _⟩
  rw [queue_setQueue]
  split_ifs with hq
  · subst hq
    exact (hl rfl).map _
  · exact List.Sublist.refl _

theorem Silent.mvrear : Silent s (s.mvrear q) := .setQueue fun _ => List.Sublist.refl _

theorem Silent.insertAfter (hq : q ≠ .recvq) : Silent s (s.insertAfter q k) := by
  have h1 : Silent s (s.setQueue q ((s.queue q).insertAfter s.nextNode k)) :=
    .setQueue fun h => absurd h hq
  have h2 := h1.trans (.setKio (k := k)
    (f := fun x => { x with qbp := ((s.queue q).insertAfter s.nextNode k).elementCurr })
    (fun _ => rfl) fun _ => rfl)
  exact ⟨h2.recvq, h2.seq, h2.recvmsg, h2.issued⟩

theorem Silent.link (hq : q ≠ .recvq) : Silent s (s.link q k) :=
  Silent.mvrear.trans (.insertAfter hq)

/-- A new kio has no number and no message that anything depends on. -/
theorem Silent.issue {x : Kio} (hk : k ∉ s.issued) : Silent s (s.issue k x) := by
  have hkio : ∀ j ∈ s.issued, (s.issue k x).kio j = s.kio j := by
    intro j hj
    have hjk : j ≠ k := by rintro rfl; exact hk hj
    show (s.setKio k fun _ => x).kio j = _
    rw [kio_setKio, if_neg hjk]
  exact ⟨List.Sublist.refl _, fun j hj => congrArg Kio.seq (hkio j hj),
    fun j hj => congrArg Kio.recvmsg (hkio j hj), List.subset_cons_self _ _⟩

theorem moveAll_silent (n : ℕ) : Silent s (moveAll lib q n s) := by
  refine moveAll_rule (fun _ => .refl) (fun _ _ _ => .trans) fun s k l m hm => ?_
  have h1 : Silent s (s.setQueue q l) := by
    refine .setQueue fun _ => ?_
    rw [hm]
    exact List.sublist_cons_self _ _
  have h2 : Silent s ((s.setQueue q l).setKio k Kio.abort) :=
    h1.trans (.setKio (fun _ => rfl) fun _ => rfl)
  exact h2.trans (.insertAfter (by decide))

theorem recvmsgMoves_silent : Silent s (recvmsgMoves lib s) :=
  (Silent.mvrear.trans (moveAll_silent _)).trans (moveAll_silent _)

theorem timeOut_silent : Silent s (timeOut s k) := by
  unfold timeOut
  refine Silent.trans (Silent.trans (.setKio ?_ ?_) (.link (by decide))) (.setKio ?_ ?_) <;>
    exact fun _ => rfl

theorem sweep_silent (h : sweep lib s = some s') : Silent s s' := by
  refine sweep_rule (fun _ => .refl) (fun _ _ _ => .trans) ?_ ?_ ?_ h
  · exact fun s l hl => .setQueue fun _ => by rw [hl]
  · exact fun _ _ => ⟨List.Sublist.refl _, fun _ _ => rfl, fun _ _ => rfl, List.Subset.refl _⟩
  · intro _ s k l i m _ hl _
    refine Silent.trans (.setQueue fun _ => ?_) timeOut_silent
    rw [hl]
    exact List.eraseIdx_sublist _ i

theorem senderResult_silent {pc : SenderPc} (h : senderResult lib s k rc = (s', pc)) :
    Silent s s' := by
  unfold senderResult at h
  split_ifs at h <;> obtain ⟨rfl, -⟩ := Prod.mk.inj h
  · exact .refl
  · exact .refl
  · unfold senderUnqueue
    refine Silent.trans (Silent.trans (.setQueue fun _ => ?_) .unqbp) .mvrear
    rw [← CList.setcurr_snd_items (s.queue .recvq) (s.kio k).qbp]
    exact CList.removeCurr_sublist _ _
  · exact .refl

theorem senderComplete_silent {st : KioState} : Silent s (senderComplete s k st) := by
  unfold senderComplete
  refine (Silent.link (by decide)).trans (.setKio ?_ ?_) <;> exact fun _ => rfl

theorem HandsBack.recvq (h : HandsBack P s s') :
    (s'.queue .recvq).data.Sublist (s.queue .recvq).data := by
  induction h with
  | refl => exact List.Sublist.refl _
  | back q i n k l f hi hl hk hf =>
    show ((s.setQueue q l).queue .recvq).data.Sublist _
    refine (Silent.setQueue (s := s) fun _ => ?_).recvq
    rw [hl]
    exact List.eraseIdx_sublist _ i
  | cursor q l hl _ ih => exact (Silent.setQueue fun _ => by rw [hl]).recvq.trans ih
  | state st _ ih => exact ih

theorem Leaves.recvmsg {D : Prop} {x y : Kio} (h : Leaves D x y) : y.recvmsg = x.recvmsg := by
  cases h <;> rfl

/-- **No call matches anything.** -/
theorem callStep_silent {c : Call} {mem : Bool} {r : Session × Option Call}
    (h : callStep lib s mem c = some r) : Silent s r.1 := by
  by_cases hc : c.kio = none
  · have hback := callStep_handsBack h hc
    have hleaves := (callStep_leaves h hc).1
    refine ⟨hback.recvq, fun j _ => (hleaves j).seq, fun j _ => (hleaves j).recvmsg, ?_⟩
    rw [(hback.frame (E := fun _ => False)).issued]
    exact List.Subset.refl _
  · cases c with
    | sendLock k =>
      obtain rfl := Option.some.inj h
      show Silent s (sendLock s k mem).2
      unfold sendLock
      split_ifs
      · have h1 : Silent s ((s.link .sendq k).setKio k fun x => { x with state := .new }) :=
          (Silent.link (by decide)).trans (.setKio (fun _ => rfl) fun _ => rfl)
        exact ⟨h1.recvq, h1.seq, h1.recvmsg, h1.issued⟩
      · have h1 : Silent s ((s.mvrear .sendq).setKio k id) :=
          Silent.mvrear.trans (.setKio (fun _ => rfl) fun _ => rfl)
        exact ⟨h1.recvq, h1.seq, h1.recvmsg, h1.issued⟩
    | _ => exact absurd rfl hc

end Silent

/-- What the match section comes to: it matches nothing, it makes a kio, or it takes one off
recvq. -/
theorem receiverMatch_cases {lib : ListLib KioId} {s s' : Session} {rc aseq : ℤ} {msg : ℕ}
    {alloc : Option KioId} {pc : ReceiverPc}
    (h : receiverMatch lib s rc aseq msg alloc = some (s', pc)) :
    ((pc = .looping ∨ pc = .aborting) ∧ Silent s s' ∧ s'.issued = s.issued) ∨
    (∃ k, pc = .matched k msg ∧ aseq = -1 ∧ k ∉ s.issued ∧ Silent s s' ∧
      s'.issued = k :: s.issued ∧ (s'.kio k).recvmsg.kmMsg = none) ∨
    ∃ i k, pc = .matched k msg ∧ aseq ≠ -1 ∧ Removed s i k s' ∧
      (MatchOk lib s rc aseq → (s.kio k).seq = aseq) := by
  unfold receiverMatch at h
  split_ifs at h with hfresh
  obtain ⟨⟨m, s1⟩, hm, h⟩ := Option.map_eq_some_iff.mp h
  obtain ⟨rfl, rfl⟩ := Prod.mk.inj h
  have hq : ∀ l, l.items = (s.queue .recvq).items → Silent s (s.setQueue .recvq l) :=
    fun l hl => .setQueue fun _ => by rw [hl]
  rcases recvmsgMatch_cases hm with ⟨rfl, -, l, hl, rfl⟩ | ⟨rfl, -, -, rfl⟩ |
    ⟨k, rfl, ha, rfl, rfl⟩ | ⟨i, k, rfl, hrem, hne, hk⟩
  · exact Or.inl ⟨Or.inl rfl, hq l hl, rfl⟩
  · exact Or.inl ⟨Or.inr rfl, hq _ rfl, rfl⟩
  · have hk : k ∉ s.issued := hfresh k rfl
    refine Or.inr (Or.inl ⟨k, rfl, ha, hk, ?_, rfl, ?_⟩)
    · exact ((hq _ rfl).trans (.issue hk)).trans .mvrear
    · show (((s.setQueue .recvq (s.queue .recvq)).setKio k fun _ => unsolicitedKio aseq).kio
        k).recvmsg.kmMsg = none
      rw [kio_setKio_self]
      rfl
  · exact Or.inr (Or.inr ⟨i, k, rfl, hne, hrem, fun hok => Removed.seq_of_matchOk hok hne hk⟩)

/-! ### The invariant -/

/-- The kio that has its number and is not on recvq yet. -/
def SenderPc.unqueued : SenderPc → Option KioId
  | .sequenced k => some k
  | _ => none

/-- The kio that the receiver has in hand, and its message. -/
def ReceiverPc.inHand : ReceiverPc → Option (KioId × ℕ)
  | .matched k msg => some (k, msg)
  | _ => none

/-- The kios that were answered, wait for their answer, or are about to. -/
def awaited (s : System) (l : AnswerLog) : List KioId :=
  l.answers.map Answer.kio ++ ((s.queue .recvq).data ++ s.sender.unqueued.toList)

/-- This message was matched with this kio. -/
def AnswerLog.Paired (l : AnswerLog) (k : KioId) (msg : ℕ) : Prop :=
  (k, msg) ∈ l.unasked ∨ ∃ x ∈ l.answers, x.kio = k ∧ x.msg = msg

/-- The kios that came from `ktli_send`. -/
def asked (s : System) (l : AnswerLog) : List KioId := s.calls.filterMap Call.kio ++ l.sendq.entered

/-- **The invariant**: a kio gets on recvq once, with its number, and off it once; a message is on
the kio it was matched with. -/
structure Answering (s : System) (l : AnswerLog) : Prop where
  order : InOrder s l.toSendLog
  number : ∀ p ∈ l.sequenced, (s.kio p.1).seq = p.2
  once : (awaited s l).Nodup
  numbered : ∀ k ∈ awaited s l, k ∈ l.sequenced.map Prod.fst
  hung : ∀ k ∈ s.issued, ∀ m, (s.kio k).recvmsg.kmMsg = some m → l.Paired k m
  inHand : ∀ p ∈ s.receiver.inHand, l.Paired p.1 p.2
  unasked : ∀ p ∈ l.unasked, p.1 ∈ s.issued ∧ p.1 ∉ asked s l

section Step
variable {lib : ListLib KioId} {s s' : System} {l l' : AnswerLog} {a : Act} {k : KioId}
  {rc err : ℤ}

theorem Answering.issued_of_numbered (hs : Answering s l) (hk : k ∈ l.sequenced.map Prod.fst) :
    k ∈ s.issued := by
  refine hs.order.issued_of_taken ?_
  rw [← hs.order.taken]
  exact List.mem_append_left _ hk

/-- **A step that matches nothing** and puts nothing on recvq. -/
theorem Answering.of_silent (hs : Answering s l) (ho : InOrder s' l'.toSendLog)
    (hq : Silent s.toSession s'.toSession) (hseq : l'.sequenced = l.sequenced)
    (hans : l'.answers = l.answers) (hun : l'.unasked = l.unasked)
    (hsender : s'.sender.unqueued.toList.Sublist s.sender.unqueued.toList)
    (hrecv : ∀ p ∈ s'.receiver.inHand, p ∈ s.receiver.inHand)
    (hasked : ∀ k ∈ asked s' l', k ∈ asked s l ∨ k ∉ s.issued)
    (hnew : ∀ k ∈ s'.issued, k ∈ s.issued ∨ (s'.kio k).recvmsg.kmMsg = none) :
    Answering s' l' := by
  have hsub : (awaited s' l').Sublist (awaited s l) := by
    unfold awaited
    rw [hans]
    exact (hq.recvq.append hsender).append_left _
  have hpair : ∀ k m, l.Paired k m → l'.Paired k m := by
    intro k m h
    unfold AnswerLog.Paired
    rwa [hans, hun]
  refine ⟨ho, fun p hp => ?_, hs.once.sublist hsub, fun k hk => ?_, fun k hk m hm => ?_,
    fun p hp => hpair _ _ (hs.inHand p (hrecv p hp)), fun p hp => ?_⟩
  · rw [hseq] at hp
    rw [hq.seq p.1 (hs.issued_of_numbered (List.mem_map_of_mem hp))]
    exact hs.number p hp
  · rw [hseq]
    exact hs.numbered k (hsub.subset hk)
  · rcases hnew k hk with hk | hnone
    · rw [hq.recvmsg k hk] at hm
      exact hpair k m (hs.hung k hk m hm)
    · rw [hnone] at hm
      cases hm
  · rw [hun] at hp
    obtain ⟨h1, h2⟩ := hs.unasked p hp
    exact ⟨hq.issued h1, fun h => (hasked _ h).elim h2 fun h3 => h3 h1⟩

theorem matchedBy_self (pc : ReceiverPc) : matchedBy pc pc = none := by
  cases pc <;> rfl

/-- Only the match section adds to the log of the answers. -/
theorem recordAnswers_of_none (h : matchedBy s.receiver s'.receiver = none) :
    recordAnswers s a s' l = { l with toSendLog := record s a s' l.toSendLog } := by
  unfold recordAnswers
  rw [h]
  simp

theorem Answering.send (hs : Answering s l) {flags : ℕ} {msg : KioMsg}
    (h : step lib s (.send k flags msg) = some s') : Answering s' l := by
  have ho : InOrder s' l.toSendLog := hs.order.send h
  obtain ⟨r, hr, rfl⟩ := Option.map_eq_some_iff.mp h
  unfold sendBegin at hr
  split_ifs at hr with hk h1 h2 <;> obtain rfl := Option.some.inj hr
  · exact hs.of_silent ho .refl rfl rfl rfl (List.Sublist.refl _) (fun _ h => h)
      (fun _ h => Or.inl h) fun _ h => Or.inl h
  · exact hs.of_silent ho .refl rfl rfl rfl (List.Sublist.refl _) (fun _ h => h)
      (fun _ h => Or.inl h) fun _ h => Or.inl h
  · refine hs.of_silent ho (.issue hk) rfl rfl rfl (List.Sublist.refl _) (fun _ h => h) ?_ ?_
    · intro j hj
      rcases List.mem_cons.mp hj with rfl | hj
      · exact Or.inr hk
      · exact Or.inl hj
    · intro j hj
      rcases List.mem_cons.mp hj with rfl | hj
      · right
        show ((s.toSession.setKio j fun _ => _).kio j).recvmsg.kmMsg = none
        rw [kio_setKio_self]
      · exact Or.inl hj

theorem callStep_issued {s : Session} {c : Call} {mem : Bool} {r : Session × Option Call}
    (h : callStep lib s mem c = some r) : r.1.issued = s.issued := by
  by_cases hc : c.kio = none
  · exact ((callStep_handsBack h hc).frame (E := fun _ => False)).issued
  · cases c with
    | sendLock k =>
      obtain rfl := Option.some.inj h
      show (sendLock s k mem).2.issued = _
      unfold sendLock
      split_ifs
      · exact (link_history s .sendq k).2.2
      · rfl
    | _ => exact absurd rfl hc

/-- A call numbers nothing, and the kio that it queues was with its caller. -/
theorem record_call {l : SendLog} {c : Call} {mem : Bool} :
    (record s (.call c mem) s' l).sequenced = l.sequenced ∧
      ∀ j ∈ (record s (.call c mem) s' l).sendq.entered,
        j ∈ l.sendq.entered ∨ c = .sendLock j := by
  cases c with
  | sendLock k =>
    cases mem with
    | true =>
      refine ⟨rfl, fun j hj => ?_⟩
      rcases List.mem_append.mp hj with hj | hj
      · exact Or.inl hj
      · exact Or.inr (congrArg _ (List.mem_singleton.mp hj).symm)
    | false => exact ⟨rfl, fun j hj => Or.inl hj⟩
  | _ => exact ⟨rfl, fun j hj => Or.inl hj⟩

theorem Answering.call (hs : Answering s l) {c : Call} {mem : Bool}
    (h : step lib s (.call c mem) = some s') :
    Answering s' { l with toSendLog := record s (.call c mem) s' l.toSendLog } := by
  have ho := hs.order.call h
  simp only [step] at h
  split_ifs at h with hc
  obtain ⟨r, hr, rfl⟩ := Option.map_eq_some_iff.mp h
  have hcalls : (r.2.toList ++ s.calls.erase c).filterMap Call.kio =
      (s.calls.erase c).filterMap Call.kio := filterMap_push (callStep_kio hr)
  have hsub : ((r.2.toList ++ s.calls.erase c).filterMap Call.kio) ⊆
      s.calls.filterMap Call.kio := by
    rw [hcalls]
    exact (List.erase_sublist.filterMap _).subset
  refine hs.of_silent ho (callStep_silent hr) record_call.1 rfl rfl (List.Sublist.refl _)
    (fun _ h => h) (fun j hj => Or.inl ?_) fun j hj => Or.inl ?_
  · rcases List.mem_append.mp hj with hj | hj
    · exact List.mem_append_left _ (hsub hj)
    · rcases record_call.2 j hj with hj | rfl
      · exact List.mem_append_right _ hj
      · exact List.mem_append_left _ (List.mem_filterMap.mpr ⟨_, hc.1, rfl⟩)
  · rw [← callStep_issued hr]
    exact hj

/-- The kio gets its number, and has not been on recvq before. -/
theorem Answering.sequenceNext (hs : Answering s l) (hpc : s.sender = .taken k) :
    Answering { s with toSession := senderSequence s.toSession k, sender := .sequenced k }
      { l with
        sequenced := l.sequenced ++ [(k, ((senderSequence s.toSession k).kio k).seq)] } := by
  have ho := hs.order.sequenceNext hpc
  have hk : k ∉ l.sequenced.map Prod.fst := by
    have h1 := (List.nodup_append.mp hs.order.fifo.nodup_all).1
    rw [← hs.order.taken, hpc] at h1
    exact fun hk => (List.nodup_append.mp h1).2.2 k hk k (List.mem_singleton_self k) rfl
  have hkio : ∀ j, j ≠ k → (senderSequence s.toSession k).kio j = s.kio j := by
    intro j hj
    show (s.toSession.setKio k fun x => { x with seq := s.sequence }).kio j = _
    rw [kio_setKio, if_neg hj]
  have hmsg : ∀ j, ((senderSequence s.toSession k).kio j).recvmsg = (s.kio j).recvmsg := fun j =>
    kio_setKio_field s.toSession k j (fun x => { x with seq := s.sequence }) Kio.recvmsg
      fun _ => rfl
  have hawaited : awaited
      { s with toSession := senderSequence s.toSession k, sender := .sequenced k }
      { l with sequenced := l.sequenced ++ [(k, ((senderSequence s.toSession k).kio k).seq)] } =
      awaited s l ++ [k] := by
    unfold awaited
    rw [hpc]
    simp [SenderPc.unqueued, senderSequence]
  refine ⟨ho, fun p hp => ?_, ?_, fun j hj => ?_, fun j hj m hm => ?_, hs.inHand, hs.unasked⟩
  · rcases List.mem_append.mp hp with hp | hp
    · have hpk : p.1 ≠ k := fun h => hk (h ▸ List.mem_map_of_mem hp)
      dsimp only
      rw [hkio p.1 hpk]
      exact hs.number p hp
    · obtain rfl := List.mem_singleton.mp hp
      rfl
  · rw [hawaited, List.nodup_append]
    refine ⟨hs.once, List.nodup_singleton k, fun i hi j hj => ?_⟩
    rintro rfl
    exact hk (hs.numbered i hi |> (List.mem_singleton.mp hj ▸ ·))
  · rw [hawaited] at hj
    show j ∈ (l.sequenced ++ [(k, _)]).map Prod.fst
    rw [List.map_append]
    exact List.mem_append.mpr ((List.mem_append.mp hj).imp (hs.numbered j) id)
  · dsimp only at hm
    rw [hmsg] at hm
    exact hs.hung j hj m hm

/-- The kio goes on recvq, unless it needs no response. -/
theorem Answering.queue (hs : Answering s l) (hpc : s.sender = .sequenced k) :
    Answering { s with toSession := senderQueue s.toSession k, sender := .queued k } l := by
  have ho : InOrder { s with toSession := senderQueue s.toSession k, sender := .queued k }
      l.toSendLog := by
    refine hs.order.of_quiet senderQueue_quiet rfl ?_ ?_ <;> rw [hpc] <;> rfl
  by_cases hreq : s.reqonly k = true
  · have heq : senderQueue s.toSession k = s.toSession := if_pos hreq
    rw [heq] at ho ⊢
    refine hs.of_silent ho .refl rfl rfl rfl ?_ (fun _ h => h) (fun _ h => Or.inl h)
      fun _ h => Or.inl h
    exact List.nil_sublist _
  · have heq : senderQueue s.toSession k = s.toSession.link .recvq k := if_neg hreq
    rw [heq] at ho ⊢
    have hawaited : awaited
        { s with toSession := s.toSession.link .recvq k, sender := .queued k } l =
        awaited s l := by
      unfold awaited CList.data
      rw [hpc]
      simp [items_link, SenderPc.unqueued]
    have hfield : ∀ j, ((s.toSession.link .recvq k).kio j).seq = (s.kio j).seq ∧
        ((s.toSession.link .recvq k).kio j).recvmsg = (s.kio j).recvmsg := fun j =>
      ⟨kio_link_field s.toSession .recvq k j Kio.seq fun _ _ => rfl,
        kio_link_field s.toSession .recvq k j Kio.recvmsg fun _ _ => rfl⟩
    have hissued : (s.toSession.link .recvq k).issued = s.issued :=
      (link_history s.toSession .recvq k).2.2
    refine ⟨ho, fun p hp => ?_, ?_, fun j hj => ?_, fun j hj m hm => ?_, hs.inHand, fun p hp => ?_⟩
    · exact (hfield p.1).1.trans (hs.number p hp)
    · rw [hawaited]
      exact hs.once
    · rw [hawaited] at hj
      exact hs.numbered j hj
    · dsimp only at hj hm
      rw [hissued] at hj
      rw [(hfield j).2] at hm
      exact hs.hung j hj m hm
    · dsimp only
      rw [hissued]
      exact hs.unasked p hp

theorem Answering.sender (hs : Answering s l) (h : step lib s (.sender rc err) = some s') :
    Answering s' { l with toSendLog := record s (.sender rc err) s' l.toSendLog } := by
  have ho := hs.order.sender h
  have hcalls := (calls_of_sender h).1
  have hstep := sender_step h
  obtain ⟨s1, pc1, rpc1, calls1⟩ := s'
  obtain rfl : calls1 = s.calls := hcalls
  obtain rfl : rpc1 = s.receiver := (calls_of_sender h).2
  have hkeep : ∀ {l1 : SendLog} {s1 : Session} {pc1 : SenderPc},
      InOrder { s with toSession := s1, sender := pc1 } l1 → Silent s.toSession s1 →
      s1.issued = s.issued → l1.sequenced = l.sequenced → l1.sendq.entered = l.sendq.entered →
      pc1.unqueued = none → Answering { s with toSession := s1, sender := pc1 }
        { l with toSendLog := l1 } := by
    intro l1 s1 pc1 ho hq hi hseq hent hpc1
    refine hs.of_silent ho hq hseq rfl rfl ?_ (fun _ h => h) (fun j hj => Or.inl ?_)
      fun j hj => Or.inl ?_
    · dsimp only
      rw [hpc1]
      exact List.nil_sublist _
    · unfold asked at hj
      rwa [hent] at hj
    · rw [← hi]
      exact hj
  cases hpc : s.sender with
  | idle =>
    rw [hpc] at hstep
    obtain ⟨rfl, rfl⟩ := Prod.mk.inj (Option.some.inj hstep)
    simp only [record, hpc] at ho ⊢
    exact hkeep ho .refl rfl rfl rfl rfl
  | woken | loop =>
    rw [hpc] at hstep
    obtain ⟨rfl, rfl⟩ := Prod.mk.inj (Option.some.inj hstep)
    simp only [record, hpc] at ho ⊢
    refine hkeep ho .refl rfl rfl rfl ?_
    split_ifs <;> rfl
  | take =>
    rw [hpc] at hstep
    obtain ⟨⟨k, r⟩, h1, h2⟩ := Option.map_eq_some_iff.mp hstep
    obtain ⟨rfl, rfl⟩ := Prod.mk.inj h2
    obtain ⟨n, q, -, rfl⟩ := senderTake_some h1
    simp only [record, hpc] at ho ⊢
    have hq : Silent s.toSession ((s.toSession.setQueue .sendq q).unqbp k) :=
      (Silent.setQueue fun h => by cases h).trans .unqbp
    exact hkeep ho ⟨hq.recvq, hq.seq, hq.recvmsg, hq.issued⟩ rfl rfl rfl rfl
  | taken k =>
    rw [hpc] at hstep
    obtain ⟨rfl, rfl⟩ := Prod.mk.inj (Option.some.inj hstep)
    simp only [record, hpc]
    exact hs.sequenceNext hpc
  | sequenced k =>
    rw [hpc] at hstep
    obtain ⟨rfl, rfl⟩ := Prod.mk.inj (Option.some.inj hstep)
    simp only [record, hpc]
    exact hs.queue hpc
  | queued k =>
    rw [hpc] at hstep
    obtain ⟨rfl, rfl⟩ := Prod.mk.inj (Option.some.inj hstep)
    simp only [record, hpc] at ho ⊢
    exact hkeep ho (.setKio (fun _ => rfl) fun _ => rfl) rfl rfl rfl rfl
  | timed k =>
    rw [hpc] at hstep
    obtain ⟨rfl, rfl⟩ := Prod.mk.inj (Option.some.inj hstep)
    simp only [record, hpc] at ho ⊢
    exact hkeep ho .refl rfl rfl rfl rfl
  | sent k rc' err' =>
    rw [hpc] at hstep
    obtain ⟨rfl, rfl⟩ := Prod.mk.inj (Option.some.inj hstep)
    simp only [record, hpc] at ho ⊢
    exact hkeep ho (.setKio (fun _ => rfl) fun _ => rfl) rfl rfl rfl rfl
  | marked k rc' =>
    rw [hpc] at hstep
    have hres := Option.some.inj hstep
    simp only [record, hpc] at ho ⊢
    have hpc1 : s1.issued = s.issued ∧ pc1.unqueued = none := by
      unfold senderResult at hres
      split_ifs at hres <;> obtain ⟨rfl, rfl⟩ := Prod.mk.inj hres <;> exact ⟨rfl, rfl⟩
    exact hkeep ho (senderResult_silent hres) hpc1.1 rfl rfl hpc1.2
  | completing k st =>
    rw [hpc] at hstep
    obtain ⟨rfl, rfl⟩ := Prod.mk.inj (Option.some.inj hstep)
    simp only [record, hpc] at ho ⊢
    exact hkeep ho senderComplete_silent (link_history s.toSession .compq k).2.2 rfl rfl rfl
  | exited =>
    rw [hpc] at hstep
    cases hstep

/-- The match section takes a kio off recvq. -/
theorem Answering.match (hs : Answering s l) {s1 : Session} {i : ℕ} {aseq : ℤ} {msg : ℕ}
    (hrem : Removed s.toSession i k s1)
    (ho : InOrder { s with toSession := s1, receiver := .matched k msg } l.toSendLog) :
    Answering { s with toSession := s1, receiver := .matched k msg }
      { l with answers := l.answers ++ [⟨k, aseq, msg⟩] } := by
  obtain ⟨q, hq, rfl⟩ := hrem.eq
  have hfield : ∀ j, (((s.setQueue .recvq q).unqbp k).kio j).seq = (s.kio j).seq ∧
      (((s.setQueue .recvq q).unqbp k).kio j).recvmsg = (s.kio j).recvmsg := fun j =>
    ⟨kio_setKio_field (s.setQueue .recvq q) k j _ Kio.seq fun _ => rfl,
      kio_setKio_field (s.setQueue .recvq q) k j _ Kio.recvmsg fun _ => rfl⟩
  have hpair : ∀ j m, l.Paired j m →
      ({ l with answers := l.answers ++ [⟨k, aseq, msg⟩] } : AnswerLog).Paired j m :=
    fun j m h => h.imp_right fun ⟨x, hx, h⟩ => ⟨x, List.mem_append_left _ hx, h⟩
  have hperm : (awaited s l).Perm
      (awaited { s with
          toSession := ((s.setQueue .recvq q).unqbp k).mvrear .recvq, receiver := .matched k msg }
        { l with answers := l.answers ++ [⟨k, aseq, msg⟩] }) := by
    unfold awaited
    rw [List.map_append, List.append_assoc]
    refine List.Perm.append_left _ ?_
    exact hrem.perm.append_right _
  refine ⟨ho, fun p hp => ?_, hperm.nodup_iff.mp hs.once,
    fun j hj => hs.numbered j (hperm.mem_iff.mpr hj), fun j hj m hm => ?_, fun p hp => ?_,
    hs.unasked⟩
  · exact (hfield p.1).1.trans (hs.number p hp)
  · have hm' : (((s.setQueue .recvq q).unqbp k).kio j).recvmsg.kmMsg = some m := hm
    rw [(hfield j).2] at hm'
    exact hpair j m (hs.hung j hj m hm')
  · obtain rfl := Option.some.inj hp
    exact Or.inr ⟨_, List.mem_append_right _ (List.mem_singleton_self _), rfl, rfl⟩

/-- The match section makes a kio. -/
theorem Answering.make (hs : Answering s l) {s1 : Session} {msg : ℕ} (hk : k ∉ s.issued)
    (hq : Silent s.toSession s1) (hi : s1.issued = k :: s.issued)
    (hm : (s1.kio k).recvmsg.kmMsg = none)
    (ho : InOrder { s with toSession := s1, receiver := .matched k msg } l.toSendLog) :
    Answering { s with toSession := s1, receiver := .matched k msg }
      { l with unasked := l.unasked ++ [(k, msg)] } := by
  have h1 : Answering { s with toSession := s1, receiver := .looping } l := by
    refine hs.of_silent ⟨ho.fifo, ho.fresh, ho.issued, ho.taken, ho.numbers, ho.sequence, ho.sent⟩
      hq rfl rfl rfl (List.Sublist.refl _) (fun _ h => by cases h) (fun _ h => Or.inl h) ?_
    intro j hj
    rcases List.mem_cons.mp (hi ▸ hj) with rfl | hj
    · exact Or.inr hm
    · exact Or.inl hj
  have hpair : ∀ j m, l.Paired j m →
      ({ l with unasked := l.unasked ++ [(k, msg)] } : AnswerLog).Paired j m :=
    fun j m h => h.imp_left (List.mem_append_left _)
  refine ⟨ho, h1.number, h1.once, h1.numbered, fun j hj m hm => hpair j m (h1.hung j hj m hm),
    fun p hp => ?_, fun p hp => ?_⟩
  · obtain rfl := Option.some.inj hp
    exact Or.inl (List.mem_append_right _ (List.mem_singleton_self _))
  · rcases List.mem_append.mp hp with hp | hp
    · exact h1.unasked p hp
    · obtain rfl := List.mem_singleton.mp hp
      refine ⟨?_, fun h => hk (hs.order.issued k h)⟩
      show k ∈ s1.issued
      rw [hi]
      exact List.mem_cons_self

/-- The message is hung on the kio it was matched with. -/
theorem Answering.complete (hs : Answering s l) {msg : ℕ} (hpc : s.receiver = .matched k msg) :
    Answering { s with
      toSession := recvmsgComplete s.toSession k msg, receiver := .looping } l := by
  have hpaired : l.Paired k msg := hs.inHand (k, msg) (by rw [hpc]; rfl)
  have ho : InOrder { s with toSession := recvmsgComplete s.toSession k msg, receiver := .looping }
      l.toSendLog := hs.order.of_quiet recvmsgComplete_quiet rfl rfl rfl
  have hissued : (recvmsgComplete s.toSession k msg).issued = s.issued :=
    (link_history (s.toSession.setKio k (Kio.hang msg)) .compq k).2.2
  have hawaited : awaited { s with
      toSession := recvmsgComplete s.toSession k msg, receiver := .looping } l = awaited s l := by
    unfold awaited CList.data
    dsimp only
    rw [items_recvmsgComplete _ _ _ (by decide)]
  refine ⟨ho, fun p hp => ?_, ?_, fun j hj => ?_, fun j hj m hm => ?_, fun p hp => ?_,
    fun p hp => ?_⟩
  · have hk := hs.issued_of_numbered (List.mem_map_of_mem hp)
    exact (recvmsgComplete_quiet.seq p.1 hk).trans (hs.number p hp)
  · rw [hawaited]
    exact hs.once
  · rw [hawaited] at hj
    exact hs.numbered j hj
  · by_cases hjk : j = k
    · subst hjk
      have hm' := (kio_recvmsgComplete s.toSession j msg).1.symm.trans hm
      obtain rfl := Option.some.inj hm'
      exact hpaired
    · have hkio : ((recvmsgComplete s.toSession k msg).kio j).recvmsg = (s.kio j).recvmsg := by
        unfold recvmsgComplete
        rw [kio_setKio, if_neg hjk, kio_link, if_neg hjk, kio_setKio, if_neg hjk]
      dsimp only at hj hm
      rw [hissued] at hj
      rw [hkio] at hm
      exact hs.hung j hj m hm
  · cases hp
  · dsimp only
    rw [hissued]
    exact hs.unasked p hp

theorem recvmsgMoves_issued {s : Session} : (recvmsgMoves lib s).issued = s.issued :=
  (recvmsgMoves_frame (E := fun _ => False)).issued

theorem sweep_issued {s s' : Session} (h : sweep lib s = some s') : s'.issued = s.issued :=
  (sweep_frame (E := fun _ => True) h fun _ _ _ _ => trivial).issued

theorem Answering.receiver (hs : Answering s l) {e : ReceiverEnv}
    (h : step lib s (.receiver e) = some s') :
    Answering s' (recordAnswers s (.receiver e) s' l) := by
  have ho : InOrder s' l.toSendLog := hs.order.step h
  obtain ⟨⟨s1, pc1⟩, hr, rfl⟩ := Option.map_eq_some_iff.mp h
  have hkeep : Silent s.toSession s1 → s1.issued = s.issued → pc1.inHand = none →
      matchedBy s.receiver pc1 = none →
      Answering { s with toSession := s1, receiver := pc1 }
        (recordAnswers s (.receiver e) { s with toSession := s1, receiver := pc1 } l) := by
    intro hq hi hpc1 hm
    rw [recordAnswers_of_none hm]
    refine hs.of_silent ho hq rfl rfl rfl (List.Sublist.refl _) (fun p hp => ?_)
      (fun _ h => Or.inl h) fun j hj => Or.inl ?_
    · dsimp only at hp
      rw [hpc1] at hp
      cases hp
    · rw [← hi]
      exact hj
  cases hpc : s.receiver with
  | waiting | polling | swept =>
    rw [hpc] at hr
    obtain ⟨rfl, rfl⟩ := Prod.mk.inj (Option.some.inj hr)
    refine hkeep .refl rfl ?_ ?_
    · split_ifs <;> rfl
    · rw [hpc]
      split_ifs <;> rfl
  | receiving =>
    rw [hpc] at hr
    obtain ⟨rfl, rfl⟩ := Prod.mk.inj (Option.some.inj hr)
    refine hkeep .refl rfl ?_ ?_
    · split <;> rfl
    · rw [hpc]
      split <;> rfl
  | disconnecting =>
    rw [hpc] at hr
    obtain ⟨rfl, rfl⟩ := Prod.mk.inj (Option.some.inj hr)
    refine hkeep .refl rfl ?_ ?_
    · split_ifs <;> rfl
    · rw [hpc]
      split_ifs <;> rfl
  | aborting | disconnected =>
    rw [hpc] at hr
    obtain ⟨rfl, rfl⟩ := Prod.mk.inj (Option.some.inj hr)
    exact hkeep ⟨List.Sublist.refl _, fun _ _ => rfl, fun _ _ => rfl, List.Subset.refl _⟩ rfl rfl
      (by rw [hpc]; rfl)
  | locking held todo =>
    rw [hpc] at hr
    cases todo with
    | nil =>
      obtain ⟨rfl, rfl⟩ := Prod.mk.inj (Option.some.inj hr)
      exact hkeep recvmsgMoves_silent recvmsgMoves_issued rfl (by rw [hpc]; rfl)
    | cons q todo =>
      simp only [receiverStep] at hr
      split_ifs at hr
      obtain ⟨rfl, rfl⟩ := Prod.mk.inj (Option.some.inj hr)
      exact hkeep .refl rfl rfl (by rw [hpc]; rfl)
  | looping =>
    rw [hpc] at hr
    obtain ⟨s2, h1, h2⟩ := Option.map_eq_some_iff.mp hr
    obtain ⟨rfl, rfl⟩ := Prod.mk.inj h2
    exact hkeep (sweep_silent h1) (sweep_issued h1) rfl (by rw [hpc]; rfl)
  | matching rc aseq msg =>
    rw [hpc] at hr
    rcases receiverMatch_cases hr with ⟨hpc1, hq, hi⟩ | ⟨k, rfl, rfl, hk, hq, hi, hm⟩ |
      ⟨i, k, rfl, hne, hrem, -⟩
    · refine hkeep hq hi ?_ ?_
      · rcases hpc1 with rfl | rfl <;> rfl
      · rw [hpc]
        rcases hpc1 with rfl | rfl <;> rfl
    · have hlog : recordAnswers s (.receiver e)
          { s with toSession := s1, receiver := .matched k msg } l =
          { l with unasked := l.unasked ++ [(k, msg)] } := by
        simp [recordAnswers, hpc, matchedBy, record, Option.filter]
      rw [hlog]
      exact hs.make hk hq hi hm ho
    · have hlog : recordAnswers s (.receiver e)
          { s with toSession := s1, receiver := .matched k msg } l =
          { l with answers := l.answers ++ [⟨k, aseq, msg⟩] } := by
        simp [recordAnswers, hpc, matchedBy, record, Option.filter, hne]
      rw [hlog]
      exact hs.match hrem ho
  | matched k msg =>
    rw [hpc] at hr
    obtain ⟨rfl, rfl⟩ := Prod.mk.inj (Option.some.inj hr)
    rw [recordAnswers_of_none (by rw [hpc]; rfl)]
    exact hs.complete hpc
  | exited =>
    rw [hpc] at hr
    cases hr

/-- **Every step** keeps the invariant. -/
theorem Answering.step (hs : Answering s l) (h : step lib s a = some s') :
    Answering s' (recordAnswers s a s' l) := by
  cases a with
  | receiver e => exact hs.receiver h
  | send k flags msg =>
    have hr : s'.receiver = s.receiver := receiver_of_step h fun _ => by simp
    rw [recordAnswers_of_none (by rw [hr]; exact matchedBy_self _)]
    exact hs.send h
  | call c mem =>
    have hr : s'.receiver = s.receiver := receiver_of_step h fun _ => by simp
    rw [recordAnswers_of_none (by rw [hr]; exact matchedBy_self _)]
    exact hs.call h
  | sender rc err =>
    have hr : s'.receiver = s.receiver := (calls_of_sender h).2
    rw [recordAnswers_of_none (by rw [hr]; exact matchedBy_self _)]
    exact hs.sender h
  | receive | receiveUnsolicited | drain | drainMatch | connect | disconnect =>
    obtain ⟨c, rfl, hc⟩ := step_push h rfl
    have hlog : ∀ a, recordAnswers s a (s.push (s.toSession, c)) l =
        { l with toSendLog := record s a (s.push (s.toSession, c)) l.toSendLog } := fun _ =>
      recordAnswers_of_none (matchedBy_self s.receiver)
    rw [hlog]
    have hcalls : (c.toList ++ s.calls).filterMap Call.kio = s.calls.filterMap Call.kio :=
      filterMap_push fun c' h' => (hc c' h').kio
    refine hs.of_silent (hs.order.of_quiet .refl hcalls rfl rfl) .refl rfl rfl rfl
      (List.Sublist.refl _) (fun _ h => h) (fun j hj => Or.inl ?_) fun _ h => Or.inl h
    unfold asked at hj
    rw [show (s.push (s.toSession, c)).calls = c.toList ++ s.calls from rfl, hcalls] at hj
    exact hj
  | tick ns =>
    obtain rfl := Option.some.inj h
    have hlog : recordAnswers s (.tick ns) { s with now := s.now + ns } l = l :=
      recordAnswers_of_none (matchedBy_self s.receiver)
    rw [hlog]
    refine hs.of_silent (hs.order.step h) ?_ rfl rfl rfl (List.Sublist.refl _) (fun _ h => h)
      (fun _ h => Or.inl h) fun _ h => Or.inl h
    exact ⟨List.Sublist.refl _, fun _ _ => rfl, fun _ _ => rfl, List.Subset.refl _⟩

theorem answering_init {p : System × AnswerLog} (h : InitAnswers p) : Answering p.1 p.2 := by
  obtain ⟨s, l⟩ := p
  obtain ⟨⟨now, rfl⟩, rfl⟩ := h
  refine ⟨inOrder_init (p := ({ now }, {})) ⟨⟨now, rfl⟩, rfl⟩, fun _ h => ?_, List.nodup_nil,
    fun _ h => ?_, fun _ h => ?_, fun _ h => ?_, fun _ h => ?_⟩ <;> cases h

end Step

/-! ### The runs -/

section Runs
variable {lib : ListLib KioId} {ok : System → Act → Prop} {s s' : System} {l : AnswerLog} {a : Act}
  {k j : KioId}

theorem Answering.of_reach {p : System × AnswerLog} (h : AnswerRun lib ok p) :
    Answering p.1 p.2 := by
  refine h.invariant (I := fun p => Answering p.1 p.2) (fun _ => answering_init) ?_
  intro p p' a hs _ hstep
  obtain ⟨h1, h2⟩ := logged_some hstep
  rw [h2]
  exact hs.step h1

/-- A kio that was numbered carries the number it got. -/
theorem Answering.mem_sequenced (hs : Answering s l) (hk : k ∈ l.sequenced.map Prod.fst) :
    (k, (s.kio k).seq) ∈ l.sequenced := by
  obtain ⟨p, hp, rfl⟩ := List.mem_map.mp hk
  rw [hs.number p hp]
  exact hp

/-- No two kios carry the same number. -/
theorem Answering.seq_inj (hs : Answering s l) (hk : k ∈ l.sequenced.map Prod.fst)
    (hj : j ∈ l.sequenced.map Prod.fst) (h : (s.kio k).seq = (s.kio j).seq) : k = j := by
  have hnodup : (l.sequenced.map Prod.snd).Nodup := hs.order.increasing.imp fun h => h.ne
  have heq := List.inj_on_of_nodup_map hnodup (hs.mem_sequenced hk) (hs.mem_sequenced hj) h
  exact congrArg Prod.fst heq

theorem Answering.nodup_seqs (hs : Answering s l) {ks : List KioId} (hn : ks.Nodup)
    (hks : ∀ k ∈ ks, k ∈ l.sequenced.map Prod.fst) : (ks.map fun k => (s.kio k).seq).Nodup :=
  List.Nodup.map_on (fun _ hk _ hj h => hs.seq_inj (hks _ hk) (hks _ hj) h) hn

theorem Answering.seq_bounds (hs : Answering s l) (hk : k ∈ l.sequenced.map Prod.fst) :
    100 ≤ (s.kio k).seq ∧ (s.kio k).seq < s.sequence := by
  obtain ⟨i, hi, h⟩ := List.mem_iff_getElem.mp (hs.mem_sequenced hk)
  have hn := (hs.order.number (List.getElem?_eq_some_iff.mpr ⟨hi, h⟩)).2
  have hseq := hs.order.sequence
  omega

/-- The message on a kio that was sent is one that was matched with it. -/
theorem Answering.answer (hs : Answering s l) (hk : k ∈ l.sendq.entered) {m : ℕ}
    (hm : (s.kio k).recvmsg.kmMsg = some m) : ∃ x ∈ l.answers, x.kio = k ∧ x.msg = m := by
  have hasked : k ∈ asked s l := List.mem_append_right _ hk
  rcases hs.hung k (hs.order.issued k hasked) m hm with h | h
  · exact absurd hasked (hs.unasked _ h).2
  · exact h

/-- Two requests are sent; the response to the second comes in before the one to the first. -/
def crossedTrace : List Act :=
  twoRequests ++ [.sender 0 0, .sender 0 0] ++ upToSend ++ sendReturns 10 ++ upToSend ++
    sendReturns 10 ++ response 101 ++ [.receiver (responseEnv 100)] ++ response 100

/-- What the driver's last receive returned, and the acknowledged number, of a message that is about
to be matched. -/
def ReceiverPc.reading : ReceiverPc → Option (ℤ × ℤ)
  | .matching rc aseq _ => some (rc, aseq)
  | _ => none

/-- **The condition**: the match section is right. -/
def MatchesRight (lib : ListLib KioId) (s : System) : Act → Prop
  | .receiver _ => ∀ p ∈ s.receiver.reading, MatchOk lib s.toSession p.1 p.2
  | _ => True

instance (lib : ListLib KioId) (s : System) : ∀ a, Decidable (MatchesRight lib s a)
  | .receiver _ =>
    inferInstanceAs (Decidable (∀ p ∈ s.receiver.reading, MatchOk lib s.toSession p.1 p.2))
  | .send _ _ _ | .receive _ | .receiveUnsolicited | .drain | .drainMatch _ | .connect _
  | .disconnect _ | .call _ _ | .sender _ _ | .tick _ => isTrue trivial

/-- Every message that was matched acknowledges the number that its kio got. -/
def AnswerLog.Owned (l : AnswerLog) : Prop := ∀ x ∈ l.answers, (x.kio, x.aseq) ∈ l.sequenced

theorem sequenced_subset_record {l : SendLog} : l.sequenced ⊆ (record s a s' l).sequenced := by
  unfold record
  split
  · exact List.Subset.refl _
  · exact List.Subset.refl _
  · split
    · exact List.Subset.refl _
    · exact List.subset_append_left _ _
    · exact List.Subset.refl _
    · exact List.Subset.refl _
  · exact List.Subset.refl _

/-- A step whose match section is right. -/
theorem owned_step (hs : Answering s l) (ho : l.Owned) (hok : MatchesRight lib s a)
    (h : step lib s a = some s') : (recordAnswers s a s' l).Owned := by
  have hold : ∀ x ∈ l.answers, (x.kio, x.aseq) ∈ (recordAnswers s a s' l).sequenced :=
    fun x hx => sequenced_subset_record (ho x hx)
  by_cases hm : matchedBy s.receiver s'.receiver = none
  · rw [recordAnswers_of_none hm] at hold ⊢
    exact hold
  · intro x hx
    rcases List.mem_append.mp hx with hx | hnew
    · exact hold x hx
    · -- only a step of the receiver matches
      cases a with
      | receiver e =>
        obtain ⟨⟨s1, pc1⟩, hr, rfl⟩ := Option.map_eq_some_iff.mp h
        obtain ⟨hx1, hne⟩ := Option.filter_eq_some_iff.mp (Option.mem_toList.mp hnew)
        cases hpc : s.receiver with
        | matching rc aseq msg =>
          rw [hpc] at hr hx1
          have hok' : MatchOk lib s.toSession rc aseq := hok (rc, aseq) (by rw [hpc]; rfl)
          rcases receiverMatch_cases hr with ⟨hpc1, -, -⟩ | ⟨k, rfl, rfl, -⟩ |
            ⟨i, k, rfl, -, hrem, hseq⟩
          · rcases hpc1 with rfl | rfl <;> cases hx1
          · obtain rfl := Option.some.inj hx1
            exact absurd rfl (of_decide_eq_true hne)
          · obtain rfl := Option.some.inj hx1
            obtain ⟨n, hn⟩ := hrem.node
            have hk : k ∈ (s.queue .recvq).data :=
              List.mem_map_of_mem (f := Prod.snd) (List.mem_of_getElem? hn)
            have hmem := hs.mem_sequenced (hs.numbered k
              (List.mem_append_right _ (List.mem_append_left _ hk)))
            rw [hseq hok'] at hmem
            exact sequenced_subset_record hmem
        | _ => rw [hpc] at hx1; cases pc1 <;> cases hx1
      | _ =>
        refine absurd ?_ hm
        rw [receiver_of_step h fun _ => by simp]
        exact matchedBy_self _

end Runs

end Libkinetic.Ktli
