import Libkinetic.Ktli.Custody

/-! # The deadline of a request

A request is visible to the timeout sweep from the moment the sender queues it on recvq, but gets
its deadline only in the sender's next step. A run in which no sweep finds the request expired in
between times nothing out before its `KIO_TIMEOUT_S` seconds are over (`timedout_in_time`); without
that condition a request is timed out at once (`timed_out_at_once`). -/

namespace Libkinetic.Ktli

open Libkinetic.Base.CursorList Libkinetic.Base.Runs

/-! ### Sections that leave the deadlines alone -/

/-- What a section does that queues nothing on recvq or sendq and sets no deadline; the kios it
times out are in `E`. -/
structure Frame (E : KioId → Prop) (s s' : Session) : Prop where
  recvq : ∀ k ∈ (s'.queue .recvq).data, k ∈ (s.queue .recvq).data
  sendq : (s'.queue .sendq).data.Sublist (s.queue .sendq).data
  timeout : ∀ k, (s'.kio k).timeout = (s.kio k).timeout
  timedout : ∀ k, (s'.kio k).state = .timedout → (s.kio k).state = .timedout ∨ E k
  takenAt : s'.takenAt = s.takenAt
  now : s'.now = s.now
  issued : s'.issued = s.issued

section Frame
variable {E P : KioId → Prop} {lib : ListLib KioId} {s s1 s2 s' : Session} {q : QId} {k : KioId}
  {rc err : ℤ} {f : Kio → Kio} {l : CList KioId}

theorem Frame.refl : Frame E s s :=
  ⟨fun _ h => h, List.Sublist.refl _, fun _ => rfl, fun _ h => Or.inl h, rfl, rfl, rfl⟩

theorem Frame.trans (h1 : Frame E s s1) (h2 : Frame E s1 s2) : Frame E s s2 where
  recvq k hk := h1.recvq k (h2.recvq k hk)
  sendq := h2.sendq.trans h1.sendq
  timeout k := (h2.timeout k).trans (h1.timeout k)
  timedout k hk := by
    rcases h2.timedout k hk with h | h
    · exact h1.timedout k h
    · exact Or.inr h
  takenAt := h2.takenAt.trans h1.takenAt
  now := h2.now.trans h1.now
  issued := h2.issued.trans h1.issued

theorem Frame.setKio (ht : ∀ x, (f x).timeout = x.timeout)
    (hs : ∀ x, (f x).state = .timedout → x.state = .timedout ∨ E k) : Frame E s (s.setKio k f) where
  recvq _ h := h
  sendq := List.Sublist.refl _
  timeout j := kio_setKio_field s k j f Kio.timeout ht
  timedout j hj := by
    rw [kio_setKio] at hj
    split_ifs at hj with hjk
    · rw [hjk]
      exact hs _ hj
    · exact Or.inl hj
  takenAt := rfl
  now := rfl
  issued := rfl

theorem Frame.setQueue (hl : l.items.Sublist (s.queue q).items) : Frame E s (s.setQueue q l) := by
  have hsub : ∀ r, ((s.setQueue q l).queue r).data.Sublist (s.queue r).data := by
    intro r
    rw [queue_setQueue]
    split_ifs with hr
    · rw [hr]
      exact hl.map _
    · exact List.Sublist.refl _
  exact ⟨fun k hk => (hsub .recvq).subset hk, hsub .sendq, fun _ => rfl, fun _ h => Or.inl h, rfl,
    rfl, rfl⟩

theorem Frame.mvrear : Frame E s (s.mvrear q) := .setQueue (List.Sublist.refl _)

/-- Queueing on compq. -/
theorem Frame.insertAfter : Frame E s (s.insertAfter .compq k) := by
  have hq : ∀ r, r ≠ .compq → (s.insertAfter .compq k).queue r = s.queue r := by
    intro r hr
    show (s.setQueue .compq _).queue r = _
    rw [queue_setQueue, if_neg hr]
  have hf : ∀ e : Option ℕ, Frame E s (s.setKio k fun x => { x with qbp := e }) := by
    intro e
    exact .setKio (fun _ => rfl) fun _ h => Or.inl h
  refine ⟨fun j hj => ?_, ?_, (hf _).timeout, (hf _).timedout, rfl, rfl, rfl⟩
  · rwa [hq .recvq (by decide)] at hj
  · rw [hq .sendq (by decide)]

theorem Frame.link : Frame E s (s.link .compq k) := Frame.mvrear.trans .insertAfter

theorem HandsBack.frame (h : HandsBack P s s') : Frame E s s' := by
  induction h with
  | refl => exact .refl
  | back q i n k l f hi hl hk hf =>
    have h1 : Frame E s (s.setQueue q l) := by
      refine .setQueue ?_
      rw [hl]
      exact List.eraseIdx_sublist _ i
    have h2 : Frame E (s.setQueue q l) ((s.setQueue q l).setKio k f) := by
      refine .setKio hf.timeout fun x hx => ?_
      rcases hf.state x with h | h
      · exact Or.inl (h ▸ hx)
      · rw [h] at hx; cases hx
    have h3 := h1.trans h2
    exact ⟨h3.recvq, h3.sendq, h3.timeout, h3.timedout, h3.takenAt, h3.now, h3.issued⟩
  | cursor q l hl _ ih => exact ih.trans (.setQueue (by rw [hl]))
  | state st _ ih => exact ⟨ih.recvq, ih.sendq, ih.timeout, ih.timedout, ih.takenAt, ih.now, ih.issued⟩

theorem senderUnqueue_frame : Frame E s (senderUnqueue lib s k) := by
  unfold senderUnqueue Session.unqbp
  refine Frame.trans (Frame.trans (.setQueue ?_) (.setKio ?_ ?_)) .mvrear
  · rw [← CList.setcurr_snd_items (s.queue .recvq) (s.kio k).qbp]
    exact CList.removeCurr_sublist _ _
  · exact fun _ => rfl
  · exact fun _ h => Or.inl h

theorem senderComplete_frame {st : KioState} (hst : st ≠ .timedout) :
    Frame E s (senderComplete s k st) := by
  unfold senderComplete
  refine Frame.link.trans (.setKio ?_ ?_)
  · exact fun _ => rfl
  · exact fun _ h => absurd h hst

theorem mark_frame : Frame E s (s.setKio k (Kio.mark rc err)) := by
  refine .setKio (fun _ => rfl) fun x hx => Or.inl ?_
  simp only [Kio.mark] at hx
  split_ifs at hx
  exact hx

theorem recvmsgComplete_frame {msg : ℕ} : Frame E s (recvmsgComplete s k msg) := by
  unfold recvmsgComplete
  refine Frame.trans (Frame.trans (.setKio ?_ ?_) .link) (.setKio ?_ ?_)
  · exact fun _ => rfl
  · exact fun _ h => Or.inl h
  · exact fun _ => rfl
  · exact fun _ h => by cases h

theorem moveAll_frame (n : ℕ) : Frame E s (moveAll lib q n s) := by
  refine moveAll_rule (fun _ => .refl) (fun _ _ _ => .trans) fun s k l m hm => ?_
  have h1 : Frame E s (s.setQueue q l) := by
    refine .setQueue ?_
    rw [hm]
    exact List.sublist_cons_self _ _
  have h2 : Frame E (s.setQueue q l) ((s.setQueue q l).setKio k Kio.abort) :=
    .setKio (fun _ => rfl) fun _ h => by cases h
  exact (h1.trans h2).trans .insertAfter

theorem recvmsgMoves_frame : Frame E s (recvmsgMoves lib s) :=
  (Frame.mvrear.trans (moveAll_frame _)).trans (moveAll_frame _)

/-! ### The sweep -/

theorem timeOut_frame {i : ℕ} (hl : l.items = (s.queue .recvq).items.eraseIdx i) (hE : E k) :
    Frame E s (timeOut (s.setQueue .recvq l) k) := by
  unfold timeOut
  have h1 : Frame E s (s.setQueue .recvq l) := by
    refine .setQueue ?_
    rw [hl]
    exact List.eraseIdx_sublist _ i
  refine ((h1.trans (.setKio ?_ ?_)).trans .link).trans (.setKio ?_ ?_)
  · exact fun _ => rfl
  · exact fun _ h => Or.inl h
  · exact fun _ => rfl
  · exact fun _ _ => Or.inr hE

/-- A section that is framed if what has expired on recvq is in `E`, and leaves it so. -/
def FrameFrom (E : KioId → Prop) (cur : Timespec) (s s' : Session) : Prop :=
  (∀ j ∈ (s.queue .recvq).data, timechk cur (s.kio j) = true → E j) →
    Frame E s s' ∧ ∀ j ∈ (s'.queue .recvq).data, timechk cur (s'.kio j) = true → E j

theorem FrameFrom.trans {cur : Timespec} (h1 : FrameFrom E cur s s1) (h2 : FrameFrom E cur s1 s2) :
    FrameFrom E cur s s2 := by
  intro hE
  obtain ⟨h3, h4⟩ := h1 hE
  obtain ⟨h5, h6⟩ := h2 h4
  exact ⟨h3.trans h5, h6⟩

theorem Frame.from {cur : Timespec} (h : (∀ j ∈ (s.queue .recvq).data, timechk cur (s.kio j) = true →
    E j) → Frame E s s') : FrameFrom E cur s s' := by
  intro hE
  refine ⟨h hE, fun j hj hexp => hE j ((h hE).recvq j hj) ?_⟩
  rwa [timechk, (h hE).timeout j] at hexp

/-- **The sweep** times out the kios of recvq that have expired, and no others. No check is made a
second time in the same second. -/
theorem sweep_frame (h : sweep lib s = some s')
    (hE : s.lastcheck.tvSec ≠ (clockGettime s.now).tvSec → ∀ j ∈ (s.queue .recvq).data,
      timechk (clockGettime s.now) (s.kio j) → E j) : Frame E s s' := by
  by_cases hsec : s.lastcheck.tvSec = (clockGettime s.now).tvSec
  · unfold sweep at h
    dsimp only at h
    rw [if_pos hsec] at h
    obtain rfl := Option.some.inj h
    exact .mvrear
  · have hrule : FrameFrom E (clockGettime s.now) s s' := by
      refine sweep_rule (fun _ => Frame.from fun _ => .refl) (fun _ _ _ => .trans) ?_ ?_ ?_ h
      · exact fun s l hl => Frame.from fun _ => .setQueue (by rw [hl])
      · exact fun _ _ => Frame.from fun _ => ⟨fun _ h => h, List.Sublist.refl _, fun _ => rfl,
          fun _ h => Or.inl h, rfl, rfl, rfl⟩
      · intro _ s k l i m hi hl hexp
        refine Frame.from fun hE => timeOut_frame hl (hE k ?_ hexp)
        exact List.mem_map_of_mem (f := Prod.snd) (List.mem_of_getElem? hi)
    exact (hrule (hE hsec)).1

end Frame

/-! ### The invariant -/

/-- The kios that the sender is still to take, at a caller or on sendq. -/
def System.waiting (s : System) : List KioId :=
  s.calls.filterMap Call.kio ++ (s.queue .sendq).data

/-- `KIO_TIMEOUT_S` seconds have passed since the sender took the kio off sendq. -/
def Overdue (s : Session) (k : KioId) : Prop :=
  ∃ t, s.takenAt k = some t ∧ t + kioTimeoutS * nsPerSec ≤ s.now

/-- **The invariant**: a kio on recvq has its deadline, or the sender is about to set it. -/
structure Timed (s : System) : Prop where
  nodup : s.waiting.Nodup
  untaken : ∀ k ∈ s.waiting, s.takenAt k = none
  waiting_issued : ∀ k ∈ s.waiting, k ∈ s.issued
  taken_issued : ∀ k t, s.takenAt k = some t → k ∈ s.issued
  working : ∀ k ∈ s.sender.kio, ∃ t, s.takenAt k = some t ∧ t ≤ s.now
  completing : ∀ k st, s.sender = .completing k st → st ≠ .timedout
  deadline : ∀ k ∈ (s.queue .recvq).data, ∃ t, s.takenAt k = some t ∧
    (s.sender = .queued k ∨ t / nsPerSec + kioTimeoutS ≤ (s.kio k).timeout.tvSec)
  timedout : ∀ k, (s.kio k).state = .timedout → Overdue s.toSession k

/-- **The condition**: the check does not find a request expired whose deadline is not set. -/
def NoEarlySweep (s : System) : Act → Prop
  | .receiver _ =>
    match s.receiver, s.sender with
    | .looping, .queued k =>
      s.lastcheck.tvSec ≠ (clockGettime s.now).tvSec → k ∈ (s.queue .recvq).data →
        timechk (clockGettime s.now) (s.kio k) = false
    | _, _ => True
  | _ => True

/-- The kio that is queued and has no deadline yet. -/
def undated : SenderPc → Option KioId
  | .queued k => some k
  | _ => none

theorem noEarlySweep_receiver (s : System) (e : ReceiverEnv) :
    NoEarlySweep s (.receiver e) ↔ s.receiver = .looping → ∀ k ∈ undated s.sender,
      s.lastcheck.tvSec ≠ (clockGettime s.now).tvSec → k ∈ (s.queue .recvq).data →
        timechk (clockGettime s.now) (s.kio k) = false := by
  unfold NoEarlySweep
  dsimp only
  split
  next k hr hs => simp [hr, hs, undated]
  next hother =>
    refine iff_of_true trivial fun hr k hk => ?_
    unfold undated at hk
    split at hk
    next k' hs => exact absurd hs (hother k' hr)
    next => cases hk

instance (s : System) : ∀ a, Decidable (NoEarlySweep s a)
  | .receiver e => decidable_of_iff' _ (noEarlySweep_receiver s e)
  | .sender _ _ | .send _ _ _ | .receive _ | .receiveUnsolicited | .drain | .drainMatch _
  | .connect _ | .disconnect _ | .call _ _ | .tick _ => isTrue trivial

section Step
variable {E : KioId → Prop} {lib : ListLib KioId} {s s' : System} {a : Act} {k : KioId}

/-- A kio past its deadline is overdue. -/
theorem overdue_of_timechk {s : Session} {t : ℕ} (ht : s.takenAt k = some t)
    (hd : t / nsPerSec + kioTimeoutS ≤ (s.kio k).timeout.tvSec)
    (hexp : timechk (clockGettime s.now) (s.kio k) = true) : Overdue s k := by
  refine ⟨t, ht, ?_⟩
  have h1 : (s.kio k).timeout.tvSec < s.now / nsPerSec := of_decide_eq_true hexp
  unfold kioTimeoutS nsPerSec at *
  omega

/-- **A framed section** keeps the invariant, if the sender does not leave the point before the
deadline is set. -/
theorem Timed.of_frame (hs : Timed s) (hf : Frame E s.toSession s'.toSession)
    (hE : ∀ k, E k → Overdue s.toSession k)
    (hcalls : (s'.calls.filterMap Call.kio).Sublist (s.calls.filterMap Call.kio))
    (hkio : ∀ k ∈ s'.sender.kio, k ∈ s.sender.kio)
    (hqueued : ∀ k, s.sender = .queued k → s'.sender = .queued k)
    (hcomp : ∀ k st, s'.sender = .completing k st → st ≠ .timedout) : Timed s' := by
  have hsub : s'.waiting.Sublist s.waiting := hcalls.append hf.sendq
  refine ⟨hs.nodup.sublist hsub, fun k hk => ?_, fun k hk => ?_, fun k t ht => ?_, fun k hk => ?_,
    hcomp, fun k hk => ?_, fun k hk => ?_⟩
  · rw [hf.takenAt]
    exact hs.untaken k (hsub.subset hk)
  · rw [hf.issued]
    exact hs.waiting_issued k (hsub.subset hk)
  · rw [hf.takenAt] at ht
    rw [hf.issued]
    exact hs.taken_issued k t ht
  · rw [hf.takenAt, hf.now]
    exact hs.working k (hkio k hk)
  · obtain ⟨t, ht, hd⟩ := hs.deadline k (hf.recvq k hk)
    rw [hf.takenAt, hf.timeout]
    exact ⟨t, ht, hd.imp_left (hqueued k)⟩
  · unfold Overdue
    rw [hf.takenAt, hf.now]
    rcases hf.timedout k hk with h | h
    · exact hs.timedout k h
    · exact hE k h

/-- Queueing a kio leaves the clock and the history. -/
theorem link_history (s : Session) (q : QId) (k : KioId) :
    (s.link q k).takenAt = s.takenAt ∧ (s.link q k).now = s.now ∧
      (s.link q k).issued = s.issued := by
  rw [link_eq]
  exact ⟨rfl, rfl, rfl⟩

/-- A new kio is neither on recvq nor timed out. -/
theorem Timed.of_issue (hs : Timed s) (hk : k ∉ s.issued) {x : Kio} (hx : x.state ≠ .timedout)
    (hsess : s'.toSession = s.issue k x) (hsender : s'.sender = s.sender)
    (hcalls : (s'.calls.filterMap Call.kio) = s.calls.filterMap Call.kio ∨
      (s'.calls.filterMap Call.kio) = k :: s.calls.filterMap Call.kio) : Timed s' := by
  have htaken : s.takenAt k = none := by
    cases h : s.takenAt k with
    | none => rfl
    | some t => exact absurd (hs.taken_issued k t h) hk
  have hwait : s'.waiting = s.waiting ∨ s'.waiting = k :: s.waiting := by
    unfold System.waiting
    rw [hsess]
    rcases hcalls with h | h
    · exact Or.inl (congrArg (· ++ _) h)
    · exact Or.inr (congrArg (· ++ _) h)
  have hmem : ∀ j ∈ s'.waiting, j = k ∨ j ∈ s.waiting := by
    intro j hj
    rcases hwait with h | h
    · exact Or.inr (h ▸ hj)
    · exact List.mem_cons.mp (h ▸ hj)
  have hkio : ∀ j, s'.kio j = if j = k then x else s.kio j := by
    intro j
    rw [hsess]
    exact kio_setKio s.toSession k j fun _ => x
  refine ⟨?_, fun j hj => ?_, fun j hj => ?_, fun j t ht => ?_, fun j hj => ?_, fun j st hj => ?_,
    fun j hj => ?_, fun j hj => ?_⟩
  · rcases hwait with h | h
    · exact h ▸ hs.nodup
    · rw [h]
      exact List.nodup_cons.mpr ⟨fun hw => hk (hs.waiting_issued k hw), hs.nodup⟩
  · rw [hsess]
    rcases hmem j hj with rfl | hj
    · exact htaken
    · exact hs.untaken j hj
  · rw [hsess]
    rcases hmem j hj with rfl | hj
    · exact List.mem_cons_self ..
    · exact List.mem_cons_of_mem _ (hs.waiting_issued j hj)
  · rw [hsess] at ht ⊢
    exact List.mem_cons_of_mem _ (hs.taken_issued j t ht)
  · rw [hsess]
    exact hs.working j (hsender ▸ hj)
  · exact hs.completing j st (hsender ▸ hj)
  · have hj' : j ∈ (s.queue .recvq).data := by rwa [hsess] at hj
    obtain ⟨t, ht, hd⟩ := hs.deadline j hj'
    have hjk : j ≠ k := by
      rintro rfl
      exact hk (hs.taken_issued j t ht)
    refine ⟨t, by rw [hsess]; exact ht, ?_⟩
    rw [hsender, hkio, if_neg hjk]
    exact hd
  · rw [hkio] at hj
    split_ifs at hj with hjk
    · exact absurd hj hx
    · have := hs.timedout j hj
      rwa [hsess]

/-- `ktli_send` queues a kio: it waits on sendq and no longer at its caller. -/
theorem Timed.of_sendLock (hs : Timed s) (hc : Call.sendLock k ∈ s.calls) (mem : Bool) :
    Timed { s with
      toSession := (sendLock s.toSession k mem).2, calls := s.calls.erase (.sendLock k) } := by
  have hperm : (s.calls.filterMap Call.kio).Perm
      (k :: (s.calls.erase (.sendLock k)).filterMap Call.kio) := filterMap_erase hc
  cases mem with
  | false =>
    refine hs.of_frame (E := fun _ => False) ?_ (fun _ h => h.elim) ?_ (fun _ h => h)
      (fun _ h => h) hs.completing
    · have h1 : Frame (fun _ => False) s.toSession ((s.toSession.mvrear .sendq).setKio k id) :=
        Frame.mvrear.trans (.setKio (fun _ => rfl) fun _ h => Or.inl h)
      exact ⟨h1.recvq, h1.sendq, h1.timeout, h1.timedout, h1.takenAt, h1.now, h1.issued⟩
    · exact (List.erase_sublist).filterMap _
  | true =>
    set x : Session :=
      (s.toSession.link .sendq k).setKio k fun x => { x with state := .new } with hx
    have hitems : ∀ q, (x.queue q).items =
        if q = .sendq then (s.queue .sendq).items ++ [(s.nextNode, k)] else (s.queue q).items :=
      fun q => items_link s.toSession .sendq q k
    have htime : ∀ j, (x.kio j).timeout = (s.kio j).timeout := by
      intro j
      rw [hx, kio_setKio_field _ _ _ _ Kio.timeout, kio_link_field _ _ _ _ Kio.timeout]
      · exact fun _ _ => rfl
      · exact fun _ => rfl
    have hstate : ∀ j, (x.kio j).state = .timedout → (s.kio j).state = .timedout := by
      intro j hj
      rw [hx, kio_setKio] at hj
      split_ifs at hj
      rwa [kio_link_field _ _ _ _ Kio.state fun _ _ => rfl] at hj
    have hsess : x.takenAt = s.takenAt ∧ x.now = s.now ∧ x.issued = s.issued :=
      link_history s.toSession .sendq k
    have hwait : s.waiting.Perm
        ((s.calls.erase (.sendLock k)).filterMap Call.kio ++ (x.queue .sendq).data) := by
      have hd : (x.queue .sendq).data = (s.queue .sendq).data ++ [k] := by
        simp [CList.data, hitems]
      unfold System.waiting
      rw [hd, ← List.append_assoc]
      refine (hperm.append_right _).trans ?_
      exact (List.perm_append_singleton k _).symm
    obtain ⟨h1, h2, h3⟩ := hsess
    refine ⟨hwait.nodup_iff.mp hs.nodup, fun j hj => ?_, fun j hj => ?_, fun j t ht => ?_,
      fun j hj => ?_, hs.completing, fun j hj => ?_, fun j hj => ?_⟩
    · show x.takenAt j = none
      rw [h1]
      exact hs.untaken j (hwait.mem_iff.mpr hj)
    · show j ∈ x.issued
      rw [h3]
      exact hs.waiting_issued j (hwait.mem_iff.mpr hj)
    · show j ∈ x.issued
      rw [h3]
      exact hs.taken_issued j t (h1 ▸ ht)
    · show ∃ t, x.takenAt j = some t ∧ t ≤ x.now
      rw [h1, h2]
      exact hs.working j hj
    · have hj' : j ∈ (x.queue .recvq).data := hj
      rw [CList.data, hitems, if_neg (by decide)] at hj'
      obtain ⟨t, ht, hd⟩ := hs.deadline j hj'
      refine ⟨t, ?_, ?_⟩
      · show x.takenAt j = some t
        rw [h1, ht]
      · show s.sender = .queued j ∨ t / nsPerSec + kioTimeoutS ≤ (x.kio j).timeout.tvSec
        rwa [htime]
    · obtain ⟨t, ht, hd⟩ := hs.timedout j (hstate j hj)
      refine ⟨t, ?_, ?_⟩
      · show x.takenAt j = some t
        rw [h1, ht]
      · show t + kioTimeoutS * nsPerSec ≤ x.now
        rwa [h2]

/-- The sender takes the front kio of sendq, which was never taken before. -/
theorem Timed.of_take (hs : Timed s) (hpc : s.sender = .take) {s1 : Session}
    (h : senderTake lib s.toSession = some (k, s1)) :
    Timed { s with toSession := s1, sender := .taken k } := by
  obtain ⟨n, l, hn, rfl⟩ := senderTake_some h
  have hsendq : (s.queue .sendq).data = k :: l.data := by simp [CList.data, hn]
  have hwait : s.waiting.Perm (k :: (s.calls.filterMap Call.kio ++ l.data)) := by
    unfold System.waiting
    rw [hsendq]
    exact List.perm_middle
  have hnodup := hwait.nodup_iff.mp hs.nodup
  have hk : k ∈ s.waiting := hwait.mem_iff.mpr (List.mem_cons_self ..)
  have hnone := hs.untaken k hk
  have htaken : ∀ i t, s.takenAt i = some t →
      Function.update s.takenAt k (some s.now) i = some t := by
    intro i t ht
    have hik : i ≠ k := by
      rintro rfl
      rw [hnone] at ht; cases ht
    rw [Function.update_of_ne hik, ht]
  have hwait' : ∀ i ∈ s.calls.filterMap Call.kio ++ l.data, i ∈ s.waiting ∧ i ≠ k := by
    intro i hi
    refine ⟨hwait.mem_iff.mpr (List.mem_cons_of_mem _ hi), ?_⟩
    rintro rfl
    exact (List.nodup_cons.mp hnodup).1 hi
  have hq : ∀ q, (((s.setQueue .sendq l).unqbp k).queue q) = if q = .sendq then l else s.queue q :=
    fun q => queue_setQueue s.toSession .sendq q l
  have hsendq' : (((s.setQueue .sendq l).unqbp k).queue .sendq).data = l.data := by
    rw [hq, if_pos rfl]
  refine ⟨?_, fun i hi => ?_, fun i hi => ?_, fun i t ht => ?_, fun i hi => ?_,
    (fun i st hi => by cases hi), fun i hi => ?_, fun i hi => ?_⟩
  · show (s.calls.filterMap Call.kio ++ (((s.setQueue .sendq l).unqbp k).queue .sendq).data).Nodup
    rw [hsendq']
    exact (List.nodup_cons.mp hnodup).2
  · have hi' : i ∈ s.calls.filterMap Call.kio ++ l.data := hsendq' ▸ hi
    show Function.update s.takenAt k (some s.now) i = none
    rw [Function.update_of_ne (hwait' i hi').2]
    exact hs.untaken i (hwait' i hi').1
  · have hi' : i ∈ s.calls.filterMap Call.kio ++ l.data := hsendq' ▸ hi
    exact hs.waiting_issued i (hwait' i hi').1
  · by_cases hik : i = k
    · subst hik
      exact hs.waiting_issued i hk
    · have ht' : Function.update s.takenAt k (some s.now) i = some t := ht
      rw [Function.update_of_ne hik] at ht'
      exact hs.taken_issued i t ht'
  · cases hi
    exact ⟨s.now, Function.update_self .., le_rfl⟩
  · have hi' : i ∈ (((s.setQueue .sendq l).unqbp k).queue .recvq).data := hi
    rw [hq, if_neg (by decide)] at hi'
    obtain ⟨t, ht, hd⟩ := hs.deadline i hi'
    refine ⟨t, htaken i t ht, Or.inr ?_⟩
    show t / nsPerSec + kioTimeoutS ≤ (((s.setQueue .sendq l).unqbp k).kio i).timeout.tvSec
    have htime : (((s.setQueue .sendq l).unqbp k).kio i).timeout = (s.kio i).timeout :=
      kio_setKio_field _ _ _ _ Kio.timeout fun _ => rfl
    rw [htime]
    rcases hd with hd | hd
    · rw [hpc] at hd; cases hd
    · exact hd
  · have hi' : (((s.setQueue .sendq l).unqbp k).kio i).state = .timedout := hi
    have hstate : (((s.setQueue .sendq l).unqbp k).kio i).state = (s.kio i).state :=
      kio_setKio_field _ _ _ _ Kio.state fun _ => rfl
    rw [hstate] at hi'
    obtain ⟨t, ht, hd⟩ := hs.timedout i hi'
    exact ⟨t, htaken i t ht, hd⟩

/-- A section of the sender that is framed, from a point where the deadline is set. -/
theorem Timed.of_sender (hs : Timed s) {s1 : Session} {pc : SenderPc}
    (hf : Frame (fun _ => False) s.toSession s1) (hpc : ∀ k, s.sender ≠ .queued k)
    (hkio : ∀ k ∈ pc.kio, k ∈ s.sender.kio)
    (hcomp : ∀ k st, pc = .completing k st → st ≠ .timedout) :
    Timed { s with toSession := s1, sender := pc } :=
  hs.of_frame hf (fun _ h => h.elim) (List.Sublist.refl _) hkio
    (fun k hk => absurd hk (hpc k)) hcomp

/-- The sender queues the kio on recvq, and sets the deadline next. -/
theorem Timed.of_queue (hs : Timed s) (hpc : s.sender = .sequenced k) :
    Timed { s with toSession := senderQueue s.toSession k, sender := .queued k } := by
  have hkio : ∀ j ∈ (SenderPc.queued k).kio, j ∈ s.sender.kio := by
    rw [hpc]
    exact fun _ hj => hj
  have hnq : ∀ j, s.sender ≠ .queued j := by
    rw [hpc]
    exact fun _ hj => by cases hj
  unfold senderQueue
  split_ifs with hreq
  · exact hs.of_sender .refl hnq hkio fun _ _ h => by cases h
  obtain ⟨t, ht, hle⟩ := hs.working k (by rw [hpc]; exact rfl)
  have hq : ∀ q, ((s.toSession.link .recvq k).queue q).items =
      if q = .recvq then (s.queue .recvq).items ++ [(s.nextNode, k)] else (s.queue q).items :=
    fun q => items_link s.toSession .recvq q k
  have hsendq : ((s.toSession.link .recvq k).queue .sendq).data = (s.queue .sendq).data := by
    simp [CList.data, hq]
  have hrecvq : ((s.toSession.link .recvq k).queue .recvq).data = (s.queue .recvq).data ++ [k] := by
    simp [CList.data, hq]
  have htime : ∀ j, ((s.toSession.link .recvq k).kio j).timeout = (s.kio j).timeout :=
    fun j => kio_link_field _ _ _ j Kio.timeout fun _ _ => rfl
  have hstate : ∀ j, ((s.toSession.link .recvq k).kio j).state = (s.kio j).state :=
    fun j => kio_link_field _ _ _ j Kio.state fun _ _ => rfl
  have hwait : ({ s with
      toSession := s.toSession.link .recvq k, sender := .queued k } : System).waiting = s.waiting :=
    congrArg (s.calls.filterMap Call.kio ++ ·) hsendq
  obtain ⟨h1, h2, h3⟩ := link_history s.toSession .recvq k
  refine ⟨?_, fun j hj => ?_, fun j hj => ?_, fun j t ht => ?_, fun j hj => ?_,
    (fun j st hj => by cases hj), fun j hj => ?_, fun j hj => ?_⟩
  · rw [hwait]
    exact hs.nodup
  · rw [hwait] at hj
    exact (congrFun h1 j).trans (hs.untaken j hj)
  · rw [hwait] at hj
    exact h3 ▸ hs.waiting_issued j hj
  · exact h3 ▸ hs.taken_issued j t ((congrFun h1 j).symm.trans ht)
  · cases hj
    exact ⟨t, (congrFun h1 k).trans ht, h2 ▸ hle⟩
  · have hj' : j ∈ ((s.toSession.link .recvq k).queue .recvq).data := hj
    rw [hrecvq] at hj'
    rcases List.mem_append.mp hj' with hj' | hj'
    · obtain ⟨t, ht, hd⟩ := hs.deadline j hj'
      refine ⟨t, (congrFun h1 j).trans ht, Or.inr ?_⟩
      show t / nsPerSec + kioTimeoutS ≤ ((s.toSession.link .recvq k).kio j).timeout.tvSec
      rw [htime]
      exact hd.resolve_left (hnq j)
    · obtain rfl := List.mem_singleton.mp hj'
      exact ⟨t, (congrFun h1 j).trans ht, Or.inl rfl⟩
  · obtain ⟨t, ht, hd⟩ := hs.timedout j ((hstate j).symm.trans hj)
    exact ⟨t, (congrFun h1 j).trans ht, h2 ▸ hd⟩

/-- The sender sets the deadline. -/
theorem Timed.of_timeout (hs : Timed s) (hpc : s.sender = .queued k) :
    Timed { s with toSession := senderTimeout s.toSession k, sender := .timed k } := by
  obtain ⟨t, ht, hle⟩ := hs.working k (by rw [hpc]; exact rfl)
  have hkio : ∀ j, (senderTimeout s.toSession k).kio j =
      if j = k then { s.kio k with timeout := Ktli.deadline s.now } else s.kio j :=
    fun j => kio_setKio s.toSession k j _
  refine ⟨hs.nodup, hs.untaken, hs.waiting_issued, hs.taken_issued, fun j hj => ?_,
    (fun j st hj => by cases hj), fun j hj => ?_, fun j hj => hs.timedout j ?_⟩
  · cases hj
    exact ⟨t, ht, hle⟩
  · obtain ⟨u, hu, hd⟩ := hs.deadline j hj
    refine ⟨u, hu, Or.inr ?_⟩
    show u / nsPerSec + kioTimeoutS ≤ ((senderTimeout s.toSession k).kio j).timeout.tvSec
    rw [hkio]
    split_ifs with hjk
    · subst hjk
      obtain rfl := Option.some.inj (ht.symm.trans hu)
      exact Nat.add_le_add_right (Nat.div_le_div_right hle) _
    · rcases hd with hd | hd
      · rw [hpc] at hd
        cases hd
        exact absurd rfl hjk
      · exact hd
  · have hj' : ((senderTimeout s.toSession k).kio j).state = .timedout := hj
    rw [hkio] at hj'
    split_ifs at hj' with hjk
    · rw [hjk]
      exact hj'
    · exact hj'

/-- Time passes. -/
theorem Timed.of_tick (hs : Timed s) (ns : ℕ) : Timed { s with now := s.now + ns } := by
  refine ⟨hs.nodup, hs.untaken, hs.waiting_issued, hs.taken_issued, fun j hj => ?_, hs.completing,
    hs.deadline, fun j hj => ?_⟩
  · obtain ⟨t, ht, hle⟩ := hs.working j hj
    exact ⟨t, ht, Nat.le_add_right_of_le hle⟩
  · obtain ⟨t, ht, hle⟩ := hs.timedout j hj
    exact ⟨t, ht, Nat.le_add_right_of_le hle⟩

theorem senderResult_frame {s s1 : Session} {pc : SenderPc} {rc : ℤ}
    (h : senderResult lib s k rc = (s1, pc)) :
    Frame E s s1 ∧ (∀ j ∈ pc.kio, j = k) ∧ ∀ j st, pc = .completing j st → st ≠ .timedout := by
  unfold senderResult at h
  split_ifs at h <;> obtain ⟨rfl, rfl⟩ := Prod.mk.inj h
  · refine ⟨.refl, ?_, ?_⟩
    · rintro j ⟨⟩
      rfl
    · rintro j st ⟨⟩
      decide
  · refine ⟨.refl, ?_, ?_⟩
    · rintro j ⟨⟩
      rfl
    · rintro j st ⟨⟩
      decide
  · refine ⟨senderUnqueue_frame, ?_, ?_⟩
    · rintro j ⟨⟩
      rfl
    · rintro j st ⟨⟩
      decide
  · refine ⟨.refl, ?_, ?_⟩
    · rintro j ⟨⟩
    · rintro j st ⟨⟩

/-- **Every step of the sender.** -/
theorem Timed.of_senderStep (hs : Timed s) {rc err : ℤ} {r : Session × SenderPc}
    (h : senderStep lib s.toSession rc err s.sender = some r) :
    Timed { s with toSession := r.1, sender := r.2 } := by
  rcases hpc : s.sender with _ | _ | _ | _ | k | k | k | k | ⟨k, rc1, err1⟩ | ⟨k, rc1⟩ | ⟨k, st⟩ | _
  all_goals rw [hpc] at h
  · -- idle
    obtain rfl := Option.some.inj h
    exact hs.of_sender .refl (by simp [hpc]) (by rintro j ⟨⟩) (by rintro j st ⟨⟩)
  · -- woken
    obtain rfl := Option.some.inj h
    refine hs.of_sender .refl (by simp [hpc]) ?_ ?_
    · dsimp only
      split_ifs <;> rintro j ⟨⟩
    · dsimp only
      split_ifs <;> rintro j st ⟨⟩
  · -- loop
    obtain rfl := Option.some.inj h
    refine hs.of_sender .refl (by simp [hpc]) ?_ ?_
    · dsimp only
      split_ifs <;> rintro j ⟨⟩
    · dsimp only
      split_ifs <;> rintro j st ⟨⟩
  · -- take
    obtain ⟨⟨k, s1⟩, h1, rfl⟩ := Option.map_eq_some_iff.mp h
    exact hs.of_take hpc h1
  · -- taken
    obtain rfl := Option.some.inj h
    have hf : Frame (fun _ => False) s.toSession (senderSequence s.toSession k) := by
      have h1 : Frame (fun _ => False) s.toSession
          (s.toSession.setKio k fun x => { x with seq := s.sequence }) :=
        .setKio (fun _ => rfl) fun _ h => Or.inl h
      exact ⟨h1.recvq, h1.sendq, h1.timeout, h1.timedout, h1.takenAt, h1.now, h1.issued⟩
    exact hs.of_sender hf (by simp [hpc]) (by rw [hpc]; exact fun _ hj => hj) (by rintro j st ⟨⟩)
  · -- sequenced
    obtain rfl := Option.some.inj h
    exact hs.of_queue hpc
  · -- queued
    obtain rfl := Option.some.inj h
    exact hs.of_timeout hpc
  · -- timed
    obtain rfl := Option.some.inj h
    exact hs.of_sender .refl (by simp [hpc]) (by rw [hpc]; exact fun _ hj => hj) (by rintro j st ⟨⟩)
  · -- sent
    obtain rfl := Option.some.inj h
    exact hs.of_sender mark_frame (by simp [hpc]) (by rw [hpc]; exact fun _ hj => hj)
      (by rintro j st ⟨⟩)
  · -- marked
    obtain rfl := Option.some.inj h
    obtain ⟨hf, hk, hst⟩ := @senderResult_frame (fun _ => False) lib k s.toSession _ _ rc1 rfl
    refine hs.of_sender hf (by simp [hpc]) (fun j hj => ?_) hst
    rw [hpc, hk j hj]
    exact rfl
  · -- completing
    obtain rfl := Option.some.inj h
    exact hs.of_sender (senderComplete_frame (hs.completing k st hpc)) (by simp [hpc])
      (by rintro j ⟨⟩) (by rintro j st ⟨⟩)
  · -- exited
    cases h

/-- A step of the receiver or of a call that is framed. -/
theorem Timed.of_other (hs : Timed s) {s1 : Session} {calls : List Call} {rpc : ReceiverPc}
    (hf : Frame E s.toSession s1) (hE : ∀ k, E k → Overdue s.toSession k)
    (hcalls : (calls.filterMap Call.kio).Sublist (s.calls.filterMap Call.kio)) :
    Timed { s with toSession := s1, receiver := rpc, calls := calls } :=
  hs.of_frame hf hE hcalls (fun _ h => h) (fun _ h => h) hs.completing

/-- The match section queues nothing; a kio it makes is a new one. -/
theorem Timed.of_match (hs : Timed s) {rc aseq : ℤ} {msg : ℕ} {alloc : Option KioId}
    {r : Session × ReceiverPc} (h : receiverMatch lib s.toSession rc aseq msg alloc = some r) :
    Timed { s with toSession := r.1, receiver := r.2 } := by
  unfold receiverMatch at h
  split_ifs at h with hfresh
  obtain ⟨⟨m, s1⟩, hm, rfl⟩ := Option.map_eq_some_iff.mp h
  rcases recvmsgMatch_cases hm with ⟨rfl, -, l, hl, rfl⟩ | ⟨rfl, -, -, rfl⟩ |
    ⟨k, rfl, -, rfl, rfl⟩ | ⟨i, k, rfl, hrem, -, -⟩
  · refine hs.of_other (E := fun _ => False) (.setQueue ?_) (fun _ h => h.elim)
      (List.Sublist.refl _)
    rw [hl]
  · exact hs.of_other (E := fun _ => False) (.setQueue (List.Sublist.refl _)) (fun _ h => h.elim)
      (List.Sublist.refl _)
  · have hs1 : s.toSession.setQueue .recvq (s.queue .recvq) = s.toSession := by
      unfold Session.setQueue
      rw [Function.update_eq_self]
    rw [hs1]
    have hissue : Timed { s with toSession := s.toSession.issue k (unsolicitedKio aseq) } :=
      hs.of_issue (hfresh k rfl) (x := unsolicitedKio aseq) (fun h => by cases h) rfl rfl
        (Or.inl rfl)
    exact hissue.of_other (E := fun _ => False) .mvrear (fun _ h => h.elim) (List.Sublist.refl _)
  · obtain ⟨l, hl, rfl⟩ := hrem.eq
    refine hs.of_other (E := fun _ => False) (Frame.trans (.trans (.setQueue ?_) (.setKio ?_ ?_))
      .mvrear) (fun _ h => h.elim) (List.Sublist.refl _)
    · rw [hl]
      exact List.eraseIdx_sublist _ i
    · exact fun _ => rfl
    · exact fun _ h => Or.inl h

/-- **The sweep of a step that meets the condition** times out overdue kios only. -/
theorem Timed.of_sweep (hs : Timed s) (hpc : s.receiver = .looping) {e : ReceiverEnv}
    (hok : NoEarlySweep s (.receiver e)) {s1 : Session} (h : sweep lib s.toSession = some s1) :
    Timed { s with toSession := s1, receiver := .swept } := by
  refine hs.of_other (E := Overdue s.toSession) (sweep_frame h fun hlast k hk hexp => ?_)
    (fun _ h => h) (List.Sublist.refl _)
  obtain ⟨t, ht, hd⟩ := hs.deadline k hk
  rcases hd with hd | hd
  · simp only [NoEarlySweep, hpc, hd] at hok
    rw [hok hlast hk] at hexp
    cases hexp
  · exact overdue_of_timechk ht hd hexp

theorem Timed.of_receiverStep (hs : Timed s) {e : ReceiverEnv}
    (hok : NoEarlySweep s (.receiver e)) {r : Session × ReceiverPc}
    (h : receiverStep lib s.toSession e s.receiver = some r) :
    Timed { s with toSession := r.1, receiver := r.2 } := by
  have hframe : ∀ {s1 : Session} (rpc : ReceiverPc), Frame (fun _ => False) s.toSession s1 →
      Timed { s with toSession := s1, receiver := rpc } := fun _ hf =>
    hs.of_other hf (fun _ h => h.elim) (List.Sublist.refl _)
  cases hpc : s.receiver with
  | waiting | polling | receiving | disconnecting | swept =>
    rw [hpc] at h
    obtain rfl := Option.some.inj h
    exact hframe _ .refl
  | aborting | disconnected =>
    rw [hpc] at h
    obtain rfl := Option.some.inj h
    exact hframe _ ⟨fun _ h => h, List.Sublist.refl _, fun _ => rfl, fun _ h => Or.inl h, rfl, rfl,
      rfl⟩
  | matching rc aseq msg =>
    rw [hpc] at h
    exact hs.of_match h
  | matched k msg =>
    rw [hpc] at h
    obtain rfl := Option.some.inj h
    exact hframe _ recvmsgComplete_frame
  | locking held todo =>
    rw [hpc] at h
    cases todo with
    | nil =>
      obtain rfl := Option.some.inj h
      exact hframe _ recvmsgMoves_frame
    | cons q todo =>
      simp only [receiverStep] at h
      split_ifs at h
      obtain rfl := Option.some.inj h
      exact hframe _ .refl
  | looping =>
    rw [hpc] at h
    obtain ⟨s1, h1, rfl⟩ := Option.map_eq_some_iff.mp h
    exact hs.of_sweep hpc hok h1
  | exited =>
    rw [hpc] at h
    cases h

/-- A call that begins without a kio. -/
theorem Timed.of_push (hs : Timed s) {c : Option Call} (hc : ∀ c' ∈ c, c'.kio = none) :
    Timed (s.push (s.toSession, c)) := by
  refine hs.of_other (E := fun _ => False) .refl (fun _ h => h.elim) ?_
  rw [filterMap_push hc]

theorem Timed.of_send (hs : Timed s) {flags : ℕ} {msg : KioMsg}
    (h : step lib s (.send k flags msg) = some s') : Timed s' := by
  obtain ⟨r, hr, rfl⟩ := Option.map_eq_some_iff.mp h
  unfold sendBegin at hr
  split_ifs at hr with h1
  · obtain rfl := Option.some.inj hr
    exact hs.of_push (by simp)
  · obtain rfl := Option.some.inj hr
    exact hs.of_push (by simp)
  · obtain rfl := Option.some.inj hr
    refine hs.of_issue h1 ?_ rfl rfl (Or.inr rfl)
    simp

theorem Timed.of_call (hs : Timed s) {c : Call} {mem : Bool}
    (h : step lib s (.call c mem) = some s') : Timed s' := by
  simp only [step] at h
  split_ifs at h with hc
  obtain ⟨r, hr, rfl⟩ := Option.map_eq_some_iff.mp h
  cases hk : c.kio with
  | none =>
    refine hs.of_other (E := fun _ => False) (callStep_handsBack hr hk).frame (fun _ h => h.elim) ?_
    rw [filterMap_push (callStep_kio hr)]
    exact List.erase_sublist.filterMap _
  | some k =>
    cases c with
    | sendLock j =>
      cases hk
      obtain rfl := Option.some.inj hr
      exact hs.of_sendLock hc.1 mem
    | _ => cases hk

theorem timed_init (h : Init s) : Timed s := by
  obtain ⟨now, rfl⟩ := h
  refine ⟨List.nodup_nil, ?_, ?_, ?_, ?_, ?_, ?_, ?_⟩
  · rintro k ⟨⟩
  · rintro k ⟨⟩
  · rintro k t ⟨⟩
  · rintro k ⟨⟩
  · rintro k st ⟨⟩
  · rintro k ⟨⟩
  · rintro k ⟨⟩

/-- **Every step that meets the condition keeps the deadlines.** -/
theorem timed_step (hs : Timed s) (hok : NoEarlySweep s a) (h : step lib s a = some s') :
    Timed s' := by
  cases a with
  | send k flags msg => exact hs.of_send h
  | receive | receiveUnsolicited | drain | drainMatch | connect | disconnect =>
    obtain ⟨c, rfl, hc⟩ := step_push h rfl
    exact hs.of_push fun c' h' => (hc c' h').kio
  | call c mem => exact hs.of_call h
  | sender rc err =>
    simp only [step] at h
    split_ifs at h
    obtain ⟨r, hr, rfl⟩ := Option.map_eq_some_iff.mp h
    exact hs.of_senderStep hr
  | receiver e =>
    obtain ⟨r, hr, rfl⟩ := Option.map_eq_some_iff.mp h
    exact hs.of_receiverStep hok hr
  | tick ns =>
    obtain rfl := Option.some.inj h
    exact hs.of_tick ns

end Step

/-! ### The runs -/

theorem Timed.of_reach {lib : ListLib KioId} {s : System}
    (h : Reach (step lib) NoEarlySweep Init s) : Timed s :=
  h.invariant (fun _ => timed_init) fun _ _ _ hs hok hstep => timed_step hs hok hstep

/-- **No request is timed out early** in a run whose steps meet the condition. -/
theorem timedout_in_time (lib : ListLib KioId) (s : System)
    (h : Reach (step lib) NoEarlySweep Init s) :
    ∀ k, (s.kio k).state = .timedout → Overdue s.toSession k :=
  (Timed.of_reach h).timedout

/-! ### A request that is timed out, and one that is timed out too early -/

/-- A connected session and a request on sendq that the sender has woken up for. -/
def oneRequest : List Act :=
  [.connect 0, .call .connected true, .send 0 1 oneBuffer, .call (.sendLock 0) true,
    .sender 0 0, .sender 0 0]

/-- What the receiver's environment answers when the poll times out. -/
def quietEnv : ReceiverEnv := { responseEnv 0 with poll := 0 }

/-- The receiver finds the session connected, polls, and sweeps. -/
def quietSweep : List Act := List.replicate 3 (.receiver quietEnv)

/-- The request is sent and no response comes for 31 seconds. -/
def silentTrace : List Act :=
  oneRequest ++ upToSend ++ sendReturns 10 ++ [.tick (31 * nsPerSec)] ++ quietSweep

theorem silentTrace_overdue : ∃ s : System,
    run (step (ListLib.next KioId)) { now := nsPerSec } silentTrace = some s ∧
      (s.kio 0).state = .timedout ∧ Overdue s.toSession 0 := by
  obtain ⟨s, hs, hst⟩ := Option.map_eq_some_iff.mp
    (show (run (step (ListLib.next KioId)) { now := nsPerSec } silentTrace).map (fun s =>
      (s.kio 0).state) = some .timedout by decide)
  have hreach : Reach (step (ListLib.next KioId)) NoEarlySweep Init s :=
    reach_of_run ⟨nsPerSec, rfl⟩ (by decide) hs
  exact ⟨s, hs, hst, timedout_in_time (ListLib.next KioId) s hreach 0 hst⟩

/-- The receiver sweeps after the request is queued on recvq and before its deadline is set. -/
def earlyTrace : List Act := oneRequest ++ List.replicate 4 (.sender 0 0) ++ quietSweep

/-- **A request is timed out at once**, in the very nanosecond it was taken off sendq. -/
theorem timed_out_at_once :
    ¬ ∀ s, Reach (step (ListLib.next KioId)) always Init s →
      ∀ k, (s.kio k).state = .timedout → Overdue s.toSession k := by
  intro hall
  obtain ⟨s, hs, hq⟩ := Option.map_eq_some_iff.mp
    (show (run (step (ListLib.next KioId)) { now := nsPerSec } earlyTrace).map (fun s =>
      ((s.kio 0).state, s.takenAt 0, s.now)) = some (.timedout, some nsPerSec, nsPerSec) by decide)
  obtain ⟨h1, h2⟩ := Prod.mk.inj hq
  obtain ⟨h2, h3⟩ := Prod.mk.inj h2
  obtain ⟨t, ht, hle⟩ :=
    hall s (reach_of_run ⟨nsPerSec, rfl⟩ (runOk_always _ _) hs) 0 h1
  obtain rfl := Option.some.inj (h2.symm.trans ht)
  rw [h3] at hle
  exact absurd hle (by decide)

end Libkinetic.Ktli
