import Libkinetic.Ktli.View

/-! # Every section is a sequence of shifts

The view of a session, and for each section of the calls, of the sender and of the receiver the
shifts that it amounts to. Two sections are shifts only under a condition: the sender's pop of a
failed request, if the request is still on recvq (`view_senderUnqueue`), and the receiver's match
section, if it is one of those that are right (`receiverMatch_shifts`). -/

namespace Libkinetic.Ktli

open Libkinetic.Base.CursorList

/-! ### The view of a session -/

/-- What is in the hands, given which kios need no response. -/
abbrev Hands := (KioId → Bool) → Hand → Multiset KioId

def Session.view (s : Session) (H : Hands) : View where
  items q := (s.queue q).items
  qbp k := (s.kio k).qbp
  nextNode := s.nextNode
  hand := H s.reqonly
  issued := s.issued
  accepted := s.accepted
  returned := s.returned

section View
variable {s : Session} {H : Hands} {q : QId} {k : KioId} {f : Kio → Kio} {l : CList KioId}

theorem reqonly_setKio_fun (hf : ∀ x, (f x).flags = x.flags) : (s.setKio k f).reqonly = s.reqonly :=
  funext fun j => reqonly_setKio s k j f hf

theorem reqonly_link : (s.link q k).reqonly = s.reqonly := by
  funext j
  unfold Session.reqonly
  rw [kio_link_field s q k j Kio.flags fun _ _ => rfl]

/-- An update that leaves the flags and the back pointer alone. -/
theorem view_setKio (hf : ∀ x, (f x).flags = x.flags) (hb : ∀ x, (f x).qbp = x.qbp) :
    (s.setKio k f).view H = s.view H :=
  View.ext rfl (funext fun j => kio_setKio_field s k j f Kio.qbp hb) rfl
    (congrArg H (reqonly_setKio_fun hf)) rfl rfl rfl

theorem view_setQueue (h : l.items = (s.queue q).items) :
    (s.setQueue q l).view H = s.view H := by
  refine View.ext (funext fun r => ?_) rfl rfl rfl rfl rfl rfl
  show ((s.setQueue q l).queue r).items = _
  rw [queue_setQueue]
  split_ifs with hr
  · rw [h, hr]
    rfl
  · rfl

@[simp] theorem view_mvrear : (s.mvrear q).view H = s.view H := view_setQueue (CList.items_mvrear _)

theorem view_link : (s.link q k).view H = (s.view H).link q k := by
  refine View.ext (funext fun r => ?_) (funext fun j => ?_) ?_ (congrArg H reqonly_link) ?_ ?_ ?_
  · simp only [Session.view, View.link, Function.update_apply, items_link]
  · simp only [Session.view, View.link, Function.update_apply, kio_link]
    split_ifs <;> rfl
  all_goals
    rw [link_eq]
    rfl

/-- Taking an element off a queue and clearing its kio's back pointer. -/
theorem view_unlink (hf : ∀ x, (f x).flags = x.flags) (hb : ∀ x, (f x).qbp = none) {i : ℕ}
    (hl : l.items = (s.queue q).items.eraseIdx i) :
    ((s.setQueue q l).setKio k f).view H = (s.view H).unlink q i k := by
  refine View.ext (funext fun r => ?_) (funext fun j => ?_) rfl
    (congrArg H (reqonly_setKio_fun hf)) rfl rfl rfl
  · simp only [Session.view, View.unlink, Function.update_apply, queue_setKio, queue_setQueue]
    split_ifs
    · exact hl
    · rfl
  · simp only [Session.view, View.unlink, Function.update_apply, kio_setKio]
    split_ifs
    · exact hb _
    · rfl

/-- A new kio: the flags it brings must not count for what is in the hands. -/
theorem view_issue {x : Kio} (hx : x.qbp = none) (hH : H (s.issue k x).reqonly = H s.reqonly) :
    (s.issue k x).view H = (s.view H).issue k := by
  refine View.ext rfl (funext fun j => ?_) rfl hH rfl rfl rfl
  show ((s.setKio k fun _ => x).kio j).qbp = (Function.update (s.view H).qbp k none) j
  rw [kio_setKio, Function.update_apply]
  split_ifs
  · exact hx
  · rfl

@[simp] theorem view_accept : (s.accept k).view H = (s.view H).accept k := rfl

theorem view_handBack (s : Session) (k : KioId) (f : Kio → Kio) :
    (handBack s k f).view H = ((s.setKio k f).view H).handBack k := rfl

end View

/-! ### The sections of the calls -/

section Calls
variable {P : KioId → Prop} {H : Hands} {lib : ListLib KioId} {s s' : Session} {q : QId} {k : KioId}
  {rc : ℤ} {f : Kio → Kio} {l : CList KioId}

/-- From a queue to a hand. -/
theorem unlink_shift (h : Hand) (hh : h ≠ .caller) (hf : ∀ x, (f x).flags = x.flags)
    (hb : ∀ x, (f x).qbp = none) {i n : ℕ} (hi : (s.queue q).items[i]? = some (n, k))
    (hl : l.items = (s.queue q).items.eraseIdx i) (hk : P k) :
    Shift P (s.view H) ((((s.setQueue q l).setKio k f).view H).give h k) := by
  rw [view_unlink hf hb hl]
  exact .unlink h hh q i n k hk hi

theorem sendLock_shifts (mem : Bool) :
    Shifts P ((s.view H).give .caller k) ((sendLock s k mem).2.view H) := by
  unfold sendLock
  split_ifs
  · rw [view_accept, view_setKio, view_link]
    · exact .single (.accept .sendq k)
    · exact fun _ => rfl
    · exact fun _ => rfl
  · rw [view_handBack, view_setKio, view_mvrear]
    · exact .single (.drop .caller k)
    · exact fun _ => rfl
    · exact fun _ => rfl

/-- **Every section of a call** but the one of `ktli_send`. -/
theorem HandsBack.shifts (h : HandsBack P s s') : Shifts P (s.view H) (s'.view H) := by
  induction h with
  | refl => exact .refl
  | back q i n k l f hi hl hk hf =>
    rw [view_handBack]
    exact .tail (.single (unlink_shift .receiver (by decide) hf.flags hf.qbp hi hl hk))
      (.drop .receiver k)
  | cursor q l hl _ ih =>
    rw [view_setQueue hl]
    exact ih
  | state st _ ih => exact ih

end Calls

/-! ### The sections of the sender -/

/-- The kio that the thread works on. -/
def SenderPc.kio : SenderPc → Option KioId
  | .taken k | .sequenced k | .queued k | .timed k | .sent k _ _ | .marked k _ | .completing k _ =>
    some k
  | _ => none

/-- The thread holds a kio that is on no queue: between two queues, or one that needs no response
and so is not queued before the send. -/
def SenderPc.hand (reqonly : KioId → Bool) : SenderPc → Multiset KioId
  | .taken k | .sequenced k | .completing k _ => {k}
  | .queued k | .timed k | .sent k _ _ | .marked k _ => if reqonly k then {k} else 0
  | _ => 0

def ReceiverPc.hand : ReceiverPc → Multiset KioId
  | .matched k _ => {k}
  | _ => 0

/-- What the calls and the threads hold. -/
def hands (calls : List Call) (pc : SenderPc) (rpc : ReceiverPc) : Hands := fun reqonly h =>
  match h with
  | .caller => calls.filterMap Call.kio
  | .sender => pc.hand reqonly
  | .receiver => rpc.hand

section Sender
variable {P : KioId → Prop} {H : Hands} {lib : ListLib KioId} {s s' : Session} {k : KioId}
  {rc err : ℤ} {calls : List Call} {pc pc' : SenderPc} {rpc rpc' : ReceiverPc}

theorem SenderPc.hand_congr {req req' : KioId → Bool} (h : ∀ k ∈ pc.kio, req' k = req k) :
    pc.hand req' = pc.hand req := by
  cases pc with
  | queued k | timed k | sent k | marked k =>
    have hk := h k rfl
    simp only [SenderPc.hand, hk]
  | _ => rfl

theorem view_sender (pc pc' : SenderPc) (h : pc.hand s.reqonly = pc'.hand s.reqonly) :
    s.view (hands calls pc rpc) = s.view (hands calls pc' rpc) := by
  refine View.ext rfl rfl rfl (funext fun g => ?_) rfl rfl rfl
  cases g
  · rfl
  · exact h
  · rfl

/-- The kio in the sender's hand, taken out of it. -/
theorem view_sender_give (pc pc' : SenderPc) (hpc : pc.hand s.reqonly = {k})
    (hpc' : pc'.hand s.reqonly = 0) :
    s.view (hands calls pc rpc) = (s.view (hands calls pc' rpc)).give .sender k := by
  refine View.ext rfl rfl rfl (funext fun g => ?_) rfl rfl rfl
  cases g
  · rfl
  · show pc.hand s.reqonly = k ::ₘ pc'.hand s.reqonly
    rw [hpc, hpc']
    rfl
  · rfl

/-- The kios that a section of the sender is there to remove. -/
def SenderPc.actsFor (s : Session) : SenderPc → KioId → Prop
  | .take, j => (s.queue .sendq).data.head? = some j
  | .marked k _, j => j = k
  | _, _ => False

theorem senderTake_shift (h : senderTake lib s = some (k, s'))
    (hP : ∀ j, (s.queue .sendq).data.head? = some j → P j) :
    Shift P (s.view H) ((s'.view H).give .sender k) := by
  obtain ⟨n, l, hn, rfl⟩ := senderTake_some h
  show Shift P _ (View.give (((s.setQueue .sendq l).setKio k fun x => { x with qbp := none }).view
    H) .sender k)
  refine unlink_shift (i := 0) (n := n) .sender (by decide) ?_ ?_ ?_ ?_ ?_
  · exact fun _ => rfl
  · exact fun _ => rfl
  · rw [hn]; rfl
  · rw [hn]; rfl
  · exact hP k (by simp [CList.data, hn])

/-- **Popping off a failed request**: the back pointer finds it, if it is still there. -/
theorem view_senderUnqueue (hs : (s.view H).Sound) (hk : k ∈ (s.queue .recvq).data) :
    ∃ i n, (s.queue .recvq).items[i]? = some (n, k) ∧
      (senderUnqueue lib s k).view H = (s.view H).unlink .recvq i k := by
  obtain ⟨⟨n, j⟩, hp, rfl⟩ := List.mem_map.mp hk
  have hqbp : (s.kio j).qbp = some n := hs.qbp .recvq (n, j) hp
  obtain ⟨i, hi, hset⟩ := CList.setcurr_of_mem (hs.nodes .recvq) hp
  refine ⟨i, n, hi, ?_⟩
  unfold senderUnqueue Session.unqbp
  rw [view_mvrear]
  apply view_unlink
  · exact fun _ => rfl
  · exact fun _ => rfl
  · have hrem := @CList.removeCurr_of_getElem _ lib ⟨(s.queue .recvq).items, some i⟩ _ _ _ rfl hi
    rw [hqbp, hset]
    exact congrArg (fun o => o.2.items) hrem

theorem reqonly_senderUnqueue : (senderUnqueue lib s k).reqonly = s.reqonly := by
  show ((s.setQueue .recvq _).setKio k fun x => { x with qbp := none }).reqonly = _
  rw [reqonly_setKio_fun]
  · rfl
  · exact fun _ => rfl

theorem senderResult_shifts (hs : (s.view (hands calls (.marked k rc) rpc)).Sound)
    (hok : rc < 0 → s.reqonly k = false → k ∈ (s.queue .recvq).data)
    (h : senderResult lib s k rc = (s', pc')) :
    Shifts (fun j => j = k) (s.view (hands calls (.marked k rc) rpc))
      (s'.view (hands calls pc' rpc)) := by
  unfold senderResult at h
  split_ifs at h with h1 h2 h3
  · -- kios that need no response stay in the hand
    obtain ⟨rfl, rfl⟩ := Prod.mk.inj h
    rw [view_sender _ (.completing k .received)]
    exact if_pos h2
  · obtain ⟨rfl, rfl⟩ := Prod.mk.inj h
    rw [view_sender _ (.completing k .failed)]
    exact if_pos h2
  · -- a failed request goes from recvq to the hand
    obtain ⟨rfl, rfl⟩ := Prod.mk.inj h
    have hreq : s.reqonly k = false := by simpa using h2
    obtain ⟨i, n, hi, hview⟩ := view_senderUnqueue hs (hok (h1.resolve_right h2) hreq)
    rw [view_sender_give (.completing k .failed) (.marked k rc), hview]
    · exact .single (.unlink .sender (by decide) .recvq i n k rfl hi)
    · rfl
    · rw [reqonly_senderUnqueue]
      exact if_neg h2
  · -- the response is to come, and the kio is on recvq or gone from there
    obtain ⟨rfl, rfl⟩ := Prod.mk.inj h
    rw [view_sender _ .loop]
    exact if_neg (not_or.mp h1).2

/-- **Every section of the sender** is a sequence of shifts, if a failed request is on recvq when
the sender pops it off. -/
theorem senderStep_shifts (hs : (s.view (hands calls pc rpc)).Sound)
    (hok : ∀ k rc, pc = .marked k rc → rc < 0 → s.reqonly k = false → k ∈ (s.queue .recvq).data)
    (h : senderStep lib s rc err pc = some (s', pc')) :
    Shifts (pc.actsFor s) (s.view (hands calls pc rpc)) (s'.view (hands calls pc' rpc)) := by
  cases pc with
  | idle | timed k =>
    obtain ⟨rfl, rfl⟩ := Prod.mk.inj (Option.some.inj h)
    exact .refl
  | woken | loop =>
    obtain ⟨rfl, rfl⟩ := Prod.mk.inj (Option.some.inj h)
    split_ifs <;> exact .refl
  | take =>
    obtain ⟨⟨k, s1⟩, h1, h2⟩ := Option.map_eq_some_iff.mp h
    obtain ⟨rfl, rfl⟩ := Prod.mk.inj h2
    dsimp only
    rw [view_sender_give (.taken k) .take rfl rfl]
    exact .single (senderTake_shift h1 fun _ hj => hj)
  | taken k =>
    obtain ⟨rfl, rfl⟩ := Prod.mk.inj (Option.some.inj h)
    show Shifts _ _ ((s.setKio k fun x => { x with seq := s.sequence }).view _)
    rw [view_setKio]
    · exact .refl
    · exact fun _ => rfl
    · exact fun _ => rfl
  | sequenced k =>
    obtain ⟨rfl, rfl⟩ := Prod.mk.inj (Option.some.inj h)
    unfold senderQueue
    split_ifs with hreq
    · rw [view_sender _ (.queued k)]
      exact (if_pos hreq).symm
    · rw [view_link, view_sender_give _ (.queued k)]
      · exact .single (.link .sender (by decide) .recvq k)
      · rfl
      · exact if_neg hreq
  | queued k =>
    obtain ⟨rfl, rfl⟩ := Prod.mk.inj (Option.some.inj h)
    unfold senderTimeout
    rw [view_setKio]
    · exact .refl
    · exact fun _ => rfl
    · exact fun _ => rfl
  | sent k rc' err' =>
    obtain ⟨rfl, rfl⟩ := Prod.mk.inj (Option.some.inj h)
    rw [view_setKio]
    · exact .refl
    · exact fun _ => rfl
    · exact fun _ => rfl
  | marked k rc' =>
    exact senderResult_shifts hs (hok k rc' rfl) (Option.some.inj h)
  | completing k st =>
    obtain ⟨rfl, rfl⟩ := Prod.mk.inj (Option.some.inj h)
    unfold senderComplete
    rw [view_setKio, view_link, view_sender_give _ .loop rfl rfl]
    · exact .single (.link .sender (by decide) .compq k)
    · exact fun _ => rfl
    · exact fun _ => rfl
  | exited => cases h

/-- The kio that the sender goes on with is the one it had, or the front one of sendq. -/
theorem senderStep_kio (h : senderStep lib s rc err pc = some (s', pc')) {j : KioId}
    (hj : j ∈ pc'.kio) : j ∈ pc.kio ∨ j ∈ (s.queue .sendq).data := by
  cases pc with
  | idle =>
    obtain ⟨rfl, rfl⟩ := Prod.mk.inj (Option.some.inj h)
    cases hj
  | woken | loop =>
    obtain ⟨rfl, rfl⟩ := Prod.mk.inj (Option.some.inj h)
    split_ifs at hj <;> cases hj
  | take =>
    obtain ⟨⟨k, s1⟩, h1, h2⟩ := Option.map_eq_some_iff.mp h
    obtain ⟨rfl, rfl⟩ := Prod.mk.inj h2
    obtain ⟨n, l, hn, -⟩ := senderTake_some h1
    cases hj
    exact Or.inr (by simp [CList.data, hn])
  | taken k | sequenced k | queued k | timed k | sent k =>
    obtain ⟨rfl, rfl⟩ := Prod.mk.inj (Option.some.inj h)
    exact Or.inl hj
  | marked k rc' =>
    left
    have h1 : senderResult lib s k rc' = (s', pc') := Option.some.inj h
    unfold senderResult at h1
    split_ifs at h1 <;> obtain ⟨rfl, rfl⟩ := Prod.mk.inj h1
    · exact hj
    · exact hj
    · exact hj
    · cases hj
  | completing k st =>
    obtain ⟨rfl, rfl⟩ := Prod.mk.inj (Option.some.inj h)
    cases hj
  | exited => cases h

end Sender

/-! ### The sections of the receiver -/

section Receiver
variable {P : KioId → Prop} {H : Hands} {lib : ListLib KioId} {s s' : Session} {q : QId} {k : KioId}
  {rc aseq : ℤ} {msg : ℕ} {calls : List Call} {pc : SenderPc} {rpc rpc' : ReceiverPc}

theorem view_receiver (rpc rpc' : ReceiverPc) (h : rpc.hand = rpc'.hand) :
    s.view (hands calls pc rpc) = s.view (hands calls pc rpc') := by
  refine View.ext rfl rfl rfl (funext fun g => ?_) rfl rfl rfl
  cases g
  · rfl
  · rfl
  · exact h

/-- The kio in the receiver's hand, taken out of it. -/
theorem view_receiver_give (rpc rpc' : ReceiverPc) (hpc : rpc.hand = {k}) (hpc' : rpc'.hand = 0) :
    s.view (hands calls pc rpc) = (s.view (hands calls pc rpc')).give .receiver k := by
  refine View.ext rfl rfl rfl (funext fun g => ?_) rfl rfl rfl
  cases g
  · rfl
  · rfl
  · show rpc.hand = k ::ₘ rpc'.hand
    rw [hpc, hpc']
    rfl

/-- The kios that a section of the receiver is there to remove. -/
def ReceiverPc.actsFor (s : Session) : ReceiverPc → KioId → Prop
  | .matching _ aseq _, j => (s.kio j).seq = aseq
  | .looping, j => timechk (clockGettime s.now) (s.kio j)
  -- the error path takes everything
  | .locking _ [], _ => True
  | _, _ => False

theorem reqonly_issue_of_ne {x : Kio} {j : KioId} (h : j ≠ k) :
    (s.issue k x).reqonly j = s.reqonly j := by
  show kiofIsset ((s.setKio k fun _ => x).kio j).flags kiofReqonly = _
  rw [kio_setKio, if_neg h]
  rfl

/-- A new kio is none that the sender works on. -/
theorem hands_issue {x : Kio} (hpc : ∀ j ∈ pc.kio, j ∈ s.issued) (hk : k ∉ s.issued) :
    hands calls pc rpc (s.issue k x).reqonly = hands calls pc rpc s.reqonly := by
  funext g
  cases g
  · rfl
  · refine SenderPc.hand_congr fun j hj => reqonly_issue_of_ne ?_
    rintro rfl
    exact hk (hpc j hj)
  · rfl

theorem receiverMatch_shifts {alloc : Option KioId} (hpc : ∀ j ∈ pc.kio, j ∈ s.issued)
    (hok : (MatchOk lib s rc aseq ∧ ∀ j, (s.kio j).seq = aseq → P j) ∨ ∀ j, P j)
    (h : receiverMatch lib s rc aseq msg alloc = some (s', rpc')) :
    Shifts P (s.view (hands calls pc (.matching rc aseq msg))) (s'.view (hands calls pc rpc')) := by
  unfold receiverMatch at h
  split_ifs at h with hfresh
  obtain ⟨⟨m, s1⟩, hm, h⟩ := Option.map_eq_some_iff.mp h
  obtain ⟨rfl, rfl⟩ := Prod.mk.inj h
  rcases recvmsgMatch_cases hm with ⟨rfl, -, l, hl, rfl⟩ | ⟨rfl, -, -, rfl⟩ |
    ⟨k, rfl, -, rfl, rfl⟩ | ⟨i, k, rfl, hrem, hne, hk⟩
  · dsimp only
    rw [view_setQueue hl, view_receiver .looping (.matching rc aseq msg) rfl]
  · dsimp only
    rw [view_setQueue rfl, view_receiver .aborting (.matching rc aseq msg) rfl]
  · have hk : k ∉ (s.setQueue .recvq (s.queue .recvq)).issued := hfresh k rfl
    dsimp only
    rw [view_receiver_give (.matched k msg) (.matching rc aseq msg) rfl rfl, view_mvrear,
      view_issue, view_setQueue rfl]
    · exact .single (.enter .receiver k hk)
    · rfl
    · exact hands_issue hpc hk
  · have hP : P k := by
      rcases hok with ⟨hok, hP⟩ | hP
      · exact hP k (Removed.seq_of_matchOk hok hne hk)
      · exact hP k
    obtain ⟨n, hi⟩ := hrem.node
    obtain ⟨l, hl, rfl⟩ := hrem.eq
    dsimp only
    rw [view_receiver_give (.matched k msg) (.matching rc aseq msg) rfl rfl, view_mvrear]
    refine .single (unlink_shift (q := .recvq) .receiver (by decide) ?_ ?_ hi hl hP)
    · exact fun _ => rfl
    · exact fun _ => rfl

theorem view_recvmsgComplete :
    (recvmsgComplete s k msg).view H = (s.view H).link .compq k := by
  unfold recvmsgComplete
  rw [view_setKio, view_link, view_setKio]
  · exact fun _ => rfl
  · exact fun _ => rfl
  · exact fun _ => rfl
  · exact fun _ => rfl

/-- Timing out an element of recvq. -/
theorem timeOut_shifts {i n : ℕ} {l : CList KioId} (hi : (s.queue .recvq).items[i]? = some (n, k))
    (hl : l.items = (s.queue .recvq).items.eraseIdx i) (hk : P k) :
    Shifts P (s.view H) ((timeOut (s.setQueue .recvq l) k).view H) := by
  unfold timeOut
  rw [view_setKio, view_link]
  · refine .tail (.single (unlink_shift .receiver (by decide) ?_ ?_ hi hl hk))
      (.link .receiver (by decide) .compq k)
    · exact fun _ => rfl
    · exact fun _ => rfl
  · exact fun _ => rfl
  · exact fun _ => rfl

theorem timeout_timeOut (s : Session) (l : CList KioId) (k j : KioId) :
    ((timeOut (s.setQueue .recvq l) k).kio j).timeout = (s.kio j).timeout := by
  unfold timeOut
  rw [kio_setKio_field _ _ _ _ Kio.timeout, kio_link_field _ _ _ _ Kio.timeout,
    kio_setKio_field _ _ _ _ Kio.timeout, kio_setQueue]
  · exact fun _ => rfl
  · exact fun _ _ => rfl
  · exact fun _ => rfl

/-- Between two moments of a sweep of `s`: kios are moved, and the deadlines stay. -/
def Swept (P : KioId → Prop) (H : Hands) (s s1 s2 : Session) : Prop :=
  (∀ j, (s1.kio j).timeout = (s.kio j).timeout) →
    Shifts P (s1.view H) (s2.view H) ∧ ∀ j, (s2.kio j).timeout = (s.kio j).timeout

/-- **The sweep** takes expired kios off recvq. -/
theorem sweep_shifts (h : sweep lib s = some s')
    (hP : ∀ j, timechk (clockGettime s.now) (s.kio j) → P j) :
    Shifts P (s.view H) (s'.view H) := by
  have hrule : Swept P H s s s' := by
    refine sweep_rule (R := Swept P H s) (fun _ ht => ⟨.refl, ht⟩) ?_ (fun s1 l hl ht => ?_)
      (fun _ _ ht => ⟨.refl, ht⟩) ?_ h
    · intro s1 s2 s3 h1 h2 ht
      obtain ⟨h3, ht2⟩ := h1 ht
      obtain ⟨h4, ht3⟩ := h2 ht2
      exact ⟨h3.trans h4, ht3⟩
    · rw [view_setQueue hl]
      exact ⟨.refl, ht⟩
    · intro _ s1 k l i m hi hl hexp ht
      have hk : P k := by
        refine hP k ?_
        rwa [timechk, ht k] at hexp
      exact ⟨timeOut_shifts hi hl hk, fun j => (timeout_timeOut s1 l k j).trans (ht j)⟩
  exact (hrule fun _ => rfl).1

/-- Inserting behind the current element, when that is the rear one. -/
theorem insertAfter_eq_link (h : (s.queue q).mvrear = s.queue q) :
    s.insertAfter q k = s.link q k := by
  have hs : s.mvrear q = s := by
    unfold Session.mvrear Session.setQueue
    rw [h, Function.update_eq_self]
  unfold Session.link
  rw [hs]

/-- The cursor of compq is on the rear element before each turn, and after it. -/
theorem moveAll_shifts (hq : q ≠ .compq) (n : ℕ) (h : (s.queue .compq).mvrear = s.queue .compq) :
    Shifts (fun _ => True) (s.view H) ((moveAll lib q n s).view H) ∧
      ((moveAll lib q n s).queue .compq).mvrear = (moveAll lib q n s).queue .compq := by
  refine moveAll_rule (R := fun s s' => (s.queue .compq).mvrear = s.queue .compq →
    Shifts (fun _ => True) (s.view H) (s'.view H) ∧
      (s'.queue .compq).mvrear = s'.queue .compq) (fun _ h => ⟨.refl, h⟩) ?_ ?_ h
  · intro s s1 s2 h1 h2 h
    obtain ⟨h3, h4⟩ := h1 h
    obtain ⟨h5, h6⟩ := h2 h4
    exact ⟨h3.trans h5, h6⟩
  · intro s k l m hm h
    have hrear : (((s.setQueue q l).setKio k Kio.abort).queue .compq).mvrear =
        ((s.setQueue q l).setKio k Kio.abort).queue .compq := by
      rw [queue_setKio, queue_setQueue, if_neg hq.symm]
      exact h
    dsimp only [recvmsgCq]
    rw [insertAfter_eq_link hrear]
    constructor
    · rw [view_link]
      refine .tail (.single (unlink_shift (i := 0) (n := m) .receiver (by decide) ?_ ?_ ?_ ?_
        trivial)) (.link .receiver (by decide) .compq k)
      · exact fun _ => rfl
      · exact fun _ => rfl
      · rw [hm]; rfl
      · rw [hm]; rfl
    · rw [link_eq]
      simp [Session.setKio, CList.mvrear]

theorem recvmsgMoves_shifts :
    Shifts (fun _ => True) (s.view H) ((recvmsgMoves lib s).view H) := by
  unfold recvmsgMoves
  dsimp only
  have hrear : ((s.mvrear .compq).queue .compq).mvrear = (s.mvrear .compq).queue .compq := by
    simp [Session.mvrear, CList.mvrear]
  obtain ⟨h1, h2⟩ := @moveAll_shifts H lib _ .recvq (by decide)
    ((s.mvrear recvmsgCq).queue recvmsgRq).size hrear
  rw [view_mvrear] at h1
  exact h1.trans (moveAll_shifts (by decide) _ h2).1

theorem Shift.mono {Q : KioId → Prop} {v v' : View} (h : Shift P v v') (hPQ : ∀ k, P k → Q k) :
    Shift Q v v' := by
  cases h with
  | enter h k hk => exact .enter h k hk
  | link h hh q k => exact .link h hh q k
  | accept q k => exact .accept q k
  | unlink h hh q i n k hk hi => exact .unlink h hh q i n k (hPQ k hk) hi
  | drop h k => exact .drop h k

theorem Shifts.mono {Q : KioId → Prop} {v v' : View} (h : Shifts P v v') (hPQ : ∀ k, P k → Q k) :
    Shifts Q v v' := by
  induction h with
  | refl => exact .refl
  | tail _ hs ih => exact ih.tail (hs.mono hPQ)

/-- **Every section of the receiver** is a sequence of shifts. The kios removed are those it acts
for, if its match section is one of those that are right. -/
theorem receiverStep_shifts {e : ReceiverEnv} (hpc : ∀ j ∈ pc.kio, j ∈ s.issued)
    (hok : ((∀ rc aseq msg, rpc = .matching rc aseq msg → MatchOk lib s rc aseq) ∧
      ∀ j, rpc.actsFor s j → P j) ∨ ∀ j, P j)
    (h : receiverStep lib s e rpc = some (s', rpc')) :
    Shifts P (s.view (hands calls pc rpc)) (s'.view (hands calls pc rpc')) := by
  have hP : ∀ j, rpc.actsFor s j → P j := hok.elim And.right fun hP j _ => hP j
  cases rpc with
  | waiting | polling | disconnecting | swept =>
    obtain ⟨rfl, rfl⟩ := Prod.mk.inj (Option.some.inj h)
    split_ifs <;> exact .refl
  | receiving =>
    obtain ⟨rfl, rfl⟩ := Prod.mk.inj (Option.some.inj h)
    split <;> exact .refl
  | aborting | disconnected =>
    obtain ⟨rfl, rfl⟩ := Prod.mk.inj (Option.some.inj h)
    exact .refl
  | matching rc aseq msg =>
    exact receiverMatch_shifts hpc (hok.imp_left fun hok => ⟨hok.1 rc aseq msg rfl, hok.2⟩) h
  | matched k msg =>
    obtain ⟨rfl, rfl⟩ := Prod.mk.inj (Option.some.inj h)
    rw [view_recvmsgComplete, view_receiver_give _ .looping rfl rfl]
    exact .single (.link .receiver (by decide) .compq k)
  | locking held todo =>
    cases todo with
    | nil =>
      obtain ⟨rfl, rfl⟩ := Prod.mk.inj (Option.some.inj h)
      exact recvmsgMoves_shifts.mono hP
    | cons q todo =>
      simp only [receiverStep] at h
      split_ifs at h
      obtain ⟨rfl, rfl⟩ := Prod.mk.inj (Option.some.inj h)
      exact .refl
  | looping =>
    obtain ⟨s1, h1, h2⟩ := Option.map_eq_some_iff.mp h
    obtain ⟨rfl, rfl⟩ := Prod.mk.inj h2
    exact sweep_shifts h1 hP
  | exited => cases h

end Receiver

end Libkinetic.Ktli
