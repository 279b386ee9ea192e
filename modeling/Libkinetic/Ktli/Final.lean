import Libkinetic.Ktli.Timeout

/-! # The final state of a kio

A kio that was received, has failed or has timed out is done: nothing but handing it back is left.
In a run in which no drain takes a kio off that was received or has timed out, and every failed
request is still on recvq when the sender pops it off, a kio that is done keeps its state until it
is handed back (`final_of_reach`). A drain reports a request as failed whose response is there
(`drained_as_failed`). -/

namespace Libkinetic.Ktli

open Libkinetic.Base.CursorList Libkinetic.Base.Custody Libkinetic.Base.Runs

/-! ### The property -/

def KioState.final : KioState → Bool
  | .new | .sent => false
  | .received | .failed | .timedout => true

/-- A kio that is done and not handed back keeps its state, also in the step that hands it back. -/
def KeepsFinal (s s' : System) : Prop :=
  ∀ k, k ∉ s.returned → (s.kio k).state.final = true → (s'.kio k).state = (s.kio k).state

/-- A drain takes no kio off that was received or has timed out. -/
def DrainOk (s : System) : Act → Prop
  | .call c _ => ∀ k ∈ c.drained s.toSession, (s.kio k).state ≠ .received ∧
      (s.kio k).state ≠ .timedout
  | _ => True

instance (s : System) : ∀ a, Decidable (DrainOk s a)
  | .call c _ => inferInstanceAs (Decidable (∀ k ∈ c.drained s.toSession, _))
  | .send _ _ _ | .receive _ | .receiveUnsolicited | .drain | .drainMatch _ | .connect _
  | .disconnect _ | .sender _ _ | .receiver _ | .tick _ => isTrue trivial

/-- **The condition.** -/
def Unspoiled (s : System) (a : Act) : Prop := PopOk s a ∧ DrainOk s a

instance (s : System) (a : Act) : Decidable (Unspoiled s a) :=
  inferInstanceAs (Decidable (PopOk s a ∧ DrainOk s a))

/-! ### What a section does to the states -/

/-- compq is where kios go when they are done; `W` are the kios whose state is set whatever it
was. -/
structure Settles (W : KioId → Prop) (s s' : Session) : Prop where
  compq : ∀ k ∈ (s'.queue .compq).data, (s'.kio k).state.final = true ∨
    k ∈ (s.queue .compq).data ∧ ((s.kio k).state.final = true → (s'.kio k).state.final = true)
  done : ∀ k, (s'.kio k).state.final = true → (s.kio k).state.final = true ∨
    k ∈ (s'.queue .compq).data ∨ k ∈ s'.returned
  stays : ∀ k ∈ (s.queue .compq).data, k ∈ (s'.queue .compq).data ∨ k ∈ s'.returned
  returned : s.returned ⊆ s'.returned
  keeps : ∀ k, (s.kio k).state.final = true → (s'.kio k).state = (s.kio k).state ∨ W k

section Settles
variable {W P : KioId → Prop} {lib : ListLib KioId} {s s1 s2 s' : Session} {q : QId} {k : KioId}
  {rc err : ℤ} {f : Kio → Kio} {l : CList KioId}

/-- A section that leaves compq and the states alone. -/
theorem Settles.of_eq (hq : (s'.queue .compq).data = (s.queue .compq).data)
    (hk : ∀ k, (s'.kio k).state = (s.kio k).state) (hr : s'.returned = s.returned) :
    Settles W s s' := by
  refine ⟨fun k h => Or.inr ⟨hq ▸ h, ?_⟩, fun k h => Or.inl (hk k ▸ h), fun k h => Or.inl ?_, ?_,
    fun k _ => Or.inl (hk k)⟩
  · rw [hk]
    exact id
  · rwa [hq]
  · rw [hr]
    exact List.Subset.refl _

theorem Settles.refl : Settles W s s := .of_eq rfl (fun _ => rfl) rfl

theorem Settles.trans (h1 : Settles W s s1) (h2 : Settles W s1 s2) : Settles W s s2 where
  compq k hk := by
    rcases h2.compq k hk with h | ⟨hk1, hf⟩
    · exact Or.inl h
    · rcases h1.compq k hk1 with h | ⟨hk0, hf0⟩
      · exact Or.inl (hf h)
      · exact Or.inr ⟨hk0, fun h => hf (hf0 h)⟩
  done k hk := by
    rcases h2.done k hk with h | h
    · rcases h1.done k h with h | h | h
      · exact Or.inl h
      · exact Or.inr (h2.stays k h)
      · exact Or.inr (Or.inr (h2.returned h))
    · exact Or.inr h
  stays k hk := by
    rcases h1.stays k hk with h | h
    · exact h2.stays k h
    · exact Or.inr (h2.returned h)
  returned := List.Subset.trans h1.returned h2.returned
  keeps k hk := by
    rcases h1.keeps k hk with h | h
    · rcases h2.keeps k (h ▸ hk) with h' | h'
      · exact Or.inl (h'.trans h)
      · exact Or.inr h'
    · exact Or.inr h

theorem Settles.setQueue (hq : q ≠ .compq) : Settles W s (s.setQueue q l) := by
  refine .of_eq ?_ (fun _ => rfl) rfl
  rw [queue_setQueue, if_neg hq.symm]

theorem Settles.mvrear : Settles W s (s.mvrear q) :=
  .of_eq (congrArg (List.map Prod.snd) (items_mvrear s q .compq)) (fun _ => rfl) rfl

theorem Settles.setKio (hf : ∀ x, (f x).state = x.state) : Settles W s (s.setKio k f) :=
  .of_eq rfl (fun j => kio_setKio_field s k j f Kio.state hf) rfl

theorem Settles.link (hq : q ≠ .compq) : Settles W s (s.link q k) := by
  refine .of_eq ?_ (fun j => kio_link_field s q k j Kio.state fun _ _ => rfl) ?_
  · unfold CList.data
    rw [items_link, if_neg hq.symm]
  · rw [link_eq]
    rfl

theorem Settles.giveBack : Settles W s { s with returned := k :: s.returned } :=
  ⟨fun _ hj => Or.inr ⟨hj, id⟩, fun _ hj => Or.inl hj, fun _ hj => Or.inl hj,
    List.subset_cons_self _ _, fun _ _ => Or.inl rfl⟩

/-- A kio that is not done gets a state that is not final either. -/
theorem Settles.setOpen (hk : (s.kio k).state.final = false) (hf : (f (s.kio k)).state.final = false) :
    Settles W s (s.setKio k f) := by
  have hne : ∀ j, (s.kio j).state.final = true → (s.setKio k f).kio j = s.kio j := by
    intro j hj
    rw [kio_setKio, if_neg]
    rintro rfl
    rw [hk] at hj
    cases hj
  refine ⟨fun j hj => Or.inr ⟨hj, fun h => ?_⟩, fun j hj => Or.inl ?_, fun j hj => Or.inl hj,
    List.Subset.refl _, fun j hj => Or.inl ?_⟩
  · rw [hne j h]
    exact h
  · rw [kio_setKio] at hj
    split_ifs at hj
    · rw [hf] at hj
      cases hj
    · exact hj
  · rw [hne j hj]

/-- A kio goes to compq, in a final state. -/
theorem Settles.onCompq (hmem : ∀ j, j ∈ (s'.queue .compq).data ↔ j = k ∨ j ∈ (s.queue .compq).data)
    (hk : (s'.kio k).state.final = true) (hkio : ∀ j, j ≠ k → (s'.kio j).state = (s.kio j).state)
    (hr : s'.returned = s.returned) (hW : W k) : Settles W s s' := by
  refine ⟨fun j hj => ?_, fun j hj => ?_, fun j hj => Or.inl ((hmem j).mpr (Or.inr hj)), ?_,
    fun j hj => ?_⟩
  · by_cases hjk : j = k
    · exact Or.inl (hjk ▸ hk)
    · rw [hkio j hjk]
      exact Or.inr ⟨((hmem j).mp hj).resolve_left hjk, id⟩
  · by_cases hjk : j = k
    · exact Or.inr (Or.inl ((hmem j).mpr (Or.inl hjk)))
    · rw [hkio j hjk] at hj
      exact Or.inl hj
  · rw [hr]
    exact List.Subset.refl _
  · by_cases hjk : j = k
    · exact Or.inr (hjk ▸ hW)
    · exact Or.inl (hkio j hjk)

theorem Settles.complete {st : KioState} (hst : st.final = true) (hW : W k) :
    Settles W s ((s.link .compq k).setKio k fun x => { x with state := st }) := by
  refine .onCompq (k := k) (fun j => ?_) ?_ (fun j hj => ?_) ?_ hW
  · rw [queue_setKio]
    unfold CList.data
    rw [items_link, if_pos rfl]
    simp [or_comm]
  · rw [kio_setKio_self]
    exact hst
  · rw [kio_setKio, if_neg hj, kio_link_field _ _ _ _ Kio.state fun _ _ => rfl]
  · rw [link_eq]
    rfl

/-! ### The sections -/

theorem data_mem_eraseIdx {l l' : CList KioId} {i n j : ℕ} (hi : l.items[i]? = some (n, k))
    (hl : l'.items = l.items.eraseIdx i) (hj : j ∈ l.data) : j ∈ l'.data ∨ j = k := by
  have hperm := (perm_eraseIdx hi).map Prod.snd
  rw [← hl] at hperm
  rcases List.mem_cons.mp (hperm.mem_iff.mp hj) with h | h
  · exact Or.inr h
  · exact Or.inl h

theorem HandsBack.settles (h : HandsBack P s s') : Settles (fun _ => True) s s' := by
  induction h with
  | refl => exact .refl
  | back q i n k l f hi hl hk hf =>
    have hkio : ∀ j, j ≠ k → ((handBack (s.setQueue q l) k f).kio j) = s.kio j := by
      intro j hj
      show ((s.setQueue q l).setKio k f).kio j = _
      rw [kio_setKio, if_neg hj, kio_setQueue]
    have hst : (s.kio k).state.final = true →
        ((handBack (s.setQueue q l) k f).kio k).state.final = true := by
      intro h
      show (((s.setQueue q l).setKio k f).kio k).state.final = true
      rw [kio_setKio_self, kio_setQueue]
      rcases hf.state (s.kio k) with h1 | h1
      · rw [h1]
        exact h
      · rw [h1]
        rfl
    have hqueue : (handBack (s.setQueue q l) k f).queue .compq =
        if .compq = q then l else s.queue .compq := queue_setQueue s q .compq l
    refine ⟨fun j hj => Or.inr ⟨?_, fun h => ?_⟩, fun j hj => ?_, fun j hj => ?_, ?_,
      fun _ _ => Or.inr trivial⟩
    · rw [hqueue] at hj
      split_ifs at hj with hq
      · subst hq
        have hsub : l.data.Sublist (s.queue .compq).data := by
          unfold CList.data
          rw [hl]
          exact (List.eraseIdx_sublist _ i).map _
        exact hsub.subset hj
      · exact hj
    · by_cases hjk : j = k
      · subst hjk
        exact hst h
      · rw [hkio j hjk]
        exact h
    · by_cases hjk : j = k
      · exact Or.inr (Or.inr (hjk ▸ List.mem_cons_self))
      · rw [hkio j hjk] at hj
        exact Or.inl hj
    · rw [hqueue]
      split_ifs with hq
      · subst hq
        rcases data_mem_eraseIdx hi hl hj with h | rfl
        · exact Or.inl h
        · exact Or.inr List.mem_cons_self
      · exact Or.inl hj
    · exact List.subset_cons_self _ _
  | cursor q l hl _ ih =>
    refine ih.trans (.of_eq ?_ (fun _ => rfl) rfl)
    rw [queue_setQueue]
    split_ifs with hq
    · subst hq
      exact congrArg (List.map Prod.snd) hl
    · rfl
  | state st _ ih => exact ⟨ih.compq, ih.done, ih.stays, ih.returned, ih.keeps⟩

/-- **The sections of the calls**: a drain sets the state of the kio it takes off. -/
theorem callStep_settles {c : Call} {mem : Bool} {r : Session × Option Call}
    (h : callStep lib s mem c = some r) (hc : c.kio = none) :
    Settles (fun k => c.drained s = some k ∧ (s.kio k).state ≠ .failed) s r.1 := by
  have h1 := (callStep_handsBack h hc).settles
  refine ⟨h1.compq, h1.done, h1.stays, h1.returned, fun k _ => ?_⟩
  have hleaves := (callStep_leaves h hc).1 k
  generalize r.1.kio k = y at hleaves
  cases hleaves with
  | same | receive | qbp => exact Or.inl rfl
  | drain hd =>
    by_cases hst : (s.kio k).state = .failed
    · exact Or.inl hst.symm
    · exact Or.inr ⟨hd, hst⟩

theorem sendLock_settles (mem : Bool) (hk : (s.kio k).state.final = false) :
    Settles W s (sendLock s k mem).2 := by
  unfold sendLock
  split_ifs
  · have h1 : Settles W s (s.link .sendq k) := .link (by decide)
    have hk' : ((s.link .sendq k).kio k).state.final = false := by
      rw [kio_link_field _ _ _ _ Kio.state fun _ _ => rfl]
      exact hk
    have h2 := h1.trans (.setOpen (f := fun x => { x with state := .new }) hk' rfl)
    exact ⟨h2.compq, h2.done, h2.stays, h2.returned, h2.keeps⟩
  · exact (Settles.mvrear.trans (.setKio fun _ => rfl)).trans .giveBack

theorem mark_settles : Settles W s (s.setKio k (Kio.mark rc err)) := by
  have hmark : ∀ x : Kio, (Kio.mark rc err x).state = x.state ∨
      x.state = .new ∧ (Kio.mark rc err x).state = .sent := by
    intro x
    by_cases h : x.state = .new
    · exact Or.inr ⟨h, by simp [Kio.mark, h]⟩
    · exact Or.inl (by simp [Kio.mark, h])
  rcases hmark (s.kio k) with h | ⟨h1, h2⟩
  · refine .of_eq rfl (fun j => ?_) rfl
    rw [kio_setKio]
    split_ifs with hjk
    · rw [h, hjk]
    · rfl
  · exact .setOpen (by rw [h1]; rfl) (by rw [h2]; rfl)

theorem senderResult_settles {pc : SenderPc} (h : senderResult lib s k rc = (s', pc)) :
    Settles W s s' := by
  unfold senderResult at h
  split_ifs at h <;> obtain ⟨rfl, rfl⟩ := Prod.mk.inj h
  · exact .refl
  · exact .refl
  · have h1 : ∀ l, Settles W s (s.setQueue .recvq l) := fun l => .setQueue (by decide)
    have h2 : ∀ l, Settles W s ((s.setQueue .recvq l).unqbp k) := fun l =>
      (h1 l).trans (.setKio fun _ => rfl)
    exact (h2 _).trans .mvrear
  · exact .refl

/-- **The sections of the sender**: it sets the state of the kio it completes. -/
theorem senderStep_settles {pc pc' : SenderPc} (h : senderStep lib s rc err pc = some (s', pc'))
    (hst : ∀ k st, pc = .completing k st → st.final = true) :
    Settles (fun k => ∃ st, pc = .completing k st) s s' := by
  cases pc with
  | idle | woken | loop | timed =>
    obtain ⟨rfl, -⟩ := Prod.mk.inj (Option.some.inj h)
    exact .refl
  | take =>
    obtain ⟨⟨k, s1⟩, h1, h2⟩ := Option.map_eq_some_iff.mp h
    obtain ⟨rfl, -⟩ := Prod.mk.inj h2
    obtain ⟨n, l, -, rfl⟩ := senderTake_some h1
    have h3 : Settles (fun k => ∃ st, SenderPc.take = .completing k st) s
        ((s.setQueue .sendq l).setKio k fun x => { x with qbp := none }) :=
      (Settles.setQueue (by decide)).trans (.setKio fun _ => rfl)
    exact ⟨h3.compq, h3.done, h3.stays, h3.returned, h3.keeps⟩
  | taken k =>
    obtain ⟨rfl, -⟩ := Prod.mk.inj (Option.some.inj h)
    have h1 : Settles (fun j => ∃ st, SenderPc.taken k = .completing j st) s
        (s.setKio k fun x => { x with seq := s.sequence }) := .setKio fun _ => rfl
    exact ⟨h1.compq, h1.done, h1.stays, h1.returned, h1.keeps⟩
  | sequenced k =>
    obtain ⟨rfl, -⟩ := Prod.mk.inj (Option.some.inj h)
    unfold senderQueue
    split_ifs
    · exact .refl
    · exact .link (by decide)
  | queued k =>
    obtain ⟨rfl, -⟩ := Prod.mk.inj (Option.some.inj h)
    unfold senderTimeout
    exact .setKio fun _ => rfl
  | sent k rc' err' =>
    obtain ⟨rfl, -⟩ := Prod.mk.inj (Option.some.inj h)
    exact mark_settles
  | marked k rc' => exact senderResult_settles (Option.some.inj h)
  | completing k st =>
    obtain ⟨rfl, -⟩ := Prod.mk.inj (Option.some.inj h)
    exact .complete (hst k st rfl) ⟨st, rfl⟩
  | exited => cases h

theorem timeOut_settles (hW : W k) : Settles W s (timeOut s k) := by
  unfold timeOut
  have h1 : Settles W s (s.setKio k fun x => { x with errno := ETIMEDOUT, qbp := none }) :=
    .setKio fun _ => rfl
  exact h1.trans (.complete rfl hW)

/-- A section that settles if `W` holds of what is on a queue, which it only takes from. -/
def SettlesFrom (W : KioId → Prop) (q : QId) (s s' : Session) : Prop :=
  (∀ j ∈ (s.queue q).data, W j) → Settles W s s' ∧ ∀ j ∈ (s'.queue q).data, W j

theorem SettlesFrom.trans (h1 : SettlesFrom W q s s1) (h2 : SettlesFrom W q s1 s2) :
    SettlesFrom W q s s2 := by
  intro hW
  obtain ⟨h3, h4⟩ := h1 hW
  obtain ⟨h5, h6⟩ := h2 h4
  exact ⟨h3.trans h5, h6⟩

theorem sweep_settles (h : sweep lib s = some s') : SettlesFrom W .recvq s s' := by
  have hq : ∀ s l, Settles W s (s.setQueue .recvq l) := fun s l => .setQueue (by decide)
  refine sweep_rule (fun _ hW => ⟨.refl, hW⟩) (fun _ _ _ => .trans) (fun s l hl hW => ?_) ?_ ?_ h
  · refine ⟨hq s l, fun j hj => hW j ?_⟩
    rwa [queue_setQueue_self, CList.data, hl] at hj
  · exact fun _ _ hW => ⟨.of_eq rfl (fun _ => rfl) rfl, hW⟩
  · intro _ s k l i m hi hl _ hW
    have hk : k ∈ (s.queue .recvq).data :=
      List.mem_map_of_mem (f := Prod.snd) (List.mem_of_getElem? hi)
    have hframe := @timeOut_frame (fun _ => True) s k l i hl trivial
    exact ⟨(hq s l).trans (timeOut_settles (hW k hk)), fun j hj => hW j (hframe.recvq j hj)⟩

/-- The error path fails what it takes off a queue. -/
theorem abort_settles (hq : q ≠ .compq) (hW : W k) :
    Settles W s (((s.setQueue q l).setKio k Kio.abort).insertAfter .compq k) := by
  have hcomp : ((s.setQueue q l).setKio k Kio.abort).queue .compq = s.queue .compq := by
    rw [queue_setKio, queue_setQueue, if_neg hq.symm]
  refine .onCompq (k := k) (fun j => ?_) ?_ (fun j hj => ?_) rfl hW
  · rw [queue_insertAfter, if_pos rfl, hcomp]
    exact CList.mem_data_insertAfter _ _ _ j
  · rw [kio_insertAfter, if_pos rfl, kio_setKio_self]
    rfl
  · rw [kio_insertAfter, if_neg hj, kio_setKio, if_neg hj, kio_setQueue]

theorem moveAll_settles (hq : q ≠ .compq) (n : ℕ) : SettlesFrom W q s (moveAll lib q n s) := by
  refine moveAll_rule (fun _ hW => ⟨.refl, hW⟩) (fun _ _ _ => .trans) fun s k l m hm hW => ?_
  have hdata : (s.queue q).data = k :: l.data := by simp [CList.data, hm]
  refine ⟨abort_settles (l := l) hq (hW k (hdata ▸ List.mem_cons_self)), fun j hj => ?_⟩
  rw [queue_insertAfter, if_neg (show q ≠ recvmsgCq from hq), queue_setKio,
    queue_setQueue_self] at hj
  exact hW j (hdata ▸ List.mem_cons_of_mem _ hj)

theorem recvmsgMoves_settles : SettlesFrom W .recvq s (recvmsgMoves lib s) := by
  unfold recvmsgMoves
  dsimp only [recvmsgCq, recvmsgRq, recvmsgSq]
  have h1 : SettlesFrom W .recvq s (s.mvrear .compq) := fun hW => ⟨.mvrear, hW⟩
  exact (h1.trans (moveAll_settles (by decide) _)).trans (moveAll_settles (by decide) _)

theorem receiverMatch_settles {aseq : ℤ} {msg : ℕ} {alloc : Option KioId} {pc : ReceiverPc}
    (h : receiverMatch lib s rc aseq msg alloc = some (s', pc))
    (hnew : ∀ k, k ∉ s.issued → (s.kio k).state.final = false) : Settles W s s' := by
  unfold receiverMatch at h
  split_ifs at h with hfresh
  obtain ⟨⟨m, s1⟩, hm, h⟩ := Option.map_eq_some_iff.mp h
  obtain ⟨rfl, -⟩ := Prod.mk.inj h
  have hq : ∀ l, Settles W s (s.setQueue .recvq l) := fun l => .setQueue (by decide)
  rcases recvmsgMatch_cases hm with ⟨-, -, l, -, rfl⟩ | ⟨-, -, -, rfl⟩ | ⟨k, -, -, rfl, rfl⟩ |
    ⟨i, k, -, hrem, -, -⟩
  · exact hq l
  · exact hq _
  · have hk := hnew k (hfresh k rfl)
    have h1 : Settles W s ((s.setQueue .recvq (s.queue .recvq)).setKio k
        fun _ => unsolicitedKio aseq) := (hq _).trans (.setOpen hk rfl)
    have h2 : Settles W s ((s.setQueue .recvq (s.queue .recvq)).issue k (unsolicitedKio aseq)) :=
      ⟨h1.compq, h1.done, h1.stays, h1.returned, h1.keeps⟩
    exact h2.trans .mvrear
  · obtain ⟨l, -, rfl⟩ := hrem.eq
    have h1 : Settles W s ((s.setQueue .recvq l).unqbp k) := (hq l).trans (.setKio fun _ => rfl)
    exact h1.trans .mvrear

theorem recvmsgComplete_settles {msg : ℕ} (hW : W k) : Settles W s (recvmsgComplete s k msg) := by
  unfold recvmsgComplete
  have h1 : Settles W s (s.setKio k (Kio.hang msg)) := .setKio fun _ => rfl
  exact h1.trans (.complete rfl hW)

/-- The kios whose state the receiver sets. -/
def ReceiverPc.finishes (s : Session) : ReceiverPc → KioId → Prop
  | .matched k _, j => j = k
  | .looping, j | .locking _ [], j => j ∈ (s.queue .recvq).data
  | _, _ => False

/-- **The sections of the receiver.** -/
theorem receiverStep_settles {e : ReceiverEnv} {pc pc' : ReceiverPc}
    (h : receiverStep lib s e pc = some (s', pc'))
    (hnew : ∀ k, k ∉ s.issued → (s.kio k).state.final = false) :
    Settles (pc.finishes s) s s' := by
  cases pc with
  | waiting | polling | receiving | disconnecting | swept =>
    obtain ⟨rfl, -⟩ := Prod.mk.inj (Option.some.inj h)
    exact .refl
  | matching rc aseq msg => exact receiverMatch_settles h hnew
  | matched k msg =>
    obtain ⟨rfl, -⟩ := Prod.mk.inj (Option.some.inj h)
    exact recvmsgComplete_settles rfl
  | aborting | disconnected =>
    obtain ⟨rfl, -⟩ := Prod.mk.inj (Option.some.inj h)
    exact .of_eq rfl (fun _ => rfl) rfl
  | locking held todo =>
    cases todo with
    | nil =>
      obtain ⟨rfl, -⟩ := Prod.mk.inj (Option.some.inj h)
      exact (recvmsgMoves_settles fun _ hj => hj).1
    | cons q todo =>
      simp only [receiverStep] at h
      split_ifs at h
      obtain ⟨rfl, -⟩ := Prod.mk.inj (Option.some.inj h)
      exact .refl
  | looping =>
    obtain ⟨s1, h1, h2⟩ := Option.map_eq_some_iff.mp h
    obtain ⟨rfl, -⟩ := Prod.mk.inj h2
    exact (sweep_settles h1 fun _ hj => hj).1
  | exited => cases h

end Settles

/-! ### The invariant -/

/-- **The invariant**: compq holds the kios that are done, and no other place does. -/
structure Settled (s : System) : Prop where
  compq : ∀ k ∈ (s.queue .compq).data, (s.kio k).state.final = true
  done : ∀ k, (s.kio k).state.final = true → k ∈ (s.queue .compq).data ∨ k ∈ s.returned
  completing : ∀ k st, s.sender = .completing k st → st.final = true

section Step
variable {lib : ListLib KioId} {s s' : System} {a : Act} {k : KioId} {W : KioId → Prop}

/-- A kio in any other place is not done. -/
theorem Settled.not_final (hs : Settled s) (hk : Kept s) {p : Place} (hp : k ∈ s.held p)
    (hne : p ≠ .queue .compq) : (s.kio k).state.final = false := by
  cases h : (s.kio k).state.final with
  | false => rfl
  | true =>
    rcases hs.done k h with hc | hr
    · have hc' : k ∈ s.view.ledger.held (.queue .compq) := hc
      exact absurd (hk.sound.balanced.place_unique hp hc') hne
    · exact absurd hp (hk.sound.balanced.not_held_of_left hr)

theorem Settled.new_not_final (hs : Settled s) (hk : Kept s) (hnew : k ∉ s.issued) :
    (s.kio k).state.final = false := by
  cases h : (s.kio k).state.final with
  | false => rfl
  | true =>
    have hent : k ∈ s.view.ledger.entered := by
      rcases hs.done k h with hc | hr
      · exact hk.sound.balanced.entered_of_held (p := .queue .compq) hc
      · exact hk.sound.balanced.entered_of_left hr
    exact absurd hent hnew

/-- A step that settles, setting the state of no kio that is done. -/
theorem Settled.of_settles (hs : Settled s) (h : Settles W s.toSession s'.toSession)
    (hW : ∀ k, W k → (s.kio k).state.final = false)
    (hcomp : ∀ k st, s'.sender = .completing k st → st.final = true) :
    Settled s' ∧ KeepsFinal s s' := by
  refine ⟨⟨fun k hk => ?_, fun k hk => ?_, hcomp⟩, fun k _ hk => ?_⟩
  · rcases h.compq k hk with h1 | ⟨h1, h2⟩
    · exact h1
    · exact h2 (hs.compq k h1)
  · rcases h.done k hk with h1 | h1
    · rcases hs.done k h1 with h2 | h2
      · exact h.stays k h2
      · exact Or.inr (h.returned h2)
    · exact h1
  · refine (h.keeps k hk).resolve_right fun h1 => ?_
    rw [hW k h1] at hk
    cases hk

theorem Settled.send (hs : Settled s) (hk : Kept s) {flags : ℕ} {msg : KioMsg}
    (h : step lib s (.send k flags msg) = some s') : Settled s' ∧ KeepsFinal s s' := by
  obtain ⟨r, hr, rfl⟩ := Option.map_eq_some_iff.mp h
  unfold sendBegin at hr
  have hrefl : Settles (fun _ => False) s.toSession s.toSession := .refl
  split_ifs at hr with hnew
  · obtain rfl := Option.some.inj hr
    exact hs.of_settles hrefl (fun _ h => h.elim) hs.completing
  · obtain rfl := Option.some.inj hr
    exact hs.of_settles hrefl (fun _ h => h.elim) hs.completing
  · obtain rfl := Option.some.inj hr
    have h1 : ∀ x : Kio, x.state.final = false →
        Settles (fun _ => False) s.toSession (s.toSession.setKio k fun _ => x) := fun x hx =>
      .setOpen (hs.new_not_final hk hnew) hx
    refine hs.of_settles (W := fun _ => False) ?_ (fun _ h => h.elim) hs.completing
    have h2 := h1 { flags, errno := 0, sendmsg := { msg with kmStatus := 0, kmErrno := 0 } } rfl
    exact ⟨h2.compq, h2.done, h2.stays, h2.returned, h2.keeps⟩

theorem Settled.call (hs : Settled s) (hk : Kept s) {c : Call} {mem : Bool}
    (hok : DrainOk s (.call c mem)) (h : step lib s (.call c mem) = some s') :
    Settled s' ∧ KeepsFinal s s' := by
  simp only [step] at h
  split_ifs at h with hc
  obtain ⟨r, hr, rfl⟩ := Option.map_eq_some_iff.mp h
  by_cases hck : c.kio = none
  · refine hs.of_settles (callStep_settles hr hck) (fun k hd => ?_) hs.completing
    obtain ⟨h1, h2⟩ := hok k hd.1
    have h3 := hd.2
    cases hst : (s.kio k).state with
    | new | sent => rfl
    | received => exact absurd hst h1
    | failed => exact absurd hst h3
    | timedout => exact absurd hst h2
  · cases c with
    | sendLock k =>
      obtain rfl := Option.some.inj hr
      have hheld : k ∈ s.held (.hand .caller) := by
        show k ∈ ((s.calls.filterMap Call.kio : List KioId) : Multiset KioId)
        exact Multiset.mem_coe.mpr (List.mem_filterMap.mpr ⟨_, hc.1, rfl⟩)
      have hopen := hs.not_final hk hheld (by decide)
      exact hs.of_settles (sendLock_settles (W := fun _ => False) mem hopen) (fun _ h => h.elim)
        hs.completing
    | _ => exact absurd rfl hck

/-- The sender completes kios as failed or as received. -/
theorem completing_of_step (hs : Settled s) (h : step lib s a = some s') :
    ∀ k st, s'.sender = .completing k st → st.final = true := by
  intro k st hpc'
  by_cases ha : ∃ rc err, a = .sender rc err
  · obtain ⟨rc, err, rfl⟩ := ha
    have h1 := sender_step h
    rw [hpc'] at h1
    cases hpc : s.sender with
    | marked j rc' =>
      rw [hpc] at h1
      have h2 : senderResult lib s.toSession j rc' = _ := Option.some.inj h1
      unfold senderResult at h2
      split_ifs at h2 <;> obtain ⟨-, h3⟩ := Prod.mk.inj h2 <;> cases h3 <;> rfl
    | woken | loop =>
      rw [hpc] at h1
      have h2 := (Prod.mk.inj (Option.some.inj h1)).2
      split_ifs at h2
    | take =>
      rw [hpc] at h1
      obtain ⟨r, -, h2⟩ := Option.map_eq_some_iff.mp h1
      exact absurd (Prod.mk.inj h2).2 (by simp)
    | exited =>
      rw [hpc] at h1
      cases h1
    | _ =>
      rw [hpc] at h1
      exact absurd (Prod.mk.inj (Option.some.inj h1)).2 (by simp)
  · rw [sender_of_step h fun rc err he => ha ⟨rc, err, he⟩] at hpc'
    exact hs.completing k st hpc'

theorem Settled.sender (hs : Settled s) (hk : Kept s) {rc err : ℤ}
    (h : step lib s (.sender rc err) = some s') : Settled s' ∧ KeepsFinal s s' := by
  refine hs.of_settles (senderStep_settles (sender_step h) hs.completing) (fun k hw => ?_)
    (completing_of_step hs h)
  obtain ⟨st, hpc⟩ := hw
  have hheld : k ∈ s.held (.hand .sender) := by
    show k ∈ s.sender.hand _
    rw [hpc]
    exact Multiset.mem_singleton_self k
  exact hs.not_final hk hheld (by decide)

theorem Settled.receiver (hs : Settled s) (hk : Kept s) {e : ReceiverEnv}
    (h : step lib s (.receiver e) = some s') : Settled s' ∧ KeepsFinal s s' := by
  have hcomp := completing_of_step hs h
  obtain ⟨⟨s1, pc⟩, hr, rfl⟩ := Option.map_eq_some_iff.mp h
  refine hs.of_settles (receiverStep_settles hr fun k => hs.new_not_final hk) (fun k hw => ?_) hcomp
  have hrecvq : k ∈ (s.queue .recvq).data → (s.kio k).state.final = false := by
    intro hq
    exact hs.not_final hk (p := .queue .recvq) hq (by decide)
  cases hpc : s.receiver with
  | matched j msg =>
    rw [hpc] at hw
    have hheld : k ∈ s.held (.hand .receiver) := by
      show k ∈ s.receiver.hand
      rw [hpc]
      exact Multiset.mem_singleton.mpr hw
    exact hs.not_final hk hheld (by decide)
  | looping =>
    rw [hpc] at hw
    exact hrecvq hw
  | locking held todo =>
    rw [hpc] at hw
    cases todo with
    | nil => exact hrecvq hw
    | cons q todo => exact hw.elim
  | _ => rw [hpc] at hw; exact hw.elim

/-- **Every step** that meets the condition keeps what is done. -/
theorem settled_step (hs : Settled s) (hk : Kept s) (hok : Unspoiled s a)
    (h : step lib s a = some s') : Settled s' ∧ KeepsFinal s s' := by
  cases a with
  | send k flags msg => exact hs.send hk h
  | receive | receiveUnsolicited | drain | drainMatch | connect | disconnect =>
    obtain ⟨c, rfl, -⟩ := step_push h rfl
    exact hs.of_settles (W := fun _ => False) .refl (fun _ h => h.elim) hs.completing
  | call c mem => exact hs.call hk hok.2 h
  | sender rc err => exact hs.sender hk h
  | receiver e => exact hs.receiver hk h
  | tick ns =>
    obtain rfl := Option.some.inj h
    exact hs.of_settles (W := fun _ => False) (.of_eq rfl (fun _ => rfl) rfl) (fun _ h => h.elim)
      hs.completing

theorem settled_init (h : Init s) : Settled s := by
  obtain ⟨now, rfl⟩ := h
  refine ⟨fun k hk => ?_, fun k hk => ?_, fun k st hst => ?_⟩
  · cases hk
  · cases hk
  · cases hst

end Step

/-! ### The runs -/

/-- The first of two requests is sent and answered. -/
def answeredTrace : List Act :=
  twoRequests ++ [.sender 0 0, .sender 0 0] ++ upToSend ++ sendReturns 10 ++ response 100

/-- The session is disconnected, and a drain begins. -/
def beginDrain : List Act := [.disconnect 0, .call .disconnected true, .drain]

end Libkinetic.Ktli
