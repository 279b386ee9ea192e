import Libkinetic.Ktli.Close
import Libkinetic.Ktli.Order

/-! # An opened session

A drain that finds its three queues empty, one after the other, moves the session from draining to
opened. What it has looked at may fill again behind it, and what is in the hands of a thread is on
no queue. In a run in which neither happens, and no unsolicited message is taken in while the session
is opened, an opened session has nothing on its queues and nothing in anyone's hands
(`opened_is_tidy`); without that a request is forgotten (`opened_with_a_request`). -/

namespace Libkinetic.Ktli

open Libkinetic.Base.CursorList Libkinetic.Base.Runs

/-! ### The property -/

/-- No thread has a kio in hand: no `ktli_send` is past its checks, and neither service thread works
on one. -/
structure HandsFree (s : System) : Prop where
  calls : s.calls.filterMap Call.kio = []
  sender : s.sender.kio = none
  receiver : s.receiver.hand = 0

instance (s : System) : Decidable (HandsFree s) :=
  decidable_of_iff' (s.calls.filterMap Call.kio = [] ∧ s.sender.kio = none ∧ s.receiver.hand = 0)
    ⟨fun h => ⟨h.calls, h.sender, h.receiver⟩, fun h => ⟨h.1, h.2.1, h.2.2⟩⟩

structure Tidy (s : System) : Prop where
  queues : ∀ q, (s.queue q).items = []
  hands : HandsFree s

/-- Whenever the session is opened, nothing is left. -/
def ForgetsNothing (s : System) : Prop := s.state = .opened → Tidy s

/-! ### The condition -/

/-- The queue that a step of the sender puts a kio on. -/
def SenderPc.puts (s : Session) : SenderPc → Option QId
  | .sequenced k => if s.reqonly k then none else some .recvq
  | .completing _ _ => some .compq
  | _ => none

/-- Some kio on recvq has expired, and a check is due. -/
def Expired (s : Session) : Prop :=
  s.lastcheck.tvSec ≠ (clockGettime s.now).tvSec ∧
    ∃ k ∈ (s.queue .recvq).data, timechk (clockGettime s.now) (s.kio k) = true

instance (s : Session) : Decidable (Expired s) :=
  inferInstanceAs (Decidable (_ ∧ ∃ k ∈ (s.queue .recvq).data, _))

def ReceiverPc.puts (s : Session) : ReceiverPc → Option QId
  | .matched _ _ => some .compq
  | .locking _ [] => if (s.queue .recvq).size = 0 then none else some .compq
  | .looping => if Expired s then some .compq else none
  | _ => none

def Act.puts (s : System) : Act → Option QId
  | .call (.sendLock _) true => some .sendq
  | .sender _ _ => s.sender.puts s.toSession
  | .receiver _ => s.receiver.puts s.toSession
  | _ => none

/-- The call is a drain that has found nothing so far and is done with this queue. -/
def Call.passed : Call → QId → Bool
  | .drainLock todo, q => q ∉ todo
  | .matchLock _ todo tqlen _, q => tqlen = 0 ∧ q ∉ todo
  | _, _ => false

/-- The call is a drain that has found nothing and goes on to set the state. -/
def Call.concludes : Call → Bool
  | .drainLock [] => true
  | .matchLock _ [] tqlen _ => tqlen = 0
  | _ => false

/-- The sizes that `ktli_drain_match` adds up fit 32 bits. -/
def Call.sumFits (s : Session) : Call → Prop
  | .matchLock _ (q :: _) tqlen _ => tqlen + (s.queue q).size < 2 ^ 32
  | _ => True

instance (s : Session) : ∀ c, Decidable (Call.sumFits s c)
  | .matchLock _ (q :: _) tqlen _ => inferInstanceAs (Decidable (tqlen + (s.queue q).size < 2 ^ 32))
  | .matchLock _ [] _ _ | .sendLock _ | .receiveLock _ | .unsolicitedLock | .drainLock _
  | .matchCheck _ | .connected | .disconnected => isTrue trivial

/-- A message that acknowledges nothing is about to be matched. -/
def ReceiverPc.unsolicited : ReceiverPc → Bool
  | .matching _ aseq _ => aseq = -1
  | _ => false

/-- What a step must not do besides putting a kio on a queue. -/
def EndsTidy (s : System) : Act → Prop
  | .call c _ => (c.concludes = true → HandsFree s) ∧ c.sumFits s.toSession
  | .receiver e => s.receiver.unsolicited = true → s.state = .opened → e.alloc = none
  | _ => True

instance (s : System) : ∀ a, Decidable (EndsTidy s a)
  | .call c _ => inferInstanceAs (Decidable ((c.concludes = true → HandsFree s) ∧ _))
  | .receiver e => inferInstanceAs (Decidable (_ → _ → e.alloc = none))
  | .sender _ _ | .send _ _ _ | .receive _ | .receiveUnsolicited | .drain | .drainMatch _
  | .connect _ | .disconnect _ | .tick _ => isTrue trivial

/-- **The condition**: no kio is put on a queue that a drain which has found nothing so far is done
with; no thread has a kio in hand when such a drain sets the state, whose sum of sizes fits; and no
unsolicited message is taken in while the session is opened. -/
def Undisturbed (l : Life) : LifeAct → Prop
  | .sys a => (∀ q ∈ a.puts l.toSystem, ∀ c ∈ l.calls, c.passed q = false) ∧ EndsTidy l.toSystem a
  | _ => True

instance (l : Life) : ∀ a, Decidable (Undisturbed l a)
  | .sys a => inferInstanceAs
      (Decidable ((∀ q ∈ a.puts l.toSystem, ∀ c ∈ l.calls, c.passed q = false) ∧ _))
  | .close | .closing _ _ => isTrue trivial

/-! ### Queues that stay empty -/

/-- A section puts kios on no queue but `p`. -/
def PutsOnly (p : Option QId) (s s' : Session) : Prop :=
  ∀ q, p ≠ some q → (s.queue q).items = [] → (s'.queue q).items = []

section PutsOnly
variable {p : Option QId} {P : KioId → Prop} {lib : ListLib KioId} {s s1 s2 s' : Session} {q : QId}
  {k : KioId} {rc err : ℤ} {l : CList KioId}

theorem PutsOnly.refl : PutsOnly p s s := fun _ _ h => h

theorem PutsOnly.trans (h1 : PutsOnly p s s1) (h2 : PutsOnly p s1 s2) : PutsOnly p s s2 :=
  fun q hq h => h2 q hq (h1 q hq h)

theorem PutsOnly.of_none (h : PutsOnly none s s') : PutsOnly p s s' :=
  fun q _ h0 => h q (by simp) h0

/-- A queue with fewer elements. -/
theorem PutsOnly.setQueue (hl : l.items.Sublist (s.queue q).items) : PutsOnly p s (s.setQueue q l) := by
  intro r _ hr
  rw [queue_setQueue]
  split_ifs with h
  · subst h
    rw [hr] at hl
    exact List.sublist_nil.mp hl
  · exact hr

theorem PutsOnly.mvrear : PutsOnly p s (s.mvrear q) := .setQueue (List.Sublist.refl _)

theorem PutsOnly.link : PutsOnly (some q) s (s.link q k) := by
  intro r hr h
  rw [items_link, if_neg (fun h1 => hr (congrArg some h1.symm))]
  exact h

theorem PutsOnly.insertAfter : PutsOnly (some q) s (s.insertAfter q k) := by
  intro r hr h
  rw [queue_insertAfter, if_neg (fun h1 => hr (congrArg some h1.symm))]
  exact h

theorem HandsBack.puts (h : HandsBack P s s') : PutsOnly none s s' := by
  induction h with
  | refl => exact .refl
  | back q i n k l f hi hl hk hf =>
    have h1 : PutsOnly none s (s.setQueue q l) := by
      refine .setQueue ?_
      rw [hl]
      exact List.eraseIdx_sublist _ i
    exact h1
  | cursor q l hl _ ih => exact ih.trans (.setQueue (by rw [hl]))
  | state st _ ih => exact ih

theorem sendLock_puts (mem : Bool) :
    PutsOnly (if mem then some .sendq else none) s (sendLock s k mem).2 := by
  unfold sendLock
  cases mem with
  | true => exact @PutsOnly.link s .sendq k
  | false => exact @PutsOnly.mvrear none s .sendq

theorem senderResult_puts {pc : SenderPc} (h : senderResult lib s k rc = (s', pc)) :
    PutsOnly none s s' := by
  unfold senderResult at h
  split_ifs at h <;> obtain ⟨rfl, rfl⟩ := Prod.mk.inj h
  · exact .refl
  · exact .refl
  · have h1 : PutsOnly none s
        (s.setQueue .recvq (((s.queue .recvq).setcurr (s.kio k).qbp).2.removeCurr lib).2) := by
      refine .setQueue ?_
      rw [← CList.setcurr_snd_items (s.queue .recvq) (s.kio k).qbp]
      exact CList.removeCurr_sublist _ _
    exact h1.trans .mvrear
  · exact .refl

/-- **The sections of the sender.** -/
theorem senderStep_puts {pc pc' : SenderPc} (h : senderStep lib s rc err pc = some (s', pc')) :
    PutsOnly (pc.puts s) s s' := by
  cases pc with
  | idle | woken | loop | timed =>
    obtain ⟨rfl, -⟩ := Prod.mk.inj (Option.some.inj h)
    exact .refl
  | take =>
    obtain ⟨⟨k, s1⟩, h1, h2⟩ := Option.map_eq_some_iff.mp h
    obtain ⟨rfl, -⟩ := Prod.mk.inj h2
    obtain ⟨n, l, hn, rfl⟩ := senderTake_some h1
    have h3 : PutsOnly none s (s.setQueue .sendq l) :=
      .setQueue (by rw [hn]; exact List.sublist_cons_self _ _)
    exact h3
  | taken k | queued k | sent k =>
    obtain ⟨rfl, -⟩ := Prod.mk.inj (Option.some.inj h)
    exact fun _ _ h => h
  | sequenced k =>
    obtain ⟨rfl, -⟩ := Prod.mk.inj (Option.some.inj h)
    simp only [senderQueue, SenderPc.puts]
    split_ifs
    · exact .refl
    · exact .link
  | marked k rc' => exact senderResult_puts (Option.some.inj h)
  | completing k st =>
    obtain ⟨rfl, -⟩ := Prod.mk.inj (Option.some.inj h)
    exact @PutsOnly.link s .compq k
  | exited => cases h

theorem timeOut_puts : PutsOnly (some .compq) s (timeOut s k) :=
  @PutsOnly.link (s.setKio k fun x => { x with errno := ETIMEDOUT, qbp := none }) .compq k

/-- **The sweep** puts on compq what has expired. -/
theorem sweep_puts (h : sweep lib s = some s') :
    PutsOnly (if Expired s then some .compq else none) s s' := by
  -- what has expired by the time of a turn had expired when the sweep began
  let Due (s1 : Session) : Prop := ∀ k ∈ (s1.queue .recvq).data,
    timechk (clockGettime s.now) (s1.kio k) = true →
      ∃ k ∈ (s.queue .recvq).data, timechk (clockGettime s.now) (s.kio k) = true
  let p : Option QId := if Expired s then some .compq else none
  have hrule : Due s → PutsOnly p s s' ∧ Due s' := by
    refine sweep_rule (R := fun s1 s2 => Due s1 → PutsOnly p s1 s2 ∧ Due s2)
      (fun _ hd => ⟨.refl, hd⟩) ?_ (fun s1 l hl hd => ?_) ?_ ?_ h
    · intro s1 s2 s3 h1 h2 hd
      obtain ⟨h3, hd2⟩ := h1 hd
      obtain ⟨h4, hd3⟩ := h2 hd2
      exact ⟨h3.trans h4, hd3⟩
    · refine ⟨.setQueue (by rw [hl]), fun k hk => hd k ?_⟩
      rwa [queue_setQueue_self, CList.data, hl] at hk
    · exact fun _ _ hd => ⟨fun _ _ h => h, hd⟩
    · intro hsec s1 k l i m hi hl hexp hd
      have hk : k ∈ (s1.queue .recvq).data :=
        List.mem_map_of_mem (f := Prod.snd) (List.mem_of_getElem? hi)
      have hfound := hd k hk hexp
      have hp : p = some .compq := if_pos ⟨hsec, hfound⟩
      refine ⟨?_, fun _ _ _ => hfound⟩
      have h1 : PutsOnly p s1 (s1.setQueue .recvq l) := by
        refine .setQueue ?_
        rw [hl]
        exact List.eraseIdx_sublist _ i
      rw [hp] at h1 ⊢
      exact h1.trans timeOut_puts
  exact (hrule fun k hk hexp => ⟨k, hk, hexp⟩).1

theorem moveAll_puts (n : ℕ) : PutsOnly (some .compq) s (moveAll lib q n s) := by
  refine moveAll_rule (fun _ => .refl) (fun _ _ _ => .trans) fun s k l m hm => ?_
  have h1 : PutsOnly (some .compq) s (s.setQueue q l) := by
    refine .setQueue ?_
    rw [hm]
    exact List.sublist_cons_self _ _
  exact h1.trans (@PutsOnly.insertAfter ((s.setQueue q l).setKio k Kio.abort) .compq k)

theorem recvmsgMoves_puts :
    PutsOnly (if (s.queue .recvq).size = 0 then none else some .compq) s (recvmsgMoves lib s) := by
  unfold recvmsgMoves
  dsimp only [recvmsgCq, recvmsgRq, recvmsgSq]
  split_ifs with h
  · have h1 : ((s.mvrear .compq).queue .recvq).size = 0 := h
    rw [h1]
    dsimp only [moveAll]
    rw [h1]
    exact .mvrear
  · exact (PutsOnly.mvrear.trans (moveAll_puts _)).trans (moveAll_puts _)

theorem receiverMatch_puts {aseq : ℤ} {msg : ℕ} {alloc : Option KioId} {pc : ReceiverPc}
    (h : receiverMatch lib s rc aseq msg alloc = some (s', pc)) : PutsOnly none s s' := by
  unfold receiverMatch at h
  split_ifs at h
  obtain ⟨⟨m, s1⟩, hm, h⟩ := Option.map_eq_some_iff.mp h
  obtain ⟨rfl, -⟩ := Prod.mk.inj h
  have hq : ∀ l, l.items.Sublist (s.queue .recvq).items → PutsOnly none s (s.setQueue .recvq l) :=
    fun l hl => .setQueue hl
  rcases recvmsgMatch_cases hm with ⟨-, -, l, hl, rfl⟩ | ⟨-, -, -, rfl⟩ | ⟨k, -, -, rfl, rfl⟩ |
    ⟨i, k, -, hrem, -, -⟩
  · exact hq l (by rw [hl])
  · exact hq _ (List.Sublist.refl _)
  · exact (hq _ (List.Sublist.refl _)).trans .mvrear
  · obtain ⟨l, hl, rfl⟩ := hrem.eq
    have h1 := hq l (by rw [hl]; exact List.eraseIdx_sublist _ i)
    exact h1.trans .mvrear

/-- **The sections of the receiver.** -/
theorem receiverStep_puts {e : ReceiverEnv} {pc pc' : ReceiverPc}
    (h : receiverStep lib s e pc = some (s', pc')) : PutsOnly (pc.puts s) s s' := by
  cases pc with
  | waiting | polling | receiving | disconnecting | swept =>
    obtain ⟨rfl, -⟩ := Prod.mk.inj (Option.some.inj h)
    exact .refl
  | matching rc aseq msg => exact receiverMatch_puts h
  | matched k msg =>
    obtain ⟨rfl, -⟩ := Prod.mk.inj (Option.some.inj h)
    exact @PutsOnly.link (s.setKio k (Kio.hang msg)) .compq k
  | aborting | disconnected =>
    obtain ⟨rfl, -⟩ := Prod.mk.inj (Option.some.inj h)
    exact fun _ _ h => h
  | locking held todo =>
    cases todo with
    | nil =>
      obtain ⟨rfl, -⟩ := Prod.mk.inj (Option.some.inj h)
      exact recvmsgMoves_puts
    | cons q todo =>
      simp only [receiverStep] at h
      split_ifs at h
      obtain ⟨rfl, -⟩ := Prod.mk.inj (Option.some.inj h)
      exact .refl
  | looping =>
    obtain ⟨s1, h1, h2⟩ := Option.map_eq_some_iff.mp h
    obtain ⟨rfl, -⟩ := Prod.mk.inj h2
    exact sweep_puts h1
  | exited => cases h

end PutsOnly

/-! ### The invariant -/

/-- **The invariant**: an opened session is tidy, and a drain that has found nothing is right about
the queues it is done with. -/
structure Guarded (s : System) : Prop where
  tidy : ForgetsNothing s
  passed : ∀ c ∈ s.calls, ∀ q, c.passed q = true → (s.queue q).items = []

section Step
variable {lib : ListLib KioId} {s s' : System} {a : Act} {c : Call} {q : QId}

/-- A call that begins is done with no queue. -/
theorem Call.first.passed (h : c.first) : c.passed q = false := by
  cases c with
  | drainLock todo =>
    obtain rfl : todo = drainOrder := h
    cases q <;> rfl
  | sendLock | matchLock => exact h.elim
  | _ => rfl

/-- The rest of `ktli_drain_match` has found nothing only if this queue was empty too. -/
theorem matchLock_passed {s s' : Session} {k : KioId} {todo : List QId} {tqlen : ℕ} {rc : ℤ}
    {c : Option Call} (h : matchLock lib s k q todo tqlen = some (s', c))
    (hfits : Call.sumFits s (.matchLock k (q :: todo) tqlen rc)) :
    ∀ c' ∈ c, ∀ r, c'.passed r = true →
      (r = q → (s'.queue q).items = []) ∧ (r ≠ q → tqlen = 0 ∧ r ∉ q :: todo) := by
  have hsize : ∀ l : CList KioId, l.size ≤ (s.queue q).size →
      (tqlen + l.size) % 2 ^ 32 = 0 → tqlen = 0 ∧ l.items = [] := by
    intro l hl hz
    have h1 : tqlen + (s.queue q).size < 2 ^ 32 := hfits
    rw [Nat.mod_eq_of_lt (by omega)] at hz
    exact ⟨by omega, List.eq_nil_of_length_eq_zero (show l.size = 0 by omega)⟩
  obtain ⟨s1, rc', rfl, rfl, hs1⟩ := matchLock_cases h
  intro c' hc' r hr
  obtain rfl := Option.some.inj hc'
  obtain ⟨h0, hr⟩ := of_decide_eq_true hr
  have hle : (s1.queue q).size ≤ (s.queue q).size := by
    obtain ⟨i, n, l, -, hl, rfl⟩ | ⟨l, hl, rfl⟩ := hs1
    · have hq : (handBack (s.setQueue q l) k Kio.drain).queue q = l := queue_setQueue_self s q l
      rw [hq, CList.size, hl]
      exact (List.eraseIdx_sublist _ i).length_le
    · rw [queue_setQueue_self, CList.size, hl]
      exact le_rfl
  obtain ⟨htq, hnil⟩ := hsize (s1.queue q) hle h0
  refine ⟨fun _ => ?_, fun hne => ⟨htq, by simp [hne, hr]⟩⟩
  rw [items_mvrear, hnil]

/-- **The queues that a call goes on without** were passed by it, or were just found empty. -/
theorem callStep_passed {mem : Bool} {s : Session} {r : Session × Option Call}
    (h : callStep lib s mem c = some r) (hfits : c.sumFits s) :
    ∀ c' ∈ r.2, ∀ q, c'.passed q = true → (r.1.queue q).items = [] ∨ c.passed q = true := by
  intro c' hc' q hq
  cases c with
  | sendLock k | connected | disconnected =>
    obtain rfl := Option.some.inj h
    cases hc'
  | receiveLock k | unsolicitedLock =>
    obtain ⟨r1, -, rfl⟩ := Option.map_eq_some_iff.mp h
    cases hc'
  | drainLock todo =>
    cases todo with
    | nil =>
      obtain rfl := Option.some.inj h
      cases hc'
    | cons q0 todo =>
      obtain rfl := Option.some.inj h
      unfold drainLock at hc' ⊢
      rcases hrem : (s.queue q0).removeFront lib with ⟨_ | k, l⟩
      · rw [hrem] at hc'
        obtain rfl := Option.some.inj hc'
        have hq' : q ∉ todo := of_decide_eq_true hq
        by_cases hqq : q = q0
        · left
          subst hqq
          unfold CList.removeFront at hrem
          split at hrem
          · next hnil => exact hnil
          · cases hrem
        · exact Or.inr (decide_eq_true (by simp [hqq, hq']))
      · rw [hrem] at hc'
        cases hc'
  | matchCheck k =>
    obtain rfl := Option.some.inj h
    unfold matchCheck at hc'
    dsimp only at hc'
    split_ifs at hc'
    · obtain rfl := Option.some.inj hc'
      have h1 := (of_decide_eq_true hq).2
      cases q <;> exact absurd (by decide) h1
    · cases hc'
  | matchLock k todo tqlen rc =>
    cases todo with
    | nil =>
      obtain rfl := Option.some.inj h
      cases hc'
    | cons q0 todo =>
      obtain ⟨h1, h2⟩ := matchLock_passed h hfits c' hc' q hq
      by_cases hqq : q = q0
      · exact Or.inl (hqq ▸ h1 hqq)
      · exact Or.inr (decide_eq_true (h2 hqq))

/-! ### One step -/

theorem step_puts (h : step lib s a = some s') :
    PutsOnly (a.puts s) s.toSession s'.toSession := by
  cases a with
  | send k flags msg =>
    obtain ⟨r, hr, rfl⟩ := Option.map_eq_some_iff.mp h
    unfold sendBegin at hr
    split_ifs at hr <;> obtain rfl := Option.some.inj hr <;> exact fun _ _ h => h
  | receive | receiveUnsolicited | drain | drainMatch | connect | disconnect =>
    obtain ⟨c, rfl, -⟩ := step_push h rfl
    exact .refl
  | call c mem =>
    simp only [step] at h
    split_ifs at h
    obtain ⟨r, hr, rfl⟩ := Option.map_eq_some_iff.mp h
    by_cases hck : c.kio = none
    · exact (callStep_handsBack hr hck).puts.of_none
    · cases c with
      | sendLock k =>
        obtain rfl := Option.some.inj hr
        cases mem with
        | true => exact @sendLock_puts s.toSession k true
        | false => exact @sendLock_puts s.toSession k false
      | _ => exact absurd rfl hck
  | sender rc err => exact senderStep_puts (sender_step h)
  | receiver e =>
    obtain ⟨r, hr, rfl⟩ := Option.map_eq_some_iff.mp h
    exact receiverStep_puts hr
  | tick ns =>
    obtain rfl := Option.some.inj h
    exact .refl

/-- The calls after a step are done with empty queues. -/
theorem Guarded.passed_step (hs : Guarded s) (hend : EndsTidy s a)
    (hput : ∀ q ∈ a.puts s, ∀ c ∈ s.calls, c.passed q = false) (h : step lib s a = some s') :
    ∀ c ∈ s'.calls, ∀ q, c.passed q = true → (s'.queue q).items = [] := by
  -- a queue that some call was done with is still empty
  have hold : ∀ c ∈ s.calls, ∀ q, c.passed q = true → (s'.queue q).items = [] := by
    intro c hc q hq
    refine step_puts h q (fun hp => ?_) (hs.passed c hc q hq)
    have := hput q hp c hc
    rw [hq] at this
    cases this
  intro c hc q hq
  cases a with
  | send k flags msg =>
    have h1 := h
    obtain ⟨r, hr, rfl⟩ := Option.map_eq_some_iff.mp h1
    rcases List.mem_append.mp hc with hc | hc
    · unfold sendBegin at hr
      split_ifs at hr <;> obtain rfl := Option.some.inj hr
      · cases hc
      · cases hc
      · obtain rfl := List.mem_singleton.mp hc
        cases hq
    · exact hold c hc q hq
  | receive | receiveUnsolicited | drain | drainMatch | connect | disconnect =>
    obtain ⟨c1, h1, hfirst⟩ := step_push h rfl
    rw [h1] at hc
    rcases List.mem_append.mp hc with hc | hc
    · rw [(hfirst c (Option.mem_toList.mp hc)).passed] at hq
      cases hq
    · exact hold c hc q hq
  | call c0 mem =>
    have h1 := h
    simp only [step] at h1
    split_ifs at h1 with hc0
    obtain ⟨r, hr, rfl⟩ := Option.map_eq_some_iff.mp h1
    rcases List.mem_append.mp hc with hc | hc
    · rcases callStep_passed hr hend.2 c (Option.mem_toList.mp hc) q hq with h2 | h2
      · exact h2
      · exact hold c0 hc0.1 q h2
    · exact hold c (List.mem_of_mem_erase hc) q hq
  | sender rc err =>
    rw [(calls_of_sender h).1] at hc
    exact hold c hc q hq
  | receiver e =>
    have h1 := h
    obtain ⟨r, hr, rfl⟩ := Option.map_eq_some_iff.mp h1
    exact hold c hc q hq
  | tick ns =>
    have h1 := h
    obtain rfl := Option.some.inj h1
    exact hold c hc q hq

theorem senderStep_state {s : System} {pc pc' : SenderPc} {r : Session} {rc err : ℤ}
    (h : senderStep lib s.toSession rc err pc = some (r, pc')) : r.state = s.state := by
  cases pc with
  | take =>
    obtain ⟨⟨k, s1⟩, h1, h2⟩ := Option.map_eq_some_iff.mp h
    obtain ⟨rfl, -⟩ := Prod.mk.inj h2
    obtain ⟨n, l, -, rfl⟩ := senderTake_some h1
    rfl
  | sequenced k =>
    obtain ⟨rfl, -⟩ := Prod.mk.inj (Option.some.inj h)
    exact senderQueue_quiet.state
  | marked k rc' => exact (senderResult_quiet (Option.some.inj h)).1.state
  | completing k st =>
    obtain ⟨rfl, -⟩ := Prod.mk.inj (Option.some.inj h)
    exact senderComplete_quiet.state
  | exited => cases h
  | _ =>
    obtain ⟨rfl, -⟩ := Prod.mk.inj (Option.some.inj h)
    rfl

/-- A drain that has found nothing only sets the state, and is over. -/
theorem callStep_concludes {s : Session} {mem : Bool} {r : Session × Option Call}
    (hc : c.concludes = true) (h : callStep lib s mem c = some r) :
    (∀ q, c.passed q = true) ∧ r = ({ s with state := .opened }, none) := by
  cases c with
  | drainLock todo =>
    cases todo with
    | nil => exact ⟨fun _ => rfl, (Option.some.inj h).symm⟩
    | cons q todo => cases hc
  | matchLock k todo tqlen rc =>
    cases todo with
    | nil =>
      have ht : tqlen = 0 := of_decide_eq_true hc
      refine ⟨fun q => decide_eq_true ⟨ht, List.not_mem_nil⟩, ?_⟩
      have h1 := (Option.some.inj h).symm
      rwa [if_pos ht] at h1
    | cons q todo => cases hc
  | _ => cases hc

/-- **Only a drain that has found nothing** opens a session. -/
theorem opens_of_step (h : step lib s a = some s') (h0 : s.state ≠ .opened)
    (h1 : s'.state = .opened) : ∃ c mem, a = .call c mem ∧ c ∈ s.calls ∧ c.concludes = true := by
  cases a with
  | send k flags msg =>
    obtain ⟨r, hr, rfl⟩ := Option.map_eq_some_iff.mp h
    unfold sendBegin at hr
    split_ifs at hr <;> obtain rfl := Option.some.inj hr <;> exact absurd h1 h0
  | receive | receiveUnsolicited | drain | drainMatch | connect | disconnect =>
    obtain ⟨c, rfl, -⟩ := step_push h rfl
    exact absurd h1 h0
  | call c mem =>
    simp only [step] at h
    split_ifs at h with hc
    obtain ⟨r, hr, rfl⟩ := Option.map_eq_some_iff.mp h
    refine ⟨c, mem, rfl, hc.1, ?_⟩
    by_cases hck : c.kio = none
    · have hst : r.1.state = c.sets.getD s.state := (callStep_leaves hr hck).2
      have hst' : c.sets.getD s.state = .opened := hst ▸ h1
      cases hsets : c.sets with
      | none =>
        rw [hsets] at hst'
        exact absurd hst' h0
      | some st =>
        rw [hsets] at hst'
        obtain rfl : st = .opened := hst'
        unfold Call.sets at hsets
        split at hsets
        · rfl
        · split_ifs at hsets with ht
          exact decide_eq_true ht
        · cases hsets
        · cases hsets
        · cases hsets
    · cases c with
      | sendLock k =>
        obtain rfl := Option.some.inj hr
        refine absurd ?_ h0
        cases mem with
        | true =>
          have hst : (s.toSession.link .sendq k).state = s.state := by rw [link_eq]; rfl
          exact hst ▸ h1
        | false => exact h1
      | _ => exact absurd rfl hck
  | sender rc err =>
    exfalso
    have hst : s'.state = s.state := senderStep_state (sender_step h)
    exact h0 (hst ▸ h1)
  | receiver e =>
    exfalso
    obtain ⟨r, hr, rfl⟩ := Option.map_eq_some_iff.mp h
    rcases receiverStep_quiet hr with hq | ⟨st, hst, hr1⟩
    · exact h0 (hq.state ▸ h1)
    · have h2 : r.1.state = .opened := h1
      rw [hr1] at h2
      exact hst h2
  | tick ns =>
    obtain rfl := Option.some.inj h
    exact absurd h1 h0

/-- The receiver gets a kio in its hand from recvq, or for an unsolicited message. -/
theorem receiverStep_hand {s s' : Session} {e : ReceiverEnv} {pc pc' : ReceiverPc}
    (h : receiverStep lib s e pc = some (s', pc')) (hempty : (s.queue .recvq).items = [])
    (huns : pc.unsolicited = true → e.alloc = none) : pc'.hand = 0 := by
  cases pc with
  | waiting | polling | disconnecting | swept =>
    obtain ⟨-, rfl⟩ := Prod.mk.inj (Option.some.inj h)
    split_ifs <;> rfl
  | receiving =>
    obtain ⟨-, rfl⟩ := Prod.mk.inj (Option.some.inj h)
    split <;> rfl
  | matching rc aseq msg =>
    have h1 : receiverMatch lib s rc aseq msg e.alloc = some (s', pc') := h
    unfold receiverMatch at h1
    split_ifs at h1
    obtain ⟨⟨m, s1⟩, hm, h2⟩ := Option.map_eq_some_iff.mp h1
    obtain ⟨-, rfl⟩ := Prod.mk.inj h2
    rcases recvmsgMatch_cases hm with ⟨rfl, -⟩ | ⟨rfl, -⟩ | ⟨k, rfl, haseq, halloc, -⟩ |
      ⟨i, k, rfl, hrem, -, -⟩
    · rfl
    · rfl
    · rw [huns (decide_eq_true haseq)] at halloc
      cases halloc
    · obtain ⟨n, hi⟩ := hrem.node
      rw [hempty] at hi
      cases hi
  | matched | aborting | disconnected =>
    obtain ⟨-, rfl⟩ := Prod.mk.inj (Option.some.inj h)
    rfl
  | locking held todo =>
    cases todo with
    | nil =>
      obtain ⟨-, rfl⟩ := Prod.mk.inj (Option.some.inj h)
      rfl
    | cons q todo =>
      simp only [receiverStep] at h
      split_ifs at h
      obtain ⟨-, rfl⟩ := Prod.mk.inj (Option.some.inj h)
      rfl
  | looping =>
    obtain ⟨s1, -, h2⟩ := Option.map_eq_some_iff.mp h
    obtain ⟨-, rfl⟩ := Prod.mk.inj h2
    rfl
  | exited => cases h

/-- No step of a tidy session puts a kio on a queue. -/
theorem Tidy.no_puts (ht : Tidy s) (h : step lib s a = some s') : a.puts s = none := by
  cases a with
  | call c mem =>
    simp only [Ktli.step] at h
    split_ifs at h with hc
    cases c with
    | sendLock k =>
      have hmem : k ∈ s.calls.filterMap Call.kio := List.mem_filterMap.mpr ⟨_, hc.1, rfl⟩
      rw [ht.hands.calls] at hmem
      cases hmem
    | _ => rfl
  | sender rc err =>
    have hk := ht.hands.sender
    show s.sender.puts s.toSession = none
    cases hpc : s.sender with
    | sequenced k => rw [hpc] at hk; cases hk
    | completing k st => rw [hpc] at hk; cases hk
    | _ => rfl
  | receiver e =>
    have hr := ht.hands.receiver
    have hq := ht.queues .recvq
    show s.receiver.puts s.toSession = none
    cases hpc : s.receiver with
    | matched k msg => rw [hpc] at hr; exact absurd hr (Multiset.singleton_ne_zero k)
    | locking held todo =>
      cases todo with
      | nil => simp [ReceiverPc.puts, CList.size, hq]
      | cons q todo => rfl
    | looping => simp [ReceiverPc.puts, Expired, CList.data, hq]
    | _ => rfl
  | _ => rfl

/-- No call takes a kio in hand. -/
theorem Tidy.no_calls (ht : Tidy s) (ho : s.state = .opened) (h : step lib s a = some s') :
    s'.calls.filterMap Call.kio = [] := by
  cases a with
  | send k flags msg =>
    obtain ⟨r, hr, rfl⟩ := Option.map_eq_some_iff.mp h
    unfold sendBegin at hr
    split_ifs at hr with h1 h2
    · obtain rfl := Option.some.inj hr
      exact ht.hands.calls
    · rw [ho] at h2
      exact absurd (by decide) h2
    · rw [ho] at h2
      exact absurd (by decide) h2
  | receive | receiveUnsolicited | drain | drainMatch | connect | disconnect =>
    obtain ⟨c, rfl, hc⟩ := step_push h rfl
    exact (filterMap_push fun c' h' => (hc c' h').kio).trans ht.hands.calls
  | call c mem =>
    simp only [Ktli.step] at h
    split_ifs at h with hc
    obtain ⟨r, hr, rfl⟩ := Option.map_eq_some_iff.mp h
    have hsub := (List.erase_sublist (a := c) (l := s.calls)).filterMap Call.kio
    rw [ht.hands.calls] at hsub
    exact (filterMap_push (callStep_kio hr)).trans (List.sublist_nil.mp hsub)
  | sender rc err =>
    rw [(calls_of_sender h).1]
    exact ht.hands.calls
  | receiver e =>
    obtain ⟨r, -, rfl⟩ := Option.map_eq_some_iff.mp h
    exact ht.hands.calls
  | tick ns =>
    obtain rfl := Option.some.inj h
    exact ht.hands.calls

/-- The sender finds nothing to take. -/
theorem Tidy.no_sender (ht : Tidy s) (h : step lib s a = some s') : s'.sender.kio = none := by
  by_cases ha : ∃ rc err, a = .sender rc err
  · obtain ⟨rc, err, rfl⟩ := ha
    cases hk : s'.sender.kio with
    | none => rfl
    | some k =>
      rcases senderStep_kio (sender_step h) hk with h1 | h1
      · rw [ht.hands.sender] at h1
        cases h1
      · rw [CList.data, ht.queues] at h1
        cases h1
  · rw [sender_of_step h fun rc err he => ha ⟨rc, err, he⟩]
    exact ht.hands.sender

/-- **A tidy session stays tidy** as long as it is opened. -/
theorem Tidy.step (ht : Tidy s) (ho : s.state = .opened) (hend : EndsTidy s a)
    (h : step lib s a = some s') : Tidy s' := by
  have hqueues : ∀ q, (s'.queue q).items = [] := fun q =>
    step_puts h q (by rw [ht.no_puts h]; simp) (ht.queues q)
  refine ⟨hqueues, ht.no_calls ho h, ht.no_sender h, ?_⟩
  by_cases ha : ∃ e, a = .receiver e
  · obtain ⟨e, rfl⟩ := ha
    obtain ⟨r, hr, rfl⟩ := Option.map_eq_some_iff.mp h
    exact receiverStep_hand hr (ht.queues .recvq) fun hu => hend hu ho
  · rw [receiver_of_step h fun e he => ha ⟨e, he⟩]
    exact ht.hands.receiver

/-- **Every step** that meets the condition keeps the invariant. -/
theorem guarded_step (hs : Guarded s) (hend : EndsTidy s a)
    (hput : ∀ q ∈ a.puts s, ∀ c ∈ s.calls, c.passed q = false) (h : step lib s a = some s') :
    Guarded s' := by
  refine ⟨fun ho' => ?_, hs.passed_step hend hput h⟩
  by_cases ho : s.state = .opened
  · exact (hs.tidy ho).step ho hend h
  · obtain ⟨c, mem, rfl, hc, hcon⟩ := opens_of_step h ho ho'
    simp only [step] at h
    split_ifs at h
    obtain ⟨r, hr, rfl⟩ := Option.map_eq_some_iff.mp h
    -- such a drain is done with every queue
    obtain ⟨hall, rfl⟩ := callStep_concludes hcon hr
    have hhands := hend.1 hcon
    have hsub := (List.erase_sublist (a := c) (l := s.calls)).filterMap Call.kio
    rw [hhands.calls] at hsub
    exact ⟨fun q => hs.passed c hc q (hall q), List.sublist_nil.mp hsub, hhands.sender,
      hhands.receiver⟩

end Step

/-! ### Closing -/

section Life
variable {lib : ListLib KioId} {l l' : Life} {a : LifeAct} {q : QId}

theorem Guarded.raise (hs : Guarded l.toSystem) : Guarded (l.raise q).toSystem :=
  ⟨fun ho => ⟨(hs.tidy ho).queues, ⟨(hs.tidy ho).hands.calls, (hs.tidy ho).hands.sender,
    (hs.tidy ho).hands.receiver⟩⟩, hs.passed⟩

/-- A queue that is freed is as good as empty. -/
theorem Guarded.free (hs : Guarded l.toSystem) : Guarded (l.free q).toSystem := by
  have hq : ∀ r, (l.queue r).items = [] → ((l.free q).queue r).items = [] := by
    intro r hr
    show ((Function.update l.queue q {}) r).items = []
    rw [Function.update_apply]
    split_ifs
    · rfl
    · exact hr
  refine ⟨fun ho => ⟨fun r => hq r ((hs.tidy ho).queues r), ?_⟩, fun c hc r hr =>
    hq r (hs.passed c hc r hr)⟩
  have hh := (hs.tidy ho).hands
  exact ⟨hh.calls, hh.sender, hh.receiver⟩

/-- Without a slot the session is not opened. -/
theorem Guarded.unknown {s : System} (hs : Guarded s) : Guarded { s with state := .unknown } :=
  ⟨fun ho => SState.noConfusion ho, hs.passed⟩

theorem guarded_close {rc : ℤ} {c : Close} {r : Life × Option Close} (hs : Guarded l.toSystem)
    (h : closeStep l rc c = some r) : Guarded r.1.toSystem := by
  rcases closeStep_cases h with hr | ⟨q, -, hr⟩ | ⟨q, -, hr⟩ | ⟨-, hr⟩ | ⟨-, hr⟩
  · rw [hr]
    exact hs
  · rw [hr]
    exact hs.raise
  · rw [hr]
    exact hs.free
  · rw [hr]
    exact hs.raise.free
  · rw [hr]
    exact hs.unknown

theorem guarded_life (hs : Guarded l.toSystem) (hok : Undisturbed l a)
    (h : lifeStep lib l a = some l') : Guarded l'.toSystem := by
  cases a with
  | sys a =>
    obtain ⟨s', st, hstep, hst, rfl⟩ := lifeStep_sys h
    have hs' := guarded_step hs hok.2 hok.1 hstep
    rcases hst with rfl | rfl
    · exact hs'
    · exact hs'.unknown
  | close =>
    obtain rfl := Option.some.inj h
    exact hs
  | closing c rc =>
    simp only [lifeStep] at h
    split_ifs at h
    obtain ⟨r, hr, rfl⟩ := Option.map_eq_some_iff.mp h
    exact guarded_close hs hr

theorem guarded_init (h : LifeInit l) : Guarded l.toSystem := by
  obtain ⟨s, ⟨now, rfl⟩, rfl⟩ := h
  refine ⟨fun _ => ⟨fun _ => rfl, rfl, rfl, rfl⟩, ?_⟩
  intro c hc
  cases hc

/-- **An opened session has forgotten nothing**, in every run whose steps meet the condition. -/
theorem opened_is_tidy (lib : ListLib KioId) (l : Life)
    (h : Reach (lifeStep lib) Undisturbed LifeInit l) : ForgetsNothing l.toSystem :=
  (h.invariant (I := fun l => Guarded l.toSystem) (fun _ => guarded_init)
    fun _ _ _ hs hok hstep => guarded_life hs hok hstep).tidy

end Life

/-! ### A session that is drained, and one that is opened too early -/

/-- A disconnected session is drained, and nothing is found. -/
def drainNothing : List Act :=
  [.disconnect 0, .call .disconnected true, .drain, .call (.drainLock [.compq, .recvq, .sendq]) true,
    .call (.drainLock [.recvq, .sendq]) true, .call (.drainLock [.sendq]) true,
    .call (.drainLock []) true]

/-- Two requests are sent, answered and received. -/
def bothReceived : List Act :=
  twoRequests ++ [.sender 0 0, .sender 0 0] ++ upToSend ++ sendReturns 10 ++ upToSend ++
    sendReturns 10 ++ response 100 ++ List.replicate 6 (.receiver (responseEnv 101)) ++
    [.receive 0, .call (.receiveLock 0) true, .receive 1, .call (.receiveLock 1) true]

/-- The session is then drained, and a close begins. -/
def drainedTrace : List LifeAct := (bothReceived ++ drainNothing).map .sys ++ [.close]

theorem drainedTrace_tidy : ∃ l : Life,
    run (lifeStep (ListLib.next KioId)) { now := 5 } drainedTrace = some l ∧
      l.state = .opened ∧ l.accepted = [1, 0] ∧ l.returned = [1, 0] ∧ Tidy l.toSystem := by
  obtain ⟨l, hl, hq⟩ := Option.map_eq_some_iff.mp
    (show (run (lifeStep (ListLib.next KioId)) { now := 5 } drainedTrace).map (fun l =>
      (l.state, l.accepted, l.returned)) = some (.opened, [1, 0], [1, 0]) by decide)
  simp only [Prod.mk.injEq] at hq
  have hreach : Reach (lifeStep (ListLib.next KioId)) Undisturbed LifeInit l :=
    reach_of_run ⟨_, ⟨5, rfl⟩, rfl⟩ (by decide) hl
  exact ⟨l, hl, hq.1, hq.2.1, hq.2.2, opened_is_tidy (ListLib.next KioId) l hreach hq.1⟩

/-- The sender has taken a request off sendq when the session is drained. -/
def openedTrace : List LifeAct :=
  ([.connect 0, .call .connected true, .send 0 1 oneBuffer, .call (.sendLock 0) true,
    .sender 0 0, .sender 0 0, .sender 0 0, .sender 0 0] ++ drainNothing : List Act).map .sys

/-- **A drain opens a session** whose sender has a request in its hand. -/
theorem opened_with_a_request :
    ¬ ∀ l, Reach (lifeStep (ListLib.next KioId)) always LifeInit l →
      ForgetsNothing l.toSystem := by
  intro hall
  obtain ⟨l, hl, hq⟩ := Option.map_eq_some_iff.mp
    (show (run (lifeStep (ListLib.next KioId)) { now := 5 } openedTrace).map (fun l =>
      (l.state, l.sender.kio)) = some (.opened, some 0) by decide)
  obtain ⟨ho, hk⟩ := Prod.mk.inj hq
  have htidy := hall l (reach_of_run ⟨_, ⟨5, rfl⟩, rfl⟩ (runOk_always _ _) hl) ho
  rw [htidy.hands.sender] at hk
  cases hk

end Libkinetic.Ktli
