import Libkinetic.Ktli.Session

/-! # Receiving a message

`ktli_recvmsg`: reading a message from the driver, finding the kio it answers, completing that kio,
and the error path. The parts are those between which other threads may run; `recvmsg` is the whole
function when no other thread does. -/

namespace Libkinetic.Ktli

open Libkinetic.Base.CursorList

/-! ### Reading the message -/

/-- What the allocator, the driver and the protocol helpers answer. -/
structure RecvEnv where
  kiovAlloc : Bool
  pduAlloc : Bool
  /-- The driver's receive of the PDU. -/
  pduRc : ℤ
  /-- `kh_msglen_fn` and `kh_vallen_fn` -/
  msglen : ℤ
  vallen : ℤ
  msgAlloc : ℕ → Bool
  valAlloc : ℕ → Bool
  /-- The driver's receive of a message and a value of these lengths. -/
  bodyRc : ℕ → ℕ → ℤ
  /-- `kh_getaseq_fn` -/
  aseq : ℤ
  msg : ℕ

/-- The conversion to `size_t`. -/
def sizeT (z : ℤ) : ℕ := (z % 2 ^ 64).toNat

/-- The return value of the last receive, the acknowledged sequence number and the message; nothing
where the code goes to `recvmsgerr`. -/
def recvmsgRead (e : RecvEnv) : Option (ℤ × ℤ × ℕ) :=
  if ¬ e.kiovAlloc then none
  else if ¬ e.pduAlloc then none
  else if e.pduRc = -1 then none
  else
    let msgLen := sizeT e.msglen
    let valLen := sizeT e.vallen
    -- the lengths are unsigned when they are compared
    if msgLen < 0 ∨ valLen < 0 then none
    else if ¬ e.msgAlloc msgLen then none
    else if ¬ e.valAlloc valLen then none
    else if e.bodyRc msgLen valLen = -1 then none
    else some (e.bodyRc msgLen valLen, e.aseq, e.msg)

/-! ### Finding the kio -/

inductive Match
  /-- Nobody waits for this response; the message is freed. -/
  | tossed
  /-- There is no memory for the kio of an unsolicited message. -/
  | nomem
  | kio (k : KioId)
deriving DecidableEq

/-- The kio made for an unsolicited message. -/
def unsolicitedKio (aseq : ℤ) : Kio := { seq := aseq, flags := kiofSet 0 kiofResponly }

/-- The section under the mutex of recvq. `rc` is what the driver's last receive returned: it is
overwritten by the search only if there is one. No result if the element removed is null. -/
def recvmsgMatch (lib : ListLib KioId) (s : Session) (rc aseq : ℤ) (alloc : Option KioId) :
    Option (Match × Session) :=
  let (rc, l) :=
    if 0 < aseq then (s.queue .recvq).traverse lib 0 fun j => seqmatch aseq (s.kio j)
    else (rc, s.queue .recvq)
  if aseq = -1 ∨ rc = lib.listExtent ∨ rc = lib.listEmpty then
    if aseq ≠ -1 then some (.tossed, s.setQueue .recvq l)
    else
      match alloc with
      | none => some (.nomem, s.setQueue .recvq l)
      | some k =>
        some (.kio k, ((s.setQueue .recvq l).issue k (unsolicitedKio aseq)).mvrear .recvq)
  else
    match l.removeCurr lib with
    | (none, _) => none
    | (some k, l) => some (.kio k, ((s.setQueue .recvq l).unqbp k).mvrear .recvq)

/-! ### Completing it -/

/-- The response is hung on the kio. -/
def Kio.hang (msg : ℕ) (x : Kio) : Kio :=
  { x with recvmsg := { kmMsg := some msg, kmCnt := kmCntWithval, kmStatus := 0, kmErrno := 0 } }

def recvmsgComplete (s : Session) (k : KioId) (msg : ℕ) : Session :=
  ((s.setKio k (Kio.hang msg)).link .compq k).setKio k fun x => { x with state := .received }

/-! ### The error path -/

/-- `sq` and `rq` are both set from `kts_recvq`. -/
def recvmsgSq : QId := .recvq
def recvmsgRq : QId := .recvq
def recvmsgCq : QId := .compq

/-- The order in which the error path locks. -/
def recvmsgLocks : List QId := [recvmsgSq, recvmsgRq, recvmsgCq]

/-- A mutex that the thread holds already is never obtained. -/
def lockAll : List QId → List QId → Bool
  | _, [] => true
  | held, q :: todo => if q ∈ held then false else lockAll (q :: held) todo

/-- What the error path leaves on a kio. -/
def Kio.abort (x : Kio) : Kio := { x with qbp := none, state := .failed, errno := ECONNABORTED }

/-- `while (list_size(q))`: everything goes from `q` behind compq's current element. -/
def moveAll (lib : ListLib KioId) (q : QId) : ℕ → Session → Session
  | 0, s => s
  | n + 1, s =>
    match (s.queue q).removeFront lib with
    | (none, _) => s
    | (some k, l) =>
      moveAll lib q n (((s.setQueue q l).setKio k Kio.abort).insertAfter recvmsgCq k)

/-- The error path once the locks are taken. -/
def recvmsgMoves (lib : ListLib KioId) (s : Session) : Session :=
  let s := s.mvrear recvmsgCq
  let s := moveAll lib recvmsgRq (s.queue recvmsgRq).size s
  moveAll lib recvmsgSq (s.queue recvmsgSq).size s

/-- `ktli_disconnect`, called by the error path; `rc` is what the driver's disconnect returned. -/
def disconnect (s : Session) (rc : ℤ) : Session :=
  if s.state ≠ .connected ∧ s.state ≠ .aborted then s
  else if rc = -1 then s
  else { s with state := .draining }

/-! ### The whole function -/

inductive Outcome
  | ret (rc : ℤ) (s : Session)
  /-- The thread waits for a mutex that it holds. -/
  | deadlock (s : Session)
  /-- A null pointer is used. -/
  | crash

def recvmsgErr (lib : ListLib KioId) (s : Session) (discRc : ℤ) : Outcome :=
  let s := disconnect { s with state := .aborted } discRc
  if lockAll [] recvmsgLocks then .ret (-1) (recvmsgMoves lib s) else .deadlock s

/-- **`ktli_recvmsg`**; `alloc` is the kio allocated for an unsolicited message, `discRc` what the
driver's disconnect returns. -/
def recvmsg (lib : ListLib KioId) (s : Session) (e : RecvEnv) (alloc : Option KioId) (discRc : ℤ) :
    Outcome :=
  match recvmsgRead e with
  | none => recvmsgErr lib s discRc
  | some (rc, aseq, msg) =>
    match recvmsgMatch lib s rc aseq alloc with
    | none => .crash
    | some (.tossed, s) => .ret 0 s
    | some (.nomem, s) => recvmsgErr lib s discRc
    | some (.kio k, s) => .ret 0 (recvmsgComplete s k msg)

/-! ### What the match section does -/

/-- A search that is not made leaves `rc` as the driver set it and the current element wherever it
is; what follows is right only in these cases. -/
def MatchOk (lib : ListLib KioId) (s : Session) (rc aseq : ℤ) : Prop :=
  aseq = -1 ∨ 0 < aseq ∨ rc = lib.listExtent ∨ rc = lib.listEmpty ∨
    ∃ p ∈ (s.queue .recvq).currNode, (s.kio p.2).seq = aseq

instance (lib : ListLib KioId) (s : Session) (rc aseq : ℤ) : Decidable (MatchOk lib s rc aseq) :=
  inferInstanceAs (Decidable (_ ∨ _ ∨ _ ∨ _ ∨ ∃ p ∈ (s.queue .recvq).currNode, _))

/-- The kio at position `i` of recvq is taken off it. -/
structure Removed (s : Session) (i : ℕ) (k : KioId) (s' : Session) : Prop where
  node : ∃ n, (s.queue .recvq).items[i]? = some (n, k)
  eq : ∃ l, l.items = (s.queue .recvq).items.eraseIdx i ∧
    s' = ((s.setQueue .recvq l).unqbp k).mvrear .recvq

section Match
variable {lib : ListLib KioId} {s s' : Session} {rc aseq : ℤ} {alloc : Option KioId} {m : Match}

/-- **The match section, case by case.** -/
theorem recvmsgMatch_cases (h : recvmsgMatch lib s rc aseq alloc = some (m, s')) :
    (m = .tossed ∧ (0 < aseq ∨ rc = lib.listExtent ∨ rc = lib.listEmpty) ∧
      ∃ l, l.items = (s.queue .recvq).items ∧ s' = s.setQueue .recvq l) ∨
    (m = .nomem ∧ aseq = -1 ∧ alloc = none ∧ s' = s.setQueue .recvq (s.queue .recvq)) ∨
    (∃ k, m = .kio k ∧ aseq = -1 ∧ alloc = some k ∧
      s' = ((s.setQueue .recvq (s.queue .recvq)).issue k (unsolicitedKio aseq)).mvrear .recvq) ∨
    ∃ i k, m = .kio k ∧ Removed s i k s' ∧ aseq ≠ -1 ∧
      (0 < aseq ∧ (s.kio k).seq = aseq ∨
        aseq ≤ 0 ∧ rc ≠ lib.listExtent ∧ rc ≠ lib.listEmpty ∧
          ∃ n, (s.queue .recvq).currNode = some (n, k)) := by
  unfold recvmsgMatch at h
  by_cases hp : 0 < aseq
  · have hne : aseq ≠ -1 := by omega
    simp only [hp, if_true, hne, false_or, ne_eq, not_false_iff] at h
    obtain ⟨rc', l, ht⟩ : ∃ rc' l, (s.queue .recvq).traverse lib 0
        (fun j => seqmatch aseq (s.kio j)) = (rc', l) := ⟨_, _, rfl⟩
    have hl : l.items = (s.queue .recvq).items := by
      rw [← CList.traverse_items lib (s.queue .recvq) 0 fun j => seqmatch aseq (s.kio j), ht]
    rw [ht] at h
    dsimp only at h
    split_ifs at h with hc
    · obtain ⟨rfl, rfl⟩ : m = .tossed ∧ s' = s.setQueue .recvq l := by simpa [eq_comm] using h
      exact Or.inl ⟨rfl, Or.inl hp, l, hl, rfl⟩
    · -- the search has found a kio, and the cursor is on it
      rw [not_or] at hc
      obtain ⟨o, l', hrem⟩ : ∃ o l', l.removeCurr lib = (o, l') := ⟨_, _, rfl⟩
      obtain ⟨i, n, k, rfl, hhit, hi, hl'⟩ := CList.removeCurr_of_traverse ht hc.1 hc.2 hrem
      rw [hrem] at h
      obtain ⟨rfl, rfl⟩ := by simpa [eq_comm] using h
      exact Or.inr (Or.inr (Or.inr ⟨i, k, rfl, ⟨⟨n, hi⟩, l', hl', rfl⟩, hne,
        Or.inl ⟨hp, (beq_iff_eq.mp hhit).symm⟩⟩))
  · simp only [hp, if_false] at h
    split_ifs at h with hc ha
    · obtain ⟨rfl, rfl⟩ := by simpa [eq_comm] using h
      exact Or.inl ⟨rfl, Or.inr (hc.resolve_left ha), _, rfl, rfl⟩
    · have ha' : aseq = -1 := not_not.mp ha
      cases alloc with
      | none =>
        obtain ⟨rfl, rfl⟩ := by simpa [eq_comm] using h
        exact Or.inr (Or.inl ⟨rfl, ha', rfl, rfl⟩)
      | some k =>
        obtain ⟨rfl, rfl⟩ := by simpa [eq_comm] using h
        exact Or.inr (Or.inr (Or.inl ⟨k, rfl, ha', rfl, rfl⟩))
    · -- no search: the current element goes, whatever it is
      obtain ⟨o, l, hrem⟩ : ∃ o l, (s.queue .recvq).removeCurr lib = (o, l) := ⟨_, _, rfl⟩
      rw [hrem] at h
      cases o with
      | none => simp at h
      | some k =>
        obtain ⟨rfl, rfl⟩ := by simpa [eq_comm] using h
        rw [not_or, not_or] at hc
        obtain ⟨i, n, -, hi, hl⟩ := CList.removeCurr_some hrem
        exact Or.inr (Or.inr (Or.inr ⟨i, k, rfl, ⟨⟨n, hi⟩, l, hl, rfl⟩, hc.1, Or.inr
          ⟨not_lt.mp hp, hc.2.1, hc.2.2, CList.currNode_of_removeCurr hrem⟩⟩))

/-- The section finds nothing to remove only if there was no search and no current element. -/
theorem recvmsgMatch_none (h : recvmsgMatch lib s rc aseq alloc = none) :
    ¬ MatchOk lib s rc aseq := by
  unfold recvmsgMatch at h
  by_cases hp : 0 < aseq
  · have hne : aseq ≠ -1 := by omega
    simp only [hp, if_true, hne, false_or, ne_eq, not_false_iff] at h
    obtain ⟨rc', l, ht⟩ : ∃ rc' l, (s.queue .recvq).traverse lib 0
        (fun j => seqmatch aseq (s.kio j)) = (rc', l) := ⟨_, _, rfl⟩
    rw [ht] at h
    dsimp only at h
    split_ifs at h with hc
    rw [not_or] at hc
    obtain ⟨o, l', hrem⟩ : ∃ o l', l.removeCurr lib = (o, l') := ⟨_, _, rfl⟩
    obtain ⟨i, n, k, rfl, -⟩ := CList.removeCurr_of_traverse ht hc.1 hc.2 hrem
    rw [hrem] at h
    cases h
  · simp only [hp, if_false] at h
    split_ifs at h with hc ha
    · cases alloc <;> cases h
    · obtain ⟨o, l, hrem⟩ : ∃ o l, (s.queue .recvq).removeCurr lib = (o, l) := ⟨_, _, rfl⟩
      rw [hrem] at h
      cases o with
      | some k => cases h
      | none =>
        rw [not_or, not_or] at hc
        have hcur := (CList.removeCurr_none hrem).1
        rintro (h1 | h1 | h1 | h1 | ⟨p, h1, -⟩)
        · exact hc.1 h1
        · exact hp h1
        · exact hc.2.1 h1
        · exact hc.2.2 h1
        · rw [hcur] at h1; cases h1

/-- In the cases that are right, the kio found is the one the message answers. -/
theorem Removed.seq_of_matchOk (hok : MatchOk lib s rc aseq) {k : KioId} (hne : aseq ≠ -1)
    (h : 0 < aseq ∧ (s.kio k).seq = aseq ∨ aseq ≤ 0 ∧ rc ≠ lib.listExtent ∧ rc ≠ lib.listEmpty ∧
      ∃ n, (s.queue .recvq).currNode = some (n, k)) : (s.kio k).seq = aseq := by
  rcases h with ⟨-, h⟩ | ⟨h0, h1, h2, n, hn⟩
  · exact h
  · rcases hok with h3 | h3 | h3 | h3 | ⟨p, hp, hs⟩
    · exact absurd h3 hne
    · omega
    · exact absurd h3 h1
    · exact absurd h3 h2
    · rw [hn] at hp
      obtain rfl := Option.some.inj hp
      exact hs

end Match

/-! ### Which kio a message completes -/

/-- `k` left recvq with the response on it. -/
structure Completed (s s' : Session) (k : KioId) (msg : ℕ) : Prop where
  gone : (s'.queue .recvq).data.count k < (s.queue .recvq).data.count k
  hung : (s'.kio k).recvmsg.kmMsg = some msg
  received : (s'.kio k).state = .received

/-- The function gets to its end, or to the locks of its error path, having completed no kio but one
that waits for this sequence number, and without such a kio recvq is as it was. -/
def AnswersItsRequest (lib : ListLib KioId) (s : Session) (e : RecvEnv) (alloc : Option KioId)
    (discRc : ℤ) : Prop :=
  ∃ s', ((∃ rc, recvmsg lib s e alloc discRc = .ret rc s') ∨
      recvmsg lib s e alloc discRc = .deadlock s') ∧
    (∀ k, Completed s s' k e.msg → (s.kio k).seq = e.aseq) ∧
    ((∀ k ∈ (s.queue .recvq).data, (s.kio k).seq ≠ e.aseq) →
      (s'.queue .recvq).items = (s.queue .recvq).items)

theorem recvmsgRead_eq {e : RecvEnv} {rc aseq : ℤ} {msg : ℕ}
    (h : recvmsgRead e = some (rc, aseq, msg)) : aseq = e.aseq ∧ msg = e.msg := by
  unfold recvmsgRead at h
  dsimp only at h
  split_ifs at h
  simp only [Option.some.injEq, Prod.mk.injEq] at h
  exact ⟨h.2.1.symm, h.2.2.symm⟩

theorem recvmsg_of_match {lib : ListLib KioId} {s s1 : Session} {e : RecvEnv}
    {alloc : Option KioId} {discRc rc aseq : ℤ} {msg : ℕ} {m : Match}
    (hr : recvmsgRead e = some (rc, aseq, msg))
    (hm : recvmsgMatch lib s rc aseq alloc = some (m, s1)) :
    recvmsg lib s e alloc discRc = match m with
      | .tossed => .ret 0 s1
      | .nomem => recvmsgErr lib s1 discRc
      | .kio k => .ret 0 (recvmsgComplete s1 k msg) := by
  unfold recvmsg
  cases m <;> simp only [hr, hm]

@[simp] theorem queue_disconnect (s : Session) (rc : ℤ) : (disconnect s rc).queue = s.queue := by
  unfold disconnect
  split_ifs <;> rfl

@[simp] theorem kio_disconnect (s : Session) (rc : ℤ) : (disconnect s rc).kio = s.kio := by
  unfold disconnect
  split_ifs <;> rfl

/-- **The error path never gets its locks**: the mutex of recvq is to be taken twice. -/
theorem recvmsgErr_eq (lib : ListLib KioId) (s : Session) (discRc : ℤ) :
    recvmsgErr lib s discRc = .deadlock (disconnect { s with state := .aborted } discRc) := rfl

theorem items_recvmsgComplete (s : Session) (k : KioId) (msg : ℕ) {q : QId} (hq : q ≠ .compq) :
    ((recvmsgComplete s k msg).queue q).items = (s.queue q).items := by
  unfold recvmsgComplete
  rw [queue_setKio, items_link, if_neg hq, queue_setKio]

theorem kio_recvmsgComplete (s : Session) (k : KioId) (msg : ℕ) :
    ((recvmsgComplete s k msg).kio k).recvmsg.kmMsg = some msg ∧
      ((recvmsgComplete s k msg).kio k).state = .received := by
  simp [recvmsgComplete, kio_link, Kio.hang]

theorem Removed.items {s s' : Session} {i : ℕ} {k : KioId} (h : Removed s i k s') :
    (s'.queue .recvq).items = (s.queue .recvq).items.eraseIdx i := by
  obtain ⟨l, hl, rfl⟩ := h.eq
  simpa [Session.mvrear, Session.setQueue, Session.unqbp, Session.setKio] using hl

theorem Removed.perm {s s' : Session} {i : ℕ} {k : KioId} (h : Removed s i k s') :
    (s.queue .recvq).data.Perm (k :: (s'.queue .recvq).data) := by
  obtain ⟨n, hn⟩ := h.node
  unfold CList.data
  rw [h.items]
  exact (perm_eraseIdx hn).map Prod.snd

section Answers
variable {lib : ListLib KioId} {s s1 : Session} {e : RecvEnv} {alloc : Option KioId} {discRc : ℤ}

/-- A function that stays on the error path completes nothing. -/
theorem answers_of_err (hq : (s1.queue .recvq).items = (s.queue .recvq).items)
    (hr : recvmsg lib s e alloc discRc = recvmsgErr lib s1 discRc) :
    AnswersItsRequest lib s e alloc discRc := by
  refine ⟨_, Or.inr (hr.trans (recvmsgErr_eq ..)), fun k hk => ?_, fun _ => by simpa using hq⟩
  have h1 := hk.gone
  simp only [queue_disconnect, CList.data, hq, lt_irrefl] at h1

/-- So does one that leaves recvq alone. -/
theorem answers_of_ret {rc : ℤ} (hq : (s1.queue .recvq).items = (s.queue .recvq).items)
    (hr : recvmsg lib s e alloc discRc = .ret rc s1) : AnswersItsRequest lib s e alloc discRc := by
  refine ⟨s1, Or.inl ⟨rc, hr⟩, fun k hk => ?_, fun _ => hq⟩
  have h1 := hk.gone
  simp only [CList.data, hq, lt_irrefl] at h1

/-- The completion takes one kio off recvq. -/
theorem Removed.count_complete {i : ℕ} {k : KioId} (h : Removed s i k s1) (msg : ℕ) (j : KioId) :
    (s.queue .recvq).data.count j =
      ((recvmsgComplete s1 k msg).queue .recvq).data.count j + if k = j then 1 else 0 := by
  rw [h.perm.count_eq, List.count_cons]
  simp [CList.data, items_recvmsgComplete s1 k msg (show QId.recvq ≠ .compq by decide)]

/-- A kio is completed: the property says that it is the right one. -/
theorem answers_iff_of_removed {rc : ℤ} {i : ℕ} {k : KioId} (hrem : Removed s i k s1)
    (hr : recvmsg lib s e alloc discRc = .ret rc (recvmsgComplete s1 k e.msg)) :
    AnswersItsRequest lib s e alloc discRc ↔ (s.kio k).seq = e.aseq := by
  have hcount := hrem.count_complete e.msg
  obtain ⟨hhung, hrecv⟩ := kio_recvmsgComplete s1 k e.msg
  constructor
  · rintro ⟨s', hs', hcomp, -⟩
    obtain rfl : recvmsgComplete s1 k e.msg = s' := by
      rcases hs' with ⟨rc', h⟩ | h
      · rw [hr] at h; cases h; rfl
      · rw [hr] at h; cases h
    refine hcomp k ⟨?_, hhung, hrecv⟩
    have h1 := hcount k
    rw [if_pos rfl] at h1
    omega
  · intro hseq
    refine ⟨_, Or.inl ⟨rc, hr⟩, fun j hj => ?_, fun hno => ?_⟩
    · have h1 := hcount j
      have h2 := hj.gone
      split_ifs at h1 with hkj
      · exact hkj ▸ hseq
      · omega
    · exact absurd hseq (hno k (hrem.perm.mem_iff.mpr (List.mem_cons_self ..)))

/-- The kio found is the one that the message answers exactly in the cases that are right. -/
theorem Removed.matchOk_iff {rc aseq : ℤ} {k : KioId} (hne : aseq ≠ -1)
    (h : 0 < aseq ∧ (s.kio k).seq = aseq ∨ aseq ≤ 0 ∧ rc ≠ lib.listExtent ∧ rc ≠ lib.listEmpty ∧
      ∃ n, (s.queue .recvq).currNode = some (n, k)) :
    (s.kio k).seq = aseq ↔ MatchOk lib s rc aseq := by
  constructor
  · intro hseq
    rcases h with ⟨hp, -⟩ | ⟨-, -, -, n, hn⟩
    · exact Or.inr (Or.inl hp)
    · exact Or.inr (Or.inr (Or.inr (Or.inr ⟨(n, k), hn, hseq⟩)))
  · intro hok
    exact Removed.seq_of_matchOk hok hne h

/-- The condition is about the one message that is read. -/
theorem forall_read_iff {rc : ℤ} (hread : recvmsgRead e = some (rc, e.aseq, e.msg)) :
    (∀ rc' aseq msg, recvmsgRead e = some (rc', aseq, msg) → MatchOk lib s rc' aseq) ↔
      MatchOk lib s rc e.aseq := by
  constructor
  · intro h
    exact h rc e.aseq e.msg hread
  · rintro h rc' aseq msg heq
    rw [hread] at heq
    simp only [Option.some.injEq, Prod.mk.injEq] at heq
    obtain ⟨rfl, rfl, -⟩ := heq
    exact h

end Answers

/-- **Which messages are answered right**: those for which the match section is. -/
theorem answersItsRequest_iff (lib : ListLib KioId) (s : Session) (e : RecvEnv)
    (alloc : Option KioId) (discRc : ℤ) :
    AnswersItsRequest lib s e alloc discRc ↔
      ∀ rc aseq msg, recvmsgRead e = some (rc, aseq, msg) → MatchOk lib s rc aseq := by
  rcases hread : recvmsgRead e with _ | ⟨rc, aseq, msg⟩
  · refine iff_of_true ?_ (by simp)
    exact @answers_of_err lib s s e alloc discRc rfl (by simp [recvmsg, hread])
  obtain ⟨rfl, rfl⟩ := recvmsgRead_eq hread
  rw [← hread, forall_read_iff hread]
  rcases hm : recvmsgMatch lib s rc e.aseq alloc with _ | ⟨m, s1⟩
  · -- nothing to remove: the null element is used
    refine iff_of_false ?_ (recvmsgMatch_none hm)
    rintro ⟨s', h, -⟩
    simp [recvmsg, hread, hm] at h
  have hr := @recvmsg_of_match _ _ _ _ _ discRc _ _ _ _ hread hm
  rcases recvmsgMatch_cases hm with ⟨rfl, hc, l, hl, rfl⟩ | ⟨rfl, ha, rfl, rfl⟩ |
    ⟨k, rfl, ha, rfl, rfl⟩ | ⟨i, k, rfl, hrem, hne, hk⟩
  · refine iff_of_true (answers_of_ret ?_ hr) ?_
    · rw [queue_setQueue_self, hl]
    · rcases hc with hc | hc | hc
      · exact Or.inr (Or.inl hc)
      · exact Or.inr (Or.inr (Or.inl hc))
      · exact Or.inr (Or.inr (Or.inr (Or.inl hc)))
  · refine iff_of_true (answers_of_err ?_ hr) (Or.inl ha)
    rw [queue_setQueue_self]
  · refine iff_of_true (answers_of_ret ?_ hr) (Or.inl ha)
    rw [items_recvmsgComplete _ _ _ (by decide)]
    rw [items_mvrear]
    exact congrArg CList.items (queue_setQueue_self s .recvq _)
  · rw [answers_iff_of_removed hrem hr]
    exact Removed.matchOk_iff hne hk

/-- A connected session in which kio 0, of sequence number 100, waits for its response. -/
def waitingSession : Session :=
  { ({ state := .connected } : Session).link .recvq 0 with
    kio := fun _ => { seq := 100, state := .sent, qbp := some 0 } }

/-- The driver delivers 20 bytes that cannot be unpacked, so that `ki_getaseq` returns 0. -/
def garbledEnv : RecvEnv :=
  { kiovAlloc := true, pduAlloc := true, pduRc := 9, msglen := 20, vallen := 0,
    msgAlloc := fun _ => true, valAlloc := fun _ => true, bodyRc := fun m v => m + v,
    aseq := 0, msg := 7 }

/-- The garbled message completes the waiting kio. -/
theorem garbled_completes_waiting :
    ¬ AnswersItsRequest (ListLib.next KioId) waitingSession garbledEnv none 0 := by
  rintro ⟨s', hs', hcomp, -⟩
  obtain ⟨s1, hr, hc⟩ : ∃ s1, recvmsg (ListLib.next KioId) waitingSession garbledEnv none 0 =
      .ret 0 s1 ∧ Completed waitingSession s1 0 7 := ⟨_, rfl, by decide, by decide, by decide⟩
  rw [hr] at hs'
  rcases hs' with ⟨rc, h⟩ | h
  · obtain ⟨-, rfl⟩ := Outcome.ret.inj h
    exact absurd (hcomp 0 hc) (by decide)
  · cases h

/-! ### The error path -/

/-- Reading the message fails, or the kio of an unsolicited message cannot be allocated. -/
def TakesErrorPath (e : RecvEnv) (alloc : Option KioId) : Prop :=
  recvmsgRead e = none ∨ alloc = none ∧ ∃ rc msg, recvmsgRead e = some (rc, -1, msg)

/-- The function returns with everything failed and on compq, recvq's kios before sendq's, and the
session ready to be drained. -/
def ErrorPathDrains (lib : ListLib KioId) (s : Session) (e : RecvEnv) (alloc : Option KioId)
    (discRc : ℤ) : Prop :=
  ∃ s', recvmsg lib s e alloc discRc = .ret (-1) s' ∧
    (s'.queue .sendq).data = [] ∧ (s'.queue .recvq).data = [] ∧
    (s'.queue .compq).data =
      (s.queue .compq).data ++ (s.queue .recvq).data ++ (s.queue .sendq).data ∧
    (∀ k ∈ (s.queue .recvq).data ++ (s.queue .sendq).data,
      (s'.kio k).state = .failed ∧ (s'.kio k).errno = ECONNABORTED) ∧
    s'.state = .draining

/-- The error path ends at its second lock, with the queues as they were. -/
theorem recvmsg_deadlock {lib : ListLib KioId} {s : Session} {e : RecvEnv} {alloc : Option KioId}
    {discRc : ℤ} (h : TakesErrorPath e alloc) :
    ∃ s', recvmsg lib s e alloc discRc = .deadlock s' ∧
      ∀ q, (s'.queue q).items = (s.queue q).items := by
  rcases h with hread | ⟨rfl, rc, msg, hread⟩
  · refine ⟨disconnect { s with state := .aborted } discRc, ?_, fun q => by simp⟩
    simp only [recvmsg, hread, recvmsgErr_eq]
  · have hm : recvmsgMatch lib s rc (-1) none =
        some (.nomem, s.setQueue .recvq (s.queue .recvq)) := by
      simp [recvmsgMatch]
    refine ⟨_, (recvmsg_of_match hread hm).trans (recvmsgErr_eq ..), fun q => ?_⟩
    simp only [queue_disconnect, queue_setQueue]
    split_ifs with hq
    · rw [hq]
    · rfl

/-- **The error path drains nothing**, whatever is on the queues, wherever the function fails and
whatever the driver's disconnect returns. -/
theorem errorPath_never_drains (lib : ListLib KioId) (s : Session) (e : RecvEnv)
    (alloc : Option KioId) (discRc : ℤ) (h : TakesErrorPath e alloc) :
    (∃ s', recvmsg lib s e alloc discRc = .deadlock s' ∧
      ∀ q, (s'.queue q).items = (s.queue q).items) ∧
    ¬ ErrorPathDrains lib s e alloc discRc := by
  obtain ⟨s', hd, hq⟩ := @recvmsg_deadlock lib s e alloc discRc h
  refine ⟨⟨s', hd, hq⟩, ?_⟩
  rintro ⟨s1, hr, -⟩
  rw [hd] at hr
  cases hr

/-- The driver reports that the connection is gone. -/
def hangupEnv : RecvEnv := { garbledEnv with pduRc := -1 }

theorem hangup_never_drains :
    ¬ ErrorPathDrains (ListLib.next KioId) waitingSession hangupEnv none 0 :=
  (errorPath_never_drains (ListLib.next KioId) waitingSession hangupEnv none 0
    (Or.inl (by decide))).2

/-- After a hangup the thread is stuck; the waiting kio is not failed, and stays on recvq. -/
theorem hangup_keeps_waiting :
    (∃ s', recvmsg (ListLib.next KioId) waitingSession hangupEnv none 0 = .deadlock s' ∧
      (s'.queue .recvq).data = [0] ∧ (s'.kio 0).state = .sent) ∧
    ¬ ErrorPathDrains (ListLib.next KioId) waitingSession hangupEnv none 0 := by
  have hd : recvmsg (ListLib.next KioId) waitingSession hangupEnv none 0 =
    .deadlock (disconnect { waitingSession with state := .aborted } 0) := rfl
  refine ⟨⟨_, hd, by decide, by decide⟩, ?_⟩
  rintro ⟨s', hr, -⟩
  rw [hd] at hr
  cases hr

end Libkinetic.Ktli
