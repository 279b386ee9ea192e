import Libkinetic.Base.Ints
import Libkinetic.Base.Scatter
import Libkinetic.Ktli.Session

/-! # The socket driver

`ktli_socket_send` and `ktli_socket_receive`. Both copy the caller's vector and repeat `writev`, or
`readv`, on what remains of it until nothing does; they differ in the system call alone. A call
moves as many bytes as the socket is ready for, and no more than it is offered. -/

namespace Libkinetic.Ktli

open Libkinetic.Base.Ints Libkinetic.Base.Scatter

/-! ### The loop -/

/-- The errors after which the system call is made again. -/
def Retryable (errno : ℤ) : Prop := errno = EAGAIN ∨ errno = EWOULDBLOCK ∨ errno = EINTR

instance (errno : ℤ) : Decidable (Retryable errno) :=
  inferInstanceAs (Decidable (_ ∨ _ ∨ _))

/-- A successful system call: how many bytes it moves, and what it does to the other side. -/
abbrev SysCall (α σ : Type*) := List Span → α → σ → ℕ × σ

/-- The local variables of the loop, and the other side: `tot` is `tbw` or `tbr`. -/
structure Xfer (σ : Type*) where
  iov : List Span
  curv : ℕ := 0
  tot : ℤ := 0
  errno : ℤ
  io : σ

/-- Where a schedule of answers leads: the loop goes on, or the function has returned and the rest of
the schedule is not used. -/
inductive Progress (α σ : Type*)
  | running (x : Xfer σ)
  | ended (rc errno : ℤ) (io : σ) (rest : List (Except ℤ α))

/-- The loop over the vectors that are consumed whole, from the current one on. -/
def consume : List Span → ℕ → ℕ → ℕ × ℕ
  | [], curv, b => (curv, b)
  | v :: l, curv, b => if v.len ≤ b then consume l (curv + 1) (b - v.len) else (curv, b)

/-- After the loop. -/
def transferEnd {α σ : Type*} (len : ℤ) (b tot errno : ℤ) (io : σ) (rest : List (Except ℤ α)) :
    Progress α σ :=
  if b < 0 then .ended (-1) errno io rest
  else if tot ≠ len then .ended (-1) ECOMM io rest
  else .ended tot errno io rest

/-- The loop. An answer is the `errno` of a failure, or what the call can move. -/
def transferLoop {α σ : Type*} (call : SysCall α σ) (len : ℤ) :
    Xfer σ → List (Except ℤ α) → Progress α σ
  | x, [] => .running x
  | x, .error e :: rest =>
    if Retryable e then transferLoop call len { x with errno := e } rest
    else transferEnd len (-1) x.tot e x.io rest
  | x, .ok a :: rest =>
    let (n, io) := call (x.iov.drop x.curv) a x.io
    let b := toInt n
    if b ≤ 0 then
      -- a call that succeeds leaves `errno` as it was
      if Retryable x.errno then transferLoop call len { x with io } rest
      else transferEnd len b x.tot x.errno io rest
    else
      let tot := toInt (x.tot + b)
      let (curv, b) := consume (x.iov.drop x.curv) x.curv b.toNat
      if curv = x.iov.length then transferEnd len b tot x.errno io rest
      else
        transferLoop call len
          { x with iov := x.iov.modify curv fun v => v.drop b, curv, tot, io } rest

/-- `len`, added up in an `int`. -/
def vectorLen (msg : List Span) : ℤ := msg.foldl (fun len v => toInt (len + v.len)) 0

/-- The whole function, without its system call: `dh` is whether there is a handle, and `alloc`
whether the copy of the vector could be allocated. -/
def transfer {α σ : Type*} (call : SysCall α σ) (dh alloc : Bool) (msg : List Span) (errno : ℤ)
    (io : σ) (answers : List (Except ℤ α)) : Progress α σ :=
  if ¬ dh ∨ msg = [] then .ended (-1) (-EINVAL) io answers
  else if ¬ alloc then .ended (-1) ENOMEM io answers
  else transferLoop call (vectorLen msg) { iov := msg, errno, io } answers

/-- `writev` on a socket that takes up to `n` bytes, which are added to what was written. -/
def writev {β : Type*} (mem : ℕ → β) : SysCall ℕ (List β) := fun iov n written =>
  let cs := (cells iov).take n
  (cs.length, written ++ cs.map mem)

/-- `readv` on a socket that holds `data`; no data is the end of file. -/
def readv {β : Type*} : SysCall (List β) (ℕ → β) := fun iov data mem =>
  let data := data.take (size iov)
  (data.length, storeAll mem (cells iov) data)

/-- `ktli_socket_send`, from the memory `mem`. -/
def ktliSocketSend {β : Type*} (mem : ℕ → β) (dh alloc : Bool) (msg : List Span) (errno : ℤ) :
    List (Except ℤ ℕ) → Progress ℕ (List β) :=
  transfer (writev mem) dh alloc msg errno []

/-- `ktli_socket_receive`, into the memory `mem`. -/
def ktliSocketReceive {β : Type*} (mem : ℕ → β) (dh alloc : Bool) (msg : List Span) (errno : ℤ) :
    List (Except ℤ (List β)) → Progress (List β) (ℕ → β) :=
  transfer readv dh alloc msg errno mem

/-! ### What the loop does with an answer -/

section Loop
variable {α σ : Type*}

/-- **The inner loop** stops at the span in which the transfer ended. -/
theorem consume_spec (l : List Span) (curv b : ℕ) : ∃ k left, consume l curv b = (curv + k, left) ∧
    ((k = l.length ∧ advance l b = []) ∨
      ∃ v l', l.drop k = v :: l' ∧ advance l b = v.drop left :: l') := by
  induction l generalizing curv b with
  | nil => exact ⟨0, b, rfl, .inl ⟨rfl, rfl⟩⟩
  | cons v l ih =>
    unfold consume advance
    split_ifs with hv
    · obtain ⟨k, left, heq, hk⟩ := ih (curv + 1) (b - v.len)
      refine ⟨k + 1, left, by rw [heq]; congr 1; omega, ?_⟩
      rcases hk with ⟨rfl, hnil⟩ | hsplit
      · exact .inl ⟨rfl, hnil⟩
      · exact .inr hsplit
    · exact ⟨0, b, rfl, .inr ⟨v, l, rfl, rfl⟩⟩

/-- The copy of the vector after `moved` bytes. -/
structure At (msg : List Span) (moved : ℕ) (x : Xfer σ) : Prop where
  rest : cells (x.iov.drop x.curv) = (cells msg).drop moved
  curv : x.curv ≤ x.iov.length
  tot : x.tot = moved

variable {call : SysCall α σ} {len : ℤ} {msg : List Span} {moved n : ℕ} {x : Xfer σ} {io : σ} {a : α}

/-- The vector after a partial transfer. -/
theorem drop_modify_curv {l l' : List Span} {v : Span} {i : ℕ} (f : Span → Span)
    (h : l.drop i = v :: l') : (l.modify i f).drop i = f v :: l' := by
  rw [List.drop_modify_of_ge f i i l (Nat.le_refl i), h, Nat.sub_self]
  rfl

/-- **An answer that moves something**: what remains of the vector is transferred next. -/
theorem transferLoop_ok (hx : At msg moved x) (hsize : size msg < 2 ^ 31)
    (hcall : call (x.iov.drop x.curv) a x.io = (n, io)) (hn : 0 < n) (hle : moved + n ≤ size msg) :
    (moved + n < size msg → ∃ x', At msg (moved + n) x' ∧ x'.io = io ∧ x'.errno = x.errno ∧
      ∀ rest, transferLoop call len x (.ok a :: rest) = transferLoop call len x' rest) ∧
    (moved + n = size msg → len = size msg →
      ∀ rest, transferLoop call len x (.ok a :: rest) = .ended (size msg) x.errno io rest) := by
  obtain ⟨k, left, hconsume, hk⟩ := consume_spec (x.iov.drop x.curv) x.curv n
  have hint : toInt n = n := toInt_natCast (by omega)
  have htot : toInt (x.tot + n) = (moved + n : ℕ) := by
    rw [hx.tot, ← Nat.cast_add]
    exact toInt_natCast (by omega)
  have hpos : ¬ (n : ℤ) ≤ 0 := by omega
  have hstep : ∀ rest, transferLoop call len x (.ok a :: rest) =
      if x.curv + k = x.iov.length then transferEnd len left (moved + n : ℕ) x.errno io rest
      else transferLoop call len { x with
        iov := x.iov.modify (x.curv + k) fun v => v.drop left
        curv := x.curv + k, tot := (moved + n : ℕ), io } rest := by
    intro rest
    rw [transferLoop, hcall]
    dsimp only
    rw [hint, if_neg hpos, htot, Int.toNat_natCast, hconsume]
  have hremain : size (x.iov.drop x.curv) = size msg - moved := by
    rw [← length_cells, hx.rest, List.length_drop, length_cells]
  have hlen : (x.iov.drop x.curv).length = x.iov.length - x.curv := List.length_drop
  have hcurv := hx.curv
  constructor
  · intro hlt
    rcases hk with ⟨rfl, hnil⟩ | ⟨v, l', hsplit, hadv⟩
    · rw [advance_eq_nil_iff] at hnil
      omega
    have hk' : x.curv + k < x.iov.length := by
      have hne : (x.iov.drop x.curv).drop k ≠ [] := by
        rw [hsplit]
        exact List.cons_ne_nil _ _
      rw [Ne, List.drop_eq_nil_iff] at hne
      omega
    refine ⟨{ x with
      iov := x.iov.modify (x.curv + k) fun v => v.drop left
      curv := x.curv + k, tot := (moved + n : ℕ), io }, ⟨?_, ?_, rfl⟩, rfl, rfl,
      fun rest => by rw [hstep, if_neg (by omega)]⟩
    · rw [List.drop_drop] at hsplit
      rw [drop_modify_curv _ hsplit, ← hadv, cells_advance, hx.rest, List.drop_drop]
    · dsimp only
      rw [List.length_modify]
      omega
  · intro heq hl rest
    have hnil : advance (x.iov.drop x.curv) n = [] := by
      rw [advance_eq_nil_iff]
      omega
    rcases hk with ⟨rfl, -⟩ | ⟨v, l', -, hadv⟩
    · rw [hstep, if_pos (by omega), transferEnd, if_neg (by omega), if_neg, heq]
      rw [heq, hl]
      exact fun h => h rfl
    · rw [hadv] at hnil
      cases hnil

end Loop

/-! ### A schedule of answers -/

section Schedules
variable {α σ : Type*}

/-- The loop goes on after this answer: it moves something, or the call is made again. -/
def Benign (count : α → ℕ) : Except ℤ α → Prop
  | .ok a => 0 < count a
  | .error e => Retryable e

/-- What the successful calls had to move. -/
def payloads (answers : List (Except ℤ α)) : List α := answers.filterMap Except.toOption

/-- How much that is. -/
def counted (count : α → ℕ) (as : List α) : ℕ := (as.map count).sum

/-- `errno` after a schedule: only a call that fails sets it. -/
def errnoAfter : ℤ → List (Except ℤ α) → ℤ
  | errno, [] => errno
  | _, .error e :: answers => errnoAfter e answers
  | errno, .ok _ :: answers => errnoAfter errno answers

variable {count : α → ℕ} {call : SysCall α σ} {len : ℤ} {msg : List Span} {after : List α → σ}

@[simp] theorem payloads_cons_ok (a : α) (answers : List (Except ℤ α)) :
    payloads (.ok a :: answers) = a :: payloads answers := rfl

@[simp] theorem payloads_cons_error (e : ℤ) (answers : List (Except ℤ α)) :
    payloads (.error e :: answers) = payloads answers := rfl

theorem counted_append (as bs : List α) :
    counted count (as ++ bs) = counted count as + counted count bs := by
  unfold counted
  rw [List.map_append, List.sum_append]

theorem counted_concat (as : List α) (a : α) :
    counted count (as ++ [a]) = counted count as + count a := counted_append as [a]

/-- The system call moves what it can of the rest of the vector, and `after` is what the other side
has become once payloads have been moved. -/
def Serves (call : SysCall α σ) (count : α → ℕ) (msg : List Span) (after : List α → σ) : Prop :=
  ∀ as a iov, cells iov = (cells msg).drop (counted count as) → counted count as ≤ size msg →
    call iov a (after as) = (min (count a) (size msg - counted count as), after (as ++ [a]))

/-- **A schedule that leaves something to move**: the loop goes on, and has moved what the calls
had to move. -/
theorem transferLoop_run (hs : Serves call count msg after) (hsize : size msg < 2 ^ 31)
    (pre : List (Except ℤ α)) (hpre : ∀ r ∈ pre, Benign count r) (as : List α) (x : Xfer σ)
    (hx : At msg (counted count as) x) (hio : x.io = after as)
    (hlt : counted count (as ++ payloads pre) < size msg) :
    ∃ x', At msg (counted count (as ++ payloads pre)) x' ∧ x'.io = after (as ++ payloads pre) ∧
      x'.errno = errnoAfter x.errno pre ∧
      ∀ rest, transferLoop call len x (pre ++ rest) = transferLoop call len x' rest := by
  induction pre generalizing as x with
  | nil =>
    have hnil : as ++ payloads ([] : List (Except ℤ α)) = as := List.append_nil as
    rw [hnil]
    exact ⟨x, hx, hio, rfl, fun _ => rfl⟩
  | cons r pre ih =>
    have htail : ∀ r ∈ pre, Benign count r := fun r hr => hpre r (List.mem_cons_of_mem _ hr)
    have hr := hpre r (List.mem_cons_self ..)
    rcases r with e | a
    · rw [payloads_cons_error] at hlt ⊢
      obtain ⟨x', hx', hio', herr, hrun⟩ := ih htail as { x with errno := e }
        ⟨hx.rest, hx.curv, hx.tot⟩ hio hlt
      have hretry : Retryable e := hr
      refine ⟨x', hx', hio', herr, fun rest => ?_⟩
      rw [List.cons_append, transferLoop, if_pos hretry, hrun]
    · have hassoc : as ++ payloads (.ok a :: pre) = as ++ [a] ++ payloads pre := by
        rw [payloads_cons_ok, List.append_assoc, List.singleton_append]
      rw [hassoc] at hlt ⊢
      have hfirst : counted count (as ++ [a]) < size msg := by
        rw [counted_append] at hlt
        omega
      rw [counted_concat] at hfirst
      have hcall := hs as a _ hx.rest (by omega)
      rw [← hio, min_eq_left (by omega)] at hcall
      obtain ⟨x1, hx1, hio1, herr1, hrun1⟩ :=
        (transferLoop_ok hx hsize hcall hr (by omega)).1 (by omega)
      rw [← counted_concat] at hx1
      obtain ⟨x', hx', hio', herr, hrun⟩ := ih htail (as ++ [a]) x1 hx1 hio1 hlt
      refine ⟨x', hx', hio', by rw [herr, herr1]; rfl, fun rest => ?_⟩
      rw [List.cons_append, hrun1, hrun]

/-- **The end of a transfer**, by the answer after a schedule that leaves something to move. -/
theorem transferLoop_last (hs : Serves call count msg after) (hsize : size msg < 2 ^ 31)
    {as : List α} {x : Xfer σ} (hx : At msg (counted count as) x) (hio : x.io = after as)
    (hlt : counted count as < size msg) {a : α} (hall : size msg ≤ counted count (as ++ [a]))
    (rest : List (Except ℤ α)) : transferLoop call (size msg) x (.ok a :: rest) =
      .ended (size msg) x.errno (after (as ++ [a])) rest := by
  rw [counted_concat] at hall
  have hcall := hs as a _ hx.rest (by omega)
  rw [← hio, min_eq_right (by omega)] at hcall
  exact (transferLoop_ok hx hsize hcall (by omega) (by omega)).2 (by omega) rfl rest

/-- The total length is computed without overflow. -/
theorem vectorLen_eq (h : size msg < 2 ^ 31) : vectorLen msg = size msg := by
  have hfold : ∀ (l : List Span) (n : ℕ), n + size l < 2 ^ 31 →
      l.foldl (fun (len : ℤ) v => toInt (len + v.len)) n = (n + size l : ℕ) := by
    intro l
    induction l with
    | nil => exact fun n _ => rfl
    | cons v l ih =>
      intro n hn
      rw [size_cons] at hn
      rw [List.foldl_cons, ← Nat.cast_add, toInt_natCast (by omega), ih _ (by omega), size_cons,
        Nat.add_assoc]
  have hall := hfold msg 0 (by omega)
  rw [Nat.zero_add] at hall
  exact hall

/-- **A transfer of `total` bytes**, under every schedule of answers: while something is left to
move the function goes on; it returns `total` with the answer that moves the last byte, and -1 with
an answer that is an error of another kind. `after` is what the other side has become. -/
structure Delivers (run : List (Except ℤ α) → Progress α σ) (count : α → ℕ) (errno : ℤ) (total : ℕ)
    (after : List α → σ) : Prop where
  going : ∀ pre, (∀ r ∈ pre, Benign count r) → counted count (payloads pre) < total →
    ∃ x, run pre = .running x ∧ x.io = after (payloads pre) ∧ x.errno = errnoAfter errno pre
  done : ∀ pre a rest, (∀ r ∈ pre, Benign count r) → counted count (payloads pre) < total →
    total ≤ counted count (payloads pre ++ [a]) →
      run (pre ++ .ok a :: rest) =
        .ended total (errnoAfter errno pre) (after (payloads pre ++ [a])) rest
  failed : ∀ pre e rest, (∀ r ∈ pre, Benign count r) → counted count (payloads pre) < total →
    ¬ Retryable e → run (pre ++ .error e :: rest) = .ended (-1) e (after (payloads pre)) rest

/-- The loop begins at the front of the vector. -/
theorem transfer_run (hs : Serves call count msg after) (hsize : size msg < 2 ^ 31) (errno : ℤ)
    (pre : List (Except ℤ α)) (hpre : ∀ r ∈ pre, Benign count r)
    (hlt : counted count (payloads pre) < size msg) :
    ∃ x, At msg (counted count (payloads pre)) x ∧ x.io = after (payloads pre) ∧
      x.errno = errnoAfter errno pre ∧ ∀ rest,
        transfer call true true msg errno (after []) (pre ++ rest) =
          transferLoop call (size msg) x rest := by
  have hmsg : msg ≠ [] := by
    rintro rfl
    exact Nat.not_lt_zero _ hlt
  have hstart : At msg (counted count ([] : List α)) { iov := msg, errno, io := after [] } :=
    ⟨rfl, Nat.zero_le _, rfl⟩
  obtain ⟨x, hx, hio, herr, hrun⟩ := transferLoop_run hs hsize pre hpre [] _ hstart rfl hlt
  refine ⟨x, hx, hio, herr, fun rest => ?_⟩
  unfold transfer
  rw [if_neg (by simpa using hmsg), if_neg (by simp), vectorLen_eq hsize, hrun]

/-- **The loop delivers**, for a system call that does its part. -/
theorem transfer_delivers (hs : Serves call count msg after) (hsize : size msg < 2 ^ 31)
    (errno : ℤ) :
    Delivers (transfer call true true msg errno (after [])) count errno (size msg) after where
  going pre hpre hlt := by
    obtain ⟨x, -, hio, herr, hrun⟩ := transfer_run hs hsize errno pre hpre hlt
    have hend := hrun []
    rw [List.append_nil, transferLoop] at hend
    exact ⟨x, hend, hio, herr⟩
  done pre a rest hpre hlt hall := by
    obtain ⟨x, hx, hio, herr, hrun⟩ := transfer_run hs hsize errno pre hpre hlt
    rw [hrun, transferLoop_last hs hsize hx hio hlt hall, herr]
  failed pre e rest hpre hlt he := by
    obtain ⟨x, -, hio, -, hrun⟩ := transfer_run hs hsize errno pre hpre hlt
    rw [hrun, transferLoop, if_neg he, transferEnd, if_pos (by decide), hio]

end Schedules

/-! ### The two functions -/

section Driver
variable {β : Type*} {mem : ℕ → β} {msg : List Span}

/-- The bytes written once `ns` have been taken. -/
def written (mem : ℕ → β) (msg : List Span) (ns : List ℕ) : List β :=
  ((cells msg).take ns.sum).map mem

/-- The memory once the socket has delivered `ds`. -/
def filled (mem : ℕ → β) (msg : List Span) (ds : List (List β)) : ℕ → β :=
  storeAll mem (cells msg) ds.flatten

theorem filled_nil (mem : ℕ → β) (msg : List Span) : filled mem msg [] = mem := storeAll_nil mem _

theorem counted_id (ns : List ℕ) : counted id ns = ns.sum := by
  unfold counted
  rw [List.map_id]

theorem counted_length (ds : List (List β)) : counted List.length ds = ds.flatten.length :=
  List.length_flatten.symm

theorem writev_serves (mem : ℕ → β) (msg : List Span) :
    Serves (writev mem) id msg (written mem msg) := by
  intro ns n iov hiov hle
  rw [counted_id] at hiov hle ⊢
  have hlen : (((cells msg).drop ns.sum).take n).length = min n (size msg - ns.sum) := by
    rw [List.length_take, List.length_drop, length_cells]
  unfold writev written
  dsimp only
  rw [hiov, hlen, ← List.map_append, ← List.take_add, List.sum_append, List.sum_singleton]
  rfl

theorem readv_serves (mem : ℕ → β) (msg : List Span) :
    Serves readv List.length msg (filled mem msg) := by
  intro ds d iov hiov hle
  rw [counted_length] at hiov hle ⊢
  have hsize : size iov = size msg - ds.flatten.length := by
    rw [← length_cells, hiov, List.length_drop, length_cells]
  have hcells : (cells iov).length = size msg - ds.flatten.length := by
    rw [length_cells, hsize]
  unfold readv filled
  dsimp only
  rw [List.length_take, hsize, min_comm, ← hcells, storeAll_take, hiov, List.flatten_append,
    List.flatten_singleton, storeAll_append]

/-- **The driver moves every byte once, in order**, whatever the fragments are and however the
socket splits the transfer: what is written is the fragments one after the other, and what is read
fills them one after the other. -/
theorem socket_delivers (mem : ℕ → β) (msg : List Span) (hsize : size msg ≤ 2 ^ 31 - 1)
    (errno : ℤ) :
    (Delivers (ktliSocketSend mem true true msg errno) id errno (size msg) (written mem msg) ∧
      ∀ ns, written mem msg ns <+: (cells msg).map mem ∧
        (size msg ≤ ns.sum → written mem msg ns = (cells msg).map mem)) ∧
    (Delivers (ktliSocketReceive mem true true msg errno) List.length errno (size msg)
        (filled mem msg) ∧
      ∀ ds, (∀ a ∉ cells msg, filled mem msg ds a = mem a) ∧
        ((cells msg).Nodup → size msg ≤ ds.flatten.length →
          (cells msg).map (filled mem msg ds) = ds.flatten.take (size msg))) := by
  have hlt : size msg < 2 ^ 31 := by omega
  have hreceive := transfer_delivers (readv_serves mem msg) hlt errno
  rw [filled_nil] at hreceive
  refine ⟨⟨transfer_delivers (writev_serves mem msg) hlt errno, fun ns => ⟨?_, fun hall => ?_⟩⟩,
    hreceive, fun ds => ⟨?_, fun hn hall => ?_⟩⟩
  · exact (List.take_prefix _ _).map mem
  · unfold written
    rw [List.take_of_length_le (by rw [length_cells]; exact hall)]
  · exact fun a ha => storeAll_of_notMem ha
  · rw [← length_cells] at hall ⊢
    exact map_storeAll hn hall

/-- Two pieces with an empty one between them; the socket is busy once. -/
theorem three_fragments_sent :
    ktliSocketSend id true true [⟨10, 3⟩, ⟨0, 0⟩, ⟨20, 2⟩] 0 [.ok 3, .error EAGAIN, .ok 7] =
      .ended 5 EAGAIN [10, 11, 12, 20, 21] [] := by
  have hpre : ∀ r ∈ [(.ok 3 : Except ℤ ℕ), .error EAGAIN], Benign id r := by
    intro r hr
    rcases List.mem_pair.mp hr with rfl | rfl
    · exact Nat.succ_pos 2
    · exact .inl rfl
  exact (socket_delivers id [⟨10, 3⟩, ⟨0, 0⟩, ⟨20, 2⟩] (by decide) 0).1.1.done
    [.ok 3, .error EAGAIN] 7 [] hpre (by decide) (by decide)

end Driver

/-! ### The end of file -/

section EndOfFile
variable {α σ : Type*} {call : SysCall α σ} {len : ℤ} {x : Xfer σ} {io : σ} {a : α}

/-- **A call that moves nothing** is made again if an earlier failure left its `errno` behind. -/
theorem transferLoop_zero (hcall : call (x.iov.drop x.curv) a x.io = (0, io))
    (rest : List (Except ℤ α)) : transferLoop call len x (.ok a :: rest) =
      if Retryable x.errno then transferLoop call len { x with io } rest
      else if x.tot ≠ len then .ended (-1) ECOMM io rest else .ended x.tot x.errno io rest := by
  have hzero : toInt ((0 : ℕ) : ℤ) = 0 := rfl
  rw [transferLoop, hcall]
  dsimp only
  rw [hzero, if_pos (Int.le_refl 0), transferEnd, if_neg (Int.lt_irrefl 0)]

/-- A loop that ends has used an answer. -/
theorem length_rest_lt {answers rest : List (Except ℤ α)} {rc errno : ℤ}
    (h : transferLoop call len x answers = .ended rc errno io rest) :
    rest.length < answers.length := by
  have hend : ∀ {b tot e : ℤ} {io' : σ} {rest' : List (Except ℤ α)},
      transferEnd len b tot e io' rest' = .ended rc errno io rest → rest' = rest := by
    intro b tot e io' rest' h
    unfold transferEnd at h
    split_ifs at h <;> exact (Progress.ended.inj h).2.2.2
  induction answers generalizing x with
  | nil => cases h
  | cons r answers ih =>
    rw [List.length_cons]
    rcases r with e | a
    · rw [transferLoop] at h
      split_ifs at h
      · exact Nat.lt_succ_of_lt (ih h)
      · rw [hend h]
        omega
    · rw [transferLoop] at h
      dsimp only at h
      split_ifs at h
      · exact Nat.lt_succ_of_lt (ih h)
      · rw [hend h]
        omega
      · rw [hend h]
        omega
      · exact Nat.lt_succ_of_lt (ih h)

variable {count : α → ℕ}

/-- `errno` is one to retry on if it was so from the beginning, or a call has failed. -/
theorem retryable_errnoAfter (errno : ℤ) (pre : List (Except ℤ α))
    (hpre : ∀ r ∈ pre, Benign count r) :
    Retryable (errnoAfter errno pre) ↔ Retryable errno ∨ ∃ e, .error e ∈ pre := by
  induction pre generalizing errno with
  | nil => simp [errnoAfter]
  | cons r pre ih =>
    have htail := fun errno => ih errno fun r hr => hpre r (List.mem_cons_of_mem _ hr)
    rcases r with e | a
    · have he : Retryable e := hpre (.error e) (List.mem_cons_self ..)
      rw [errnoAfter, htail]
      exact ⟨fun _ => .inr ⟨e, List.mem_cons_self ..⟩, fun _ => .inl he⟩
    · rw [errnoAfter, htail]
      simp

end EndOfFile

section Receive
variable {β : Type*} {mem : ℕ → β} {msg : List Span} {errno : ℤ} {pre : List (Except ℤ (List β))}

theorem readv_nil (iov : List Span) (mem : ℕ → β) : readv iov [] mem = (0, mem) := by
  unfold readv
  dsimp only
  rw [List.take_nil, storeAll_nil]
  rfl

/-- What the end of file does while bytes are outstanding. -/
theorem receive_eof (hsize : size msg < 2 ^ 31) (hpre : ∀ r ∈ pre, Benign List.length r)
    (hlt : counted List.length (payloads pre) < size msg) (rest : List (Except ℤ (List β))) :
    ∃ x, ktliSocketReceive mem true true msg errno pre = .running x ∧
      ktliSocketReceive mem true true msg errno (pre ++ .ok [] :: rest) =
        if Retryable (errnoAfter errno pre) then transferLoop readv (size msg) x rest
        else .ended (-1) ECOMM x.io rest := by
  obtain ⟨x, hx, hio, herr, hrun⟩ :=
    transfer_run (readv_serves mem msg) hsize errno pre hpre hlt
  rw [filled_nil] at hrun
  have hcall : readv (x.iov.drop x.curv) [] x.io = (0, x.io) := readv_nil _ _
  have hshort : x.tot ≠ size msg := by
    rw [hx.tot]
    omega
  refine ⟨x, ?_, ?_⟩
  · have hnow := hrun []
    rw [List.append_nil, transferLoop] at hnow
    exact hnow
  · unfold ktliSocketReceive
    rw [hrun, transferLoop_zero hcall, if_pos hshort, ← herr]

/-- An end of file that is not noticed is met again for ever. -/
theorem receive_spins (hsize : size msg < 2 ^ 31) (hpre : ∀ r ∈ pre, Benign List.length r)
    (hlt : counted List.length (payloads pre) < size msg)
    (hretry : Retryable (errnoAfter errno pre)) (n : ℕ) :
    ∃ x, ktliSocketReceive mem true true msg errno (pre ++ List.replicate n (.ok [])) =
      .running x := by
  obtain ⟨x, -, -, herr, hrun⟩ := transfer_run (readv_serves mem msg) hsize errno pre hpre hlt
  rw [filled_nil] at hrun
  refine ⟨x, ?_⟩
  unfold ktliSocketReceive
  rw [hrun]
  have hcall : readv (x.iov.drop x.curv) [] x.io = (0, x.io) := readv_nil _ _
  induction n with
  | zero => rfl
  | succ n ih =>
    rw [List.replicate_succ, transferLoop_zero hcall, if_pos (herr ▸ hretry)]
    exact ih

/-- **The end of file is noticed** just when no call of this receive has failed before, and the
caller's `errno` is not one to retry on either. -/
theorem receive_stops_iff (mem : ℕ → β) (msg : List Span) (hsize : size msg < 2 ^ 31) (errno : ℤ)
    (pre rest : List (Except ℤ (List β))) (hpre : ∀ r ∈ pre, Benign List.length r)
    (hlt : counted List.length (payloads pre) < size msg) :
    (∃ e mem', ktliSocketReceive mem true true msg errno (pre ++ .ok [] :: rest) =
        .ended (-1) e mem' rest) ↔
      ¬ Retryable errno ∧ ∀ e, .error e ∉ pre := by
  obtain ⟨x, -, heof⟩ := @receive_eof _ mem msg errno pre hsize hpre hlt rest
  rw [← not_exists, ← not_or, ← retryable_errnoAfter errno pre hpre, heof]
  constructor
  · rintro ⟨e, mem', hend⟩ hretry
    rw [if_pos hretry] at hend
    exact Nat.lt_irrefl _ (length_rest_lt hend)
  · intro hretry
    exact ⟨ECOMM, x.io, if_neg hretry⟩

theorem two_bytes_and_eof :
    (∃ e mem', ktliSocketReceive (fun _ => 0) true true [⟨8, 4⟩] 0 ([.ok [1, 2]] ++ .ok [] :: []) =
        .ended (-1) e mem' []) ↔
      ¬ Retryable 0 ∧ ∀ e, (.error e : Except ℤ (List ℕ)) ∉ [.ok [1, 2]] :=
  receive_stops_iff (fun _ => 0) [⟨8, 4⟩] (by decide) 0 [.ok [1, 2]] [] (by simp [Benign])
    (by decide)

/-- The socket was not ready at first, and then it was closed. -/
theorem eof_after_eagain :
    (¬ ∃ e mem', ktliSocketReceive (fun _ => 0) true true [⟨8, 4⟩] 0 [.error EAGAIN, .ok []] =
        .ended (-1) e mem' []) ∧
      ∀ n, ∃ x, ktliSocketReceive (fun _ => 0) true true [⟨8, 4⟩] 0
        ([.error EAGAIN] ++ List.replicate n (.ok ([] : List ℕ))) = .running x := by
  have hpre : ∀ r ∈ [(.error EAGAIN : Except ℤ (List ℕ))], Benign List.length r := by
    intro r hr
    obtain rfl := List.mem_singleton.mp hr
    exact .inl rfl
  have hspin := @receive_spins _ (fun _ => 0) [⟨8, 4⟩] 0 [.error EAGAIN] (by decide) hpre (by decide)
    (.inl rfl)
  refine ⟨?_, hspin⟩
  rintro ⟨e, mem', hend⟩
  obtain ⟨x, hx⟩ := hspin 1
  rw [show [(.error EAGAIN : Except ℤ (List ℕ))] ++ List.replicate 1 (.ok []) =
    [.error EAGAIN, .ok []] from rfl, hend] at hx
  cases hx

end Receive

end Libkinetic.Ktli
