import Libkinetic.Ktli.Socket

/-! # Transfers to and from a stream

What the driver's loop keeps under every schedule of answers, the end of file and failures included,
and when it completes. A socket that is read is a stream: a call takes bytes off its front, and what
it does not take is there for the next one. -/

namespace Libkinetic.Ktli

open Libkinetic.Base.Ints Libkinetic.Base.Scatter

/-! ### Every schedule -/

section Rules
variable {α σ : Type*}

/-- What holds of the other side after any number of bytes, as far as the system call goes. -/
def Advances (call : SysCall α σ) (msg : List Span) (I : ℕ → σ → Prop) : Prop :=
  ∀ moved a iov io, cells iov = (cells msg).drop moved → moved ≤ size msg → I moved io →
    ∃ n io', call iov a io = (n, io') ∧ moved + n ≤ size msg ∧ I (moved + n) io'

/-- **Where a transfer** of `total` bytes has come: what has been moved satisfies the invariant, and
it is everything just if the function has returned the total. -/
inductive Lands (I : ℕ → σ → Prop) (total : ℕ) : Progress α σ → Prop
  | running {moved : ℕ} {x : Xfer σ} (hlt : moved < total ∨ total = 0) (h : I moved x.io) :
      Lands I total (.running x)
  | done {errno : ℤ} {io : σ} {rest : List (Except ℤ α)} (h : I total io) :
      Lands I total (.ended total errno io rest)
  | failed {moved : ℕ} {errno : ℤ} {io : σ} {rest : List (Except ℤ α)}
      (hlt : moved < total ∨ total = 0) (h : I moved io) :
      Lands I total (.ended (-1) errno io rest)

variable {call : SysCall α σ} {msg : List Span} {I : ℕ → σ → Prop} {count : α → ℕ} {moved : ℕ}

/-- **The loop keeps the invariant** under every schedule. -/
theorem transferLoop_lands (hadv : Advances call msg I) (hsize : size msg < 2 ^ 31)
    (answers : List (Except ℤ α)) {x : Xfer σ} (hx : At msg moved x)
    (hlt : moved < size msg ∨ size msg = 0) (hle : moved ≤ size msg) (hI : I moved x.io) :
    Lands I (size msg) (transferLoop call (size msg) x answers) := by
  induction answers generalizing moved x with
  | nil => exact .running hlt hI
  | cons r answers ih =>
    rcases r with e | a
    · rw [transferLoop]
      split_ifs
      · exact ih ⟨hx.rest, hx.curv, hx.tot⟩ hlt hle hI
      · rw [transferEnd, if_pos (by decide)]
        exact .failed hlt hI
    · obtain ⟨n, io', hcall, hn, hI'⟩ := hadv moved a _ _ hx.rest hle hI
      rcases Nat.eq_zero_or_pos n with rfl | hpos
      · rw [transferLoop_zero hcall]
        split_ifs with hretry htot
        · exact ih ⟨hx.rest, hx.curv, hx.tot⟩ hlt hle hI'
        · exact .failed hlt hI'
        · have hall : moved = size msg := by
            rw [hx.tot] at htot
            omega
          rw [hx.tot, hall]
          rw [hall] at hI'
          exact .done hI'
      · obtain ⟨hmore, hlast⟩ :=
          @transferLoop_ok _ _ call (size msg) msg moved n x io' a hx hsize hcall hpos hn
        rcases Nat.lt_or_eq_of_le hn with hless | heq
        · obtain ⟨x', hx', hio', -, hrun⟩ := hmore hless
          rw [hrun]
          rw [← hio'] at hI'
          exact ih hx' (.inl hless) hn hI'
        · rw [hlast heq rfl]
          rw [heq] at hI'
          exact .done hI'

/-- **The function keeps the invariant** under every schedule, whatever it is called with. -/
theorem transfer_lands (hadv : Advances call msg I) (hsize : size msg < 2 ^ 31) (dh alloc : Bool)
    (errno : ℤ) {io : σ} (hI : I 0 io) (answers : List (Except ℤ α)) :
    Lands I (size msg) (transfer call dh alloc msg errno io answers) := by
  have hstart : 0 < size msg ∨ size msg = 0 := (Nat.eq_zero_or_pos _).symm
  unfold transfer
  split_ifs with hargs halloc
  · exact .failed hstart hI
  · rw [vectorLen_eq hsize]
    exact transferLoop_lands hadv hsize answers ⟨rfl, Nat.zero_le _, rfl⟩ hstart
      (Nat.zero_le _) hI
  · exact .failed hstart hI

/-- A call that may move something does. -/
def Gains (call : SysCall α σ) (count : α → ℕ) (msg : List Span) (I : ℕ → σ → Prop) : Prop :=
  ∀ moved a iov io, cells iov = (cells msg).drop moved → moved < size msg → I moved io →
    0 < count a → 0 < (call iov a io).1

/-- **The loop completes** once the schedule has as many successful calls as there are bytes, and
uses no more of them. -/
theorem transferLoop_completes (hadv : Advances call msg I) (hgain : Gains call count msg I)
    (hsize : size msg < 2 ^ 31) (answers : List (Except ℤ α))
    (hok : ∀ r ∈ answers, Benign count r) {x : Xfer σ} (hx : At msg moved x)
    (hlt : moved < size msg) (hI : I moved x.io)
    (henough : size msg ≤ moved + (payloads answers).length) :
    ∃ errno io rest, transferLoop call (size msg) x answers = .ended (size msg) errno io rest ∧
      I (size msg) io ∧ rest <:+ answers ∧
      (payloads answers).length + moved ≤ (payloads rest).length + size msg := by
  induction answers generalizing moved x with
  | nil =>
    have hzero : (payloads ([] : List (Except ℤ α))).length = 0 := rfl
    omega
  | cons r answers ih =>
    have htail : ∀ r ∈ answers, Benign count r := fun r hr => hok r (List.mem_cons_of_mem _ hr)
    have hr := hok r (List.mem_cons_self ..)
    rcases r with e | a
    · have hretry : Retryable e := hr
      rw [payloads_cons_error] at henough ⊢
      obtain ⟨errno, io, rest, hrun, hIo, hsuf, hlen⟩ :=
        ih (x := { x with errno := e }) htail ⟨hx.rest, hx.curv, hx.tot⟩ hlt hI henough
      refine ⟨errno, io, rest, ?_, hIo, hsuf.trans (List.suffix_cons _ _), hlen⟩
      rw [transferLoop, if_pos hretry, hrun]
    · obtain ⟨n, io', hcall, hn, hI'⟩ := hadv moved a _ _ hx.rest hlt.le hI
      have hpos := hgain moved a _ _ hx.rest hlt hI hr
      rw [hcall] at hpos
      rw [payloads_cons_ok, List.length_cons] at henough ⊢
      obtain ⟨hmore, hlast⟩ := @transferLoop_ok _ _ call (size msg) msg moved n x io' a hx hsize
        hcall hpos hn
      rcases Nat.lt_or_eq_of_le hn with hless | heq
      · obtain ⟨x', hx', hio', -, hrun⟩ := hmore hless
        rw [← hio'] at hI'
        dsimp only at hpos
        obtain ⟨errno, io, rest, hrun', hIo, hsuf, hlen⟩ := ih htail hx' hless hI' (by omega)
        refine ⟨errno, io, rest, ?_, hIo, hsuf.trans (List.suffix_cons _ _), by omega⟩
        rw [hrun, hrun']
      · rw [heq] at hI'
        exact ⟨_, io', answers, hlast heq rfl _, hI', List.suffix_cons _ _, by omega⟩

/-- The function completes. -/
theorem transfer_completes (hadv : Advances call msg I) (hgain : Gains call count msg I)
    (hsize : size msg < 2 ^ 31) (errno : ℤ) {io : σ} (hI : I 0 io)
    {answers : List (Except ℤ α)} (hok : ∀ r ∈ answers, Benign count r) (hpos : 0 < size msg)
    (henough : size msg ≤ (payloads answers).length) :
    ∃ errno' io' rest,
      transfer call true true msg errno io answers = .ended (size msg) errno' io' rest ∧
      I (size msg) io' ∧ rest <:+ answers ∧
      (payloads answers).length ≤ (payloads rest).length + size msg := by
  have hmsg : msg ≠ [] := by
    rintro rfl
    exact Nat.lt_irrefl _ hpos
  unfold transfer
  rw [if_neg (by simpa using hmsg), if_neg (by simp), vectorLen_eq hsize]
  exact transferLoop_completes hadv hgain hsize answers hok ⟨rfl, Nat.zero_le _, rfl⟩ hpos hI
    (by rw [Nat.zero_add]; exact henough)

end Rules

/-! ### Writing -/

section Writing
variable {β : Type*} {mem : ℕ → β} {msg : List Span}

/-- What `moved` bytes of the vector are on the wire. -/
def Wrote (mem : ℕ → β) (msg : List Span) (moved : ℕ) (out : List β) : Prop :=
  out = ((cells msg).take moved).map mem

theorem writev_advances (mem : ℕ → β) (msg : List Span) :
    Advances (writev mem) msg (Wrote mem msg) := by
  intro moved n iov out hiov hle hout
  have hlen : (((cells msg).drop moved).take n).length = min n (size msg - moved) := by
    rw [List.length_take, List.length_drop, length_cells]
  unfold writev
  dsimp only
  rw [hiov, hlen]
  refine ⟨_, _, rfl, by omega, ?_⟩
  have hrest : ((cells msg).drop moved).take (size msg - moved) = (cells msg).drop moved :=
    List.take_of_length_le (by rw [List.length_drop, length_cells])
  have hall : ((cells msg).drop moved).take (min n (size msg - moved)) =
      ((cells msg).drop moved).take n := by
    rw [← List.take_take, hrest]
  unfold Wrote at hout ⊢
  rw [hout, ← List.map_append, List.take_add, hall]

theorem writev_gains (mem : ℕ → β) (msg : List Span) :
    Gains (writev mem) id msg (Wrote mem msg) := by
  rintro moved n iov out hiov hlt - hn
  have hpos : 0 < n := hn
  unfold writev
  dsimp only
  rw [hiov, List.length_take, List.length_drop, length_cells]
  omega

end Writing

/-! ### Reading -/

section Reading
variable {β : Type*}

/-- The receiving side: what is on its way, and the memory. -/
structure Incoming (β : Type*) where
  stream : List β
  mem : ℕ → β

/-- `readv` when up to `n` bytes have arrived; at the end of the stream it finds the end of file. -/
def readStream : SysCall ℕ (Incoming β) := fun iov n io =>
  let (k, mem) := readv iov (io.stream.take n) io.mem
  (k, { stream := io.stream.drop k, mem })

/-- What `moved` bytes have been taken off the stream and stored. -/
def Read (msg : List Span) (io : Incoming β) (moved : ℕ) (io' : Incoming β) : Prop :=
  moved ≤ io.stream.length ∧ io'.stream = io.stream.drop moved ∧
    io'.mem = storeAll io.mem (cells msg) (io.stream.take moved)

theorem read_zero (msg : List Span) (io : Incoming β) : Read msg io 0 io :=
  ⟨Nat.zero_le _, rfl, by rw [List.take_zero, storeAll_nil]⟩

theorem readStream_advances (msg : List Span) (io : Incoming β) :
    Advances readStream msg (Read msg io) := by
  rintro moved n iov io' hiov hle ⟨hlen, hstream, hmem⟩
  have hsize : size iov = size msg - moved := by
    rw [← length_cells, hiov, List.length_drop, length_cells]
  set k := ((io'.stream.take n).take (size iov)).length with hk
  have hkle : k = min (size msg - moved) (min n (io.stream.length - moved)) := by
    rw [hk, List.length_take, List.length_take, hstream, List.length_drop, hsize]
  have htake : (io'.stream.take n).take (size iov) = (io.stream.drop moved).take k := by
    rw [hk, hstream]
    simp [List.take_take]
  refine ⟨k, ⟨io'.stream.drop k, storeAll io'.mem (cells iov)
    ((io'.stream.take n).take (size iov))⟩, rfl, by omega, by omega, ?_, ?_⟩
  · dsimp only
    rw [hstream, List.drop_drop]
  · dsimp only
    have hmoved : (io.stream.take moved).length = moved := by
      rw [List.length_take, min_eq_left hlen]
    rw [htake, hmem, hiov, List.take_add, storeAll_append, hmoved]

/-- As long as the stream has the bytes, every call takes some. -/
theorem readStream_gains {msg : List Span} {io : Incoming β} (h : size msg ≤ io.stream.length) :
    Gains readStream id msg (Read msg io) := by
  rintro moved n iov io' hiov hlt ⟨-, hstream, -⟩ hn
  have hpos : 0 < n := hn
  have hsize : size iov = size msg - moved := by
    rw [← length_cells, hiov, List.length_drop, length_cells]
  have hk : (readStream iov n io').1 = ((io'.stream.take n).take (size iov)).length := rfl
  rw [hk, List.length_take, List.length_take, hstream, List.length_drop, hsize]
  omega

end Reading

end Libkinetic.Ktli
