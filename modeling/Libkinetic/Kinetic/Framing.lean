import Libkinetic.Base.Framing
import Libkinetic.Kinetic.Helpers
import Libkinetic.Ktli.Stream

/-! # Messages in a stream

A message goes out as one vector: the PDU, the packed message and the value. `ktli_recvmsg` reads it
in two parts, the PDU into a buffer of its own, and then what the PDU announces. Nothing but the
lengths in the PDU marks where a message ends. -/

namespace Libkinetic.Kinetic.Framing

open Libkinetic.Base.Framing Libkinetic.Base.Ints Libkinetic.Base.Scatter Libkinetic.Ktli
open Libkinetic.Kinetic.Wire

/-! ### Frames -/

/-- The bytes of a message, with the lengths that its PDU states. -/
structure Frame where
  pdu : List Byte
  msg : List Byte
  val : List Byte
  pdu_length : pdu.length = kpPlength
  msg_length : msg.length = (unpackPdu pdu).kpMsglen
  val_length : val.length = (unpackPdu pdu).kpVallen
  msg_ne : msg ≠ []
  size_lt : kpPlength + (msg.length + val.length) < 2 ^ 31

/-- The three vectors. -/
def Frame.parts (f : Frame) : List (List Byte) := [f.pdu, f.msg, f.val]

def Frame.encode (f : Frame) : List Byte := f.pdu ++ (f.msg ++ f.val)

/-- The lengths that a PDU states are those of a frame, of which the `n` bytes that follow have the
rest. -/
def Announces (pdu : List Byte) (n : ℕ) : Prop :=
  0 < (unpackPdu pdu).kpMsglen ∧
    kpPlength + ((unpackPdu pdu).kpMsglen + (unpackPdu pdu).kpVallen) < 2 ^ 31 ∧
    (unpackPdu pdu).kpMsglen + (unpackPdu pdu).kpVallen ≤ n

instance (pdu : List Byte) (n : ℕ) : Decidable (Announces pdu n) :=
  inferInstanceAs (Decidable (_ ∧ _ ∧ _))

/-- The frame at the front of a stream, and the rest. -/
def Frame.decode (s : List Byte) : Option (Frame × List Byte) :=
  if h : kpPlength ≤ s.length ∧ Announces (s.take kpPlength) (s.drop kpPlength).length then
    let m := (unpackPdu (s.take kpPlength)).kpMsglen
    let v := (unpackPdu (s.take kpPlength)).kpVallen
    have hm : ((s.drop kpPlength).take m).length = m := by
      have := h.2.2.2
      rw [List.length_take]
      omega
    have hv : (((s.drop kpPlength).drop m).take v).length = v := by
      have := h.2.2.2
      rw [List.length_take, List.length_drop]
      omega
    some (
      { pdu := s.take kpPlength
        msg := (s.drop kpPlength).take m
        val := ((s.drop kpPlength).drop m).take v
        pdu_length := by rw [List.length_take, min_eq_left h.1]
        msg_length := hm
        val_length := hv
        msg_ne := List.ne_nil_of_length_pos (by rw [hm]; exact h.2.1)
        size_lt := by rw [hm, hv]; exact h.2.2.1 },
      ((s.drop kpPlength).drop m).drop v)
  else none

section Frames
variable {f g : Frame} {s t : List Byte}

theorem Frame.ext_parts (h : f.parts = g.parts) : f = g := by
  obtain ⟨hp, hm, hv⟩ : f.pdu = g.pdu ∧ f.msg = g.msg ∧ f.val = g.val := by
    simpa [Frame.parts] using h
  cases f
  cases g
  dsimp only at hp hm hv
  subst hp hm hv
  rfl

theorem Frame.body_lt (f : Frame) : f.msg.length + f.val.length < 2 ^ 31 :=
  (Nat.le_add_left _ _).trans_lt f.size_lt

theorem Frame.length_encode (f : Frame) :
    f.encode.length = kpPlength + (f.msg.length + f.val.length) := by
  unfold Frame.encode
  rw [List.length_append, List.length_append, f.pdu_length]

theorem Frame.encode_ne (f : Frame) : f.encode ≠ [] := by
  refine List.ne_nil_of_length_pos ?_
  rw [f.length_encode]
  exact Nat.add_pos_left (by decide) _

/-- A frame is recognized whatever follows it. -/
theorem Frame.decode_encode (f : Frame) (s : List Byte) :
    Frame.decode (f.encode ++ s) = some (f, s) := by
  have hsplit : f.encode ++ s = f.pdu ++ (f.msg ++ (f.val ++ s)) := by
    unfold Frame.encode
    simp only [List.append_assoc]
  have htake : (f.encode ++ s).take kpPlength = f.pdu := by
    rw [hsplit, List.take_append_of_le_length f.pdu_length.ge,
      List.take_of_length_le f.pdu_length.le]
  have hdrop : (f.encode ++ s).drop kpPlength = f.msg ++ (f.val ++ s) := by
    rw [hsplit, ← f.pdu_length, List.drop_left]
  have hpos := List.length_pos_of_ne_nil f.msg_ne
  have hsize := f.size_lt
  have hann : Announces ((f.encode ++ s).take kpPlength)
      ((f.encode ++ s).drop kpPlength).length := by
    rw [htake, hdrop]
    unfold Announces
    rw [← f.msg_length, ← f.val_length]
    refine ⟨hpos, hsize, ?_⟩
    simp only [List.length_append]
    omega
  have hlen : kpPlength ≤ (f.encode ++ s).length := by
    rw [List.length_append, f.length_encode]
    omega
  unfold Frame.decode
  rw [dif_pos ⟨hlen, hann⟩]
  simp only [htake, hdrop, ← f.msg_length, ← f.val_length, List.take_left, List.drop_left]

/-- Nothing is recognized but frames. -/
theorem Frame.eq_of_decode (h : Frame.decode s = some (f, t)) : s = f.encode ++ t := by
  unfold Frame.decode at h
  split_ifs at h with hs
  obtain ⟨rfl, rfl⟩ := Prod.mk.inj (Option.some.inj h)
  unfold Frame.encode
  dsimp only
  rw [List.append_assoc, List.append_assoc, List.take_append_drop, List.take_append_drop,
    List.take_append_drop]

end Frames

/-- **The frames** as a code. -/
def frameCode : Code Frame Byte where
  encode := Frame.encode
  decode := Frame.decode
  encode_ne := Frame.encode_ne
  decode_encode := Frame.decode_encode
  eq_of_decode := Frame.eq_of_decode

/-! ### The receiver -/

/-- `malloc`, by the buffers that are in use. -/
abbrev Malloc := List Span → ℕ → Option ℕ

/-- What it grants is apart from what is in use. -/
def Fresh (malloc : Malloc) : Prop :=
  ∀ live n b, malloc live n = some b → ∀ v ∈ live, List.Disjoint (Span.cells ⟨b, n⟩) v.cells

/-- The receiving end of a connection. -/
structure Conn where
  stream : List Byte
  mem : ℕ → Byte
  live : List Span
  errno : ℤ

/-- The function has not returned, or has gone to its error path. -/
structure Stop where
  waiting : Bool
  conn : Conn

abbrev Answers := List (Except ℤ ℕ)

/-- `sizeof(struct kiovec)` -/
def kiovecSize : ℕ := 16

/-- The bytes of a buffer. -/
def Conn.bytes (c : Conn) (v : Span) : List Byte := v.cells.map c.mem

/-- A buffer of `n` bytes. -/
def Conn.alloc (malloc : Malloc) (n : ℕ) (c : Conn) : Except Stop (Span × Conn) :=
  match malloc c.live n with
  | none => .error ⟨false, c⟩
  | some b => .ok (⟨b, n⟩, { c with live := ⟨b, n⟩ :: c.live })

/-- The driver's receive, which fails if it returns -1. -/
def Conn.receive (malloc : Malloc) (iov : List Span) (answers : Answers) (c : Conn) :
    Except Stop (Conn × Answers) :=
  match transfer readStream true (malloc c.live (kiovecSize * iov.length)).isSome iov c.errno
      ⟨c.stream, c.mem⟩ answers with
  | .running x => .error ⟨true, { c with stream := x.io.stream, mem := x.io.mem, errno := x.errno }⟩
  | .ended rc errno io answers =>
    let c := { c with stream := io.stream, mem := io.mem, errno }
    if rc = -1 then .error ⟨false, c⟩ else .ok (c, answers)

/-- **The reading part of `ktli_recvmsg`**: up to the driver's receive of the PDU. -/
def readPdu (malloc : Malloc) (c : Conn) (answers : Answers) :
    Except Stop (Span × Conn × Answers) := do
  let (_, c) ← c.alloc malloc (kiovecSize * kmCntWithval.toNat)
  let (pdu, c) ← c.alloc malloc kpPlength
  let (c, answers) ← c.receive malloc [pdu] answers
  return (pdu, c, answers)

/-- With the PDU: up to the driver's receive of the message and the value. -/
def readBody (malloc : Malloc) (pdu : Span) (c : Conn) (answers : Answers) :
    Except Stop (List Span × Conn × Answers) := do
  let msgLen := sizeT (kiMsglen (c.bytes pdu))
  let valLen := sizeT (kiVallen (c.bytes pdu))
  -- the lengths are unsigned when they are compared
  if msgLen < 0 ∨ valLen < 0 then throw ⟨false, c⟩
  else
    let (msg, c) ← c.alloc malloc msgLen
    let (val, c) ← c.alloc malloc valLen
    let (c, answers) ← c.receive malloc [msg, val] answers
    return ([pdu, msg, val], c, answers)

/-- The vectors of the message. -/
def readMessage (malloc : Malloc) (c : Conn) (answers : Answers) :
    Except Stop (List Span × Conn × Answers) := do
  let (pdu, c, answers) ← readPdu malloc c answers
  readBody malloc pdu c answers

/-- What several calls read, each with the `errno` it finds; the first that does not return a
message is the last. -/
def readMessages (malloc : Malloc) : List ℤ → Conn → Answers → List (List Span) × Conn
  | [], c, _ => ([], c)
  | errno :: errnos, c, answers =>
    match readMessage malloc { c with errno } answers with
    | .error stop => ([], stop.conn)
    | .ok (m, c, answers) =>
      let (ms, c) := readMessages malloc errnos c answers
      (m :: ms, c)

/-- The bytes of the messages, when the last call has ended. -/
def received (malloc : Malloc) (errnos : List ℤ) (c : Conn) (answers : Answers) :
    List (List (List Byte)) :=
  (readMessages malloc errnos c answers).1.map fun m =>
    m.map (readMessages malloc errnos c answers).2.bytes

/-! ### Its steps -/

/-- The buffers in use stay as they are. -/
def Keeps (c c' : Conn) : Prop :=
  c.live ⊆ c'.live ∧ ∀ v ∈ c.live, c'.bytes v = c.bytes v

section Steps
variable {malloc : Malloc} {c c' c'' : Conn} {answers rest : Answers} {iov : List Span} {v : Span}
  {n : ℕ} {stop : Stop}

theorem Keeps.refl (c : Conn) : Keeps c c := ⟨List.Subset.refl _, fun _ _ => rfl⟩

theorem Keeps.trans (h : Keeps c c') (h' : Keeps c' c'') : Keeps c c'' :=
  ⟨List.Subset.trans h.1 h'.1, fun v hv => (h'.2 v (h.1 hv)).trans (h.2 v hv)⟩

/-- A store into buffers that are apart from those in use. -/
theorem Keeps.of_store {cs : List ℕ} {xs : List Byte} (hlive : c.live ⊆ c'.live)
    (hmem : c'.mem = storeAll c.mem cs xs) (hcs : ∀ v ∈ c.live, List.Disjoint cs v.cells) :
    Keeps c c' := by
  refine ⟨hlive, fun v hv => List.map_congr_left fun a ha => ?_⟩
  rw [hmem]
  exact storeAll_of_notMem fun hmem => hcs v hv hmem ha

theorem Keeps.of_mem (hlive : c.live ⊆ c'.live) (hmem : c'.mem = c.mem) : Keeps c c' :=
  ⟨hlive, fun v _ => by rw [Conn.bytes, Conn.bytes, hmem]⟩

theorem alloc_error (h : c.alloc malloc n = .error stop) : stop.conn = c := by
  unfold Conn.alloc at h
  split at h
  · cases h
    rfl
  · cases h

/-- A buffer that is granted. -/
theorem alloc_ok (hm : Fresh malloc) (h : c.alloc malloc n = .ok (v, c')) :
    v.len = n ∧ c' = { c with live := v :: c.live } ∧
      ∀ w ∈ c.live, List.Disjoint v.cells w.cells := by
  unfold Conn.alloc at h
  split at h
  · cases h
  · next b hb =>
    cases h
    exact ⟨rfl, rfl, hm _ _ _ hb⟩

/-- **The driver's receive** stores what it takes off the stream, and takes all of it if it does not
fail. -/
theorem receive_cases (malloc : Malloc) (c : Conn) (iov : List Span) (hsize : size iov < 2 ^ 31)
    (answers : Answers) :
    (∃ stop, c.receive malloc iov answers = .error stop ∧ stop.conn.live = c.live ∧
      ∃ xs, stop.conn.mem = storeAll c.mem (cells iov) xs) ∨
    ∃ c' rest, c.receive malloc iov answers = .ok (c', rest) ∧ c'.live = c.live ∧
      size iov ≤ c.stream.length ∧ c'.stream = c.stream.drop (size iov) ∧
      c'.mem = storeAll c.mem (cells iov) (c.stream.take (size iov)) := by
  have hlands := transfer_lands (readStream_advances iov ⟨c.stream, c.mem⟩) hsize true
    (malloc c.live (kiovecSize * iov.length)).isSome c.errno (read_zero iov _) answers
  unfold Conn.receive
  generalize transfer readStream true (malloc c.live (kiovecSize * iov.length)).isSome iov c.errno
    ⟨c.stream, c.mem⟩ answers = p at hlands ⊢
  rcases hlands with ⟨-, hread⟩ | hread | ⟨-, hread⟩
  · exact .inl ⟨_, rfl, rfl, _, hread.2.2⟩
  · refine .inr ⟨_, _, if_neg (by omega), rfl, hread⟩
  · exact .inl ⟨_, rfl, rfl, _, hread.2.2⟩

/-- The cells of a buffer are all different. -/
theorem nodup_cells_singleton (v : Span) : (cells [v]).Nodup := by
  rw [cells_cons, cells_nil, List.append_nil]
  exact List.nodup_range'

/-- **The PDU** is what the stream begins with. -/
theorem readPdu_cases (hm : Fresh malloc) (c : Conn) (answers : Answers) :
    (∃ stop, readPdu malloc c answers = .error stop ∧ Keeps c stop.conn) ∨
    ∃ pdu c' rest, readPdu malloc c answers = .ok (pdu, c', rest) ∧ Keeps c c' ∧ pdu ∈ c'.live ∧
      kpPlength ≤ c.stream.length ∧ c'.bytes pdu = c.stream.take kpPlength ∧
      c'.stream = c.stream.drop kpPlength := by
  unfold readPdu
  rcases h1 : c.alloc malloc (kiovecSize * kmCntWithval.toNat) with stop | ⟨kiov, c1⟩
  · exact .inl ⟨stop, rfl, by rw [alloc_error h1]; exact Keeps.refl c⟩
  obtain ⟨-, rfl, -⟩ := alloc_ok hm h1
  set c1 : Conn := { c with live := kiov :: c.live } with hc1
  have hkeep1 : Keeps c c1 := .of_mem (List.subset_cons_self ..) rfl
  rcases h2 : c1.alloc malloc kpPlength with stop | ⟨pdu, c2⟩
  · refine .inl ⟨stop, ?_, by rw [alloc_error h2]; exact hkeep1⟩
    simp only [bind, Except.bind, h2]
  obtain ⟨hlen, rfl, hapart⟩ := alloc_ok hm h2
  set c2 : Conn := { c1 with live := pdu :: c1.live } with hc2
  have hcells : cells [pdu] = pdu.cells := by rw [cells_cons, cells_nil, List.append_nil]
  have hsize : size [pdu] = kpPlength := by rw [size_cons, hlen]; rfl
  have hstored : ∀ {c3 : Conn} {xs : List Byte}, c3.live = c2.live →
      c3.mem = storeAll c2.mem (cells [pdu]) xs → Keeps c c3 := by
    intro c3 xs hlive hmem
    refine hkeep1.trans (.of_store ?_ hmem fun v hv => ?_)
    · rw [hlive]
      exact List.subset_cons_self ..
    · rw [hcells]
      exact hapart v hv
  rcases receive_cases malloc c2 [pdu] (by rw [hsize]; decide) answers with
    ⟨stop, h3, hlive, xs, hmem⟩ | ⟨c3, rest, h3, hlive, hle, hstream, hmem⟩
  · refine .inl ⟨stop, ?_, hstored hlive hmem⟩
    simp only [bind, Except.bind, h2, h3]
  · rw [hsize] at hle hstream hmem
    refine .inr ⟨pdu, c3, rest, ?_, hstored hlive hmem, ?_, hle, ?_, hstream⟩
    · simp only [bind, Except.bind, h2, h3]
      rfl
    · rw [hlive]
      exact List.mem_cons_self ..
    · have hmap := @map_storeAll Byte c2.mem _ (c.stream.take kpPlength)
        (nodup_cells_singleton pdu)
        (by rw [length_cells, hsize, List.length_take, min_eq_left hle])
      rw [length_cells, hsize, List.take_take, min_self, hcells] at hmap
      unfold Conn.bytes
      rw [hmem, hcells]
      exact hmap

/-- **The body** is as long as the PDU states. -/
theorem readBody_cases (hm : Fresh malloc) {pdu : Span} {m n : ℕ}
    (hmsg : sizeT (kiMsglen (c.bytes pdu)) = m) (hval : sizeT (kiVallen (c.bytes pdu)) = n)
    (hsize : m + n < 2 ^ 31) (answers : Answers) :
    (∃ stop, readBody malloc pdu c answers = .error stop ∧ Keeps c stop.conn) ∨
    ∃ msg val c' rest, readBody malloc pdu c answers = .ok ([pdu, msg, val], c', rest) ∧
      Keeps c c' ∧ msg ∈ c'.live ∧ val ∈ c'.live ∧ m + n ≤ c.stream.length ∧
      c'.bytes msg = c.stream.take m ∧ c'.bytes val = (c.stream.drop m).take n ∧
      c'.stream = c.stream.drop (m + n) := by
  unfold readBody
  rw [hmsg, hval]
  dsimp only
  rw [if_neg (by omega)]
  rcases h1 : c.alloc malloc m with stop | ⟨msg, c1⟩
  · exact .inl ⟨stop, rfl, by rw [alloc_error h1]; exact Keeps.refl c⟩
  obtain ⟨hmlen, rfl, hmapart⟩ := alloc_ok hm h1
  set c1 : Conn := { c with live := msg :: c.live } with hc1
  have hkeep1 : Keeps c c1 := .of_mem (List.subset_cons_self ..) rfl
  rcases h2 : c1.alloc malloc n with stop | ⟨val, c2⟩
  · refine .inl ⟨stop, ?_, by rw [alloc_error h2]; exact hkeep1⟩
    simp only [bind, Except.bind, h2]
  obtain ⟨hvlen, rfl, hvapart⟩ := alloc_ok hm h2
  set c2 : Conn := { c1 with live := val :: c1.live } with hc2
  have hcells : cells [msg, val] = msg.cells ++ val.cells := by
    rw [cells_cons, cells_cons, cells_nil, List.append_nil]
  have hlen : size [msg, val] = m + n := by
    rw [size_cons, size_cons, hmlen, hvlen]
    rfl
  have hstored : ∀ {c3 : Conn} {xs : List Byte}, c3.live = c2.live →
      c3.mem = storeAll c2.mem (cells [msg, val]) xs → Keeps c c3 := by
    intro c3 xs hlive3 hmem
    refine .of_store ?_ hmem fun v hv => ?_
    · rw [hlive3]
      exact fun v hv => List.mem_cons_of_mem _ (List.mem_cons_of_mem _ hv)
    · rw [hcells, List.disjoint_append_left]
      exact ⟨hmapart v hv, hvapart v (List.mem_cons_of_mem _ hv)⟩
  rcases receive_cases malloc c2 [msg, val] (by rw [hlen]; exact hsize) answers with
    ⟨stop, h3, hlive3, xs, hmem⟩ | ⟨c3, rest, h3, hlive3, hle, hstream, hmem⟩
  · refine .inl ⟨stop, ?_, hstored hlive3 hmem⟩
    simp only [bind, Except.bind, h2, h3]
  · rw [hlen] at hle hstream hmem
    have hnodup : (cells [msg, val]).Nodup := by
      rw [hcells]
      refine List.Nodup.append List.nodup_range' List.nodup_range' ?_
      exact (hvapart msg (List.mem_cons_self ..)).symm
    have hstream2 : c2.stream = c.stream := rfl
    have hmap := @map_storeAll Byte c2.mem _ (c.stream.take (m + n)) hnodup
      (by rw [length_cells, hlen, List.length_take, min_eq_left hle])
    rw [length_cells, hlen, List.take_take, min_self, List.take_add, hcells,
      List.map_append] at hmap
    obtain ⟨hmbytes, hvbytes⟩ := List.append_inj hmap (by
      rw [List.length_map, Span.length_cells, hmlen, List.length_take, min_eq_left]
      exact (Nat.le_add_right m n).trans hle)
    refine .inr ⟨msg, val, c3, rest, ?_, hstored hlive3 hmem, ?_, ?_, hle, ?_, ?_, hstream⟩
    · simp only [bind, Except.bind, h2, h3]
      rfl
    · rw [hlive3]
      exact List.mem_cons_of_mem _ (List.mem_cons_self ..)
    · rw [hlive3]
      exact List.mem_cons_self ..
    · rw [Conn.bytes, hmem, hcells, hstream2, List.take_add]
      exact hmbytes
    · rw [Conn.bytes, hmem, hcells, hstream2, List.take_add]
      exact hvbytes

/-- The lengths that the helpers find in the PDU of a frame. -/
theorem Frame.lengths (f : Frame) :
    sizeT (kiMsglen f.pdu) = f.msg.length ∧ sizeT (kiVallen f.pdu) = f.val.length := by
  obtain ⟨hm, hv⟩ := helpers_of_header f.pdu_length
  have hsize := f.size_lt
  have hmlt : (unpackPdu f.pdu).kpMsglen < 2 ^ 31 := by
    rw [← f.msg_length]
    omega
  have hvlt : (unpackPdu f.pdu).kpVallen < 2 ^ 31 := by
    rw [← f.val_length]
    omega
  rw [hm, hv, f.msg_length, f.val_length]
  refine ⟨(sizeT_toInt (kpMsglen_lt _)).2 ?_, (sizeT_toInt (kpVallen_lt _)).2 ?_⟩
  · rw [toInt_word_neg_iff (kpMsglen_lt _)]
    omega
  · rw [toInt_word_neg_iff (kpVallen_lt _)]
    omega

/-- A stream of frames that has a PDU begins with that of the first frame. -/
theorem take_pdu {fs : List Frame} {s : List Byte} (hs : s <+: frameCode.stream fs)
    (hlen : kpPlength ≤ s.length) : ∃ f fs', fs = f :: fs' ∧ s.take kpPlength = f.pdu ∧
      s.drop kpPlength <+: f.msg ++ (f.val ++ frameCode.stream fs') := by
  rcases fs with _ | ⟨f, fs⟩
  · rw [Code.stream_nil, List.prefix_nil] at hs
    subst hs
    exact absurd hlen (by decide)
  · have hsplit : frameCode.stream (f :: fs) =
        f.pdu ++ (f.msg ++ (f.val ++ frameCode.stream fs)) := by
      rw [Code.stream_cons]
      simp only [frameCode, Frame.encode, List.append_assoc]
    obtain ⟨t, ht⟩ := hs
    rw [hsplit, ← List.take_append_drop kpPlength s, List.append_assoc] at ht
    obtain ⟨hpdu, hrest⟩ := List.append_inj ht (by
      rw [List.length_take, min_eq_left hlen, f.pdu_length])
    exact ⟨f, fs, rfl, hpdu, t, hrest⟩

/-- **A message** is the frame at the front of the stream, and is read into buffers of its own. -/
theorem readMessage_cases (hm : Fresh malloc) {fs : List Frame}
    (hs : c.stream <+: frameCode.stream fs) (answers : Answers) :
    (∃ stop, readMessage malloc c answers = .error stop ∧ Keeps c stop.conn) ∨
    ∃ (f : Frame) (m : List Span) (c' : Conn) (rest : Answers),
      readMessage malloc c answers = .ok (m, c', rest) ∧ Keeps c c' ∧ m ⊆ c'.live ∧
      m.map c'.bytes = f.parts ∧ c.stream = f.encode ++ c'.stream := by
  unfold readMessage
  rcases readPdu_cases hm c answers with
    ⟨stop, h1, hkeep⟩ | ⟨pdu, c1, rest1, h1, hkeep1, hpdu, hlen, hbytes, hstream⟩
  · exact .inl ⟨stop, by rw [h1]; rfl, hkeep⟩
  obtain ⟨f, fs', rfl, htake, hdrop⟩ := take_pdu hs hlen
  rw [htake] at hbytes
  obtain ⟨hmsg, hval⟩ := f.lengths
  rw [← hbytes] at hmsg hval
  rcases readBody_cases hm hmsg hval f.body_lt rest1 with ⟨stop, h2, hkeep2⟩ |
    ⟨msg, val, c2, rest2, h2, hkeep2, hmlive, hvlive, hle, hmbytes, hvbytes, hstream2⟩
  · refine .inl ⟨stop, ?_, hkeep1.trans hkeep2⟩
    rw [h1]
    exact h2
  · rw [hstream] at hle hmbytes hvbytes hstream2
    obtain ⟨t, ht⟩ := hdrop
    have hbody : c.stream.drop kpPlength =
        f.msg ++ (f.val ++ (c.stream.drop kpPlength).drop (f.msg.length + f.val.length)) := by
      have hsplit := List.take_append_drop (f.msg.length + f.val.length) (c.stream.drop kpPlength)
      rw [← hsplit, List.append_assoc, ← List.append_assoc f.msg] at ht
      have hfirst := (List.append_inj ht (by
        rw [List.length_take, min_eq_left hle, List.length_append])).1
      rw [← List.append_assoc, ← hfirst, hsplit]
    refine .inr ⟨f, [pdu, msg, val], c2, rest2, ?_, hkeep1.trans hkeep2, ?_, ?_, ?_⟩
    · rw [h1]
      exact h2
    · intro v hv
      rcases List.mem_cons.mp hv with rfl | hv
      · exact hkeep2.1 hpdu
      rcases List.mem_pair.mp hv with rfl | rfl
      · exact hmlive
      · exact hvlive
    · have hp := hkeep2.2 pdu hpdu
      rw [hbytes] at hp
      rw [hbody] at hmbytes hvbytes
      rw [List.take_left] at hmbytes
      rw [List.drop_left, List.take_left] at hvbytes
      rw [List.map_cons, List.map_cons, List.map_cons, List.map_nil, hp, hmbytes, hvbytes]
      rfl
    · rw [hstream2, ← List.take_append_drop kpPlength c.stream, htake]
      unfold Frame.encode
      rw [List.append_assoc, List.append_assoc, List.drop_left' f.pdu_length, ← hbody]

/-- **The messages** are frames of the stream, in order, each in its own buffers. -/
theorem readMessages_refines (hm : Fresh malloc) (errnos : List ℤ) {fs : List Frame}
    (hs : c.stream <+: frameCode.stream fs) (answers : Answers) :
    Keeps c (readMessages malloc errnos c answers).2 ∧
      received malloc errnos c answers <+:
        (frameCode.items errnos.length c.stream).1.map Frame.parts := by
  induction errnos generalizing c fs answers with
  | nil => exact ⟨Keeps.refl c, List.nil_prefix⟩
  | cons e errnos ih =>
    unfold received readMessages
    rcases readMessage_cases (c := { c with errno := e }) hm hs answers with ⟨stop, h1, hkeep⟩ |
      ⟨f, m, c1, rest1, h1, hkeep1, hlive, hparts, hstream⟩
    · rw [h1]
      exact ⟨hkeep, List.nil_prefix⟩
    · have hdecode : frameCode.decode c.stream = some (f, c1.stream) := by
        rw [hstream]
        exact f.decode_encode c1.stream
      obtain ⟨fs', -, hs'⟩ := Code.decode_of_prefix_stream hs hdecode
      obtain ⟨hkeep2, hfront⟩ := ih hs' rest1
      rw [h1, List.length_cons, Code.items_some hdecode]
      refine ⟨hkeep1.trans hkeep2, ?_⟩
      -- the buffers of the first message are still as they were
      have hfirst : m.map (readMessages malloc errnos c1 rest1).2.bytes = f.parts := by
        rw [← hparts]
        exact List.map_congr_left fun v hv => hkeep2.2 v (hlive hv)
      rw [List.map_cons, List.map_cons, hfirst]
      exact List.cons_prefix_cons.mpr ⟨rfl, hfront⟩

/-! ### Its progress -/

/-- Every buffer of less than 2³¹ bytes is granted. -/
def Grants (malloc : Malloc) : Prop := ∀ live n, n < 2 ^ 31 → (malloc live n).isSome = true

theorem alloc_granted (hg : Grants malloc) (hn : n < 2 ^ 31) (c : Conn) :
    ∃ v c', c.alloc malloc n = .ok (v, c') ∧ v.len = n ∧ c'.stream = c.stream ∧ c'.mem = c.mem := by
  obtain ⟨b, hb⟩ := Option.isSome_iff_exists.mp (hg c.live n hn)
  unfold Conn.alloc
  rw [hb]
  exact ⟨_, _, rfl, rfl, rfl, rfl⟩

/-- What is left of a schedule of answers after at most `n` bytes. -/
structure Leaves (answers : Answers) (n : ℕ) (rest : Answers) : Prop where
  suffix : rest <:+ answers
  count : (payloads answers).length ≤ (payloads rest).length + n

/-- A schedule with enough of them, each of which lets something through. -/
structure Enough (answers : Answers) (n : ℕ) : Prop where
  benign : ∀ r ∈ answers, Benign id r
  count : n ≤ (payloads answers).length

theorem Leaves.trans {n m : ℕ} {rest' : Answers} (h : Leaves answers n rest)
    (h' : Leaves rest m rest') : Leaves answers (n + m) rest' :=
  ⟨h'.suffix.trans h.suffix, by have := h.count; have := h'.count; omega⟩

theorem Enough.after {n m : ℕ} (h : Enough answers (n + m)) (hl : Leaves answers n rest) :
    Enough rest m :=
  ⟨fun r hr => h.benign r (hl.suffix.subset hr), by have := h.count; have := hl.count; omega⟩

theorem Enough.left {n m : ℕ} (h : Enough answers (n + m)) : Enough answers n :=
  ⟨h.benign, (Nat.le_add_right n m).trans h.count⟩

/-- The driver's receive completes if the stream has the bytes. -/
theorem receive_completes (hg : Grants malloc) (c : Conn) (iov : List Span)
    (hiov : kiovecSize * iov.length < 2 ^ 31) (hsize : size iov < 2 ^ 31) (hpos : 0 < size iov)
    (hle : size iov ≤ c.stream.length)
    (henough : Enough answers (size iov)) :
    ∃ c' rest, c.receive malloc iov answers = .ok (c', rest) ∧ Leaves answers (size iov) rest := by
  obtain ⟨errno, io, rest, hrun, -, hsuf, hcount⟩ :=
    transfer_completes (readStream_advances iov ⟨c.stream, c.mem⟩) (readStream_gains hle) hsize
      c.errno (read_zero iov _) henough.benign hpos henough.count
  unfold Conn.receive
  rw [hg _ _ hiov, hrun]
  exact ⟨_, rest, if_neg (by omega), hsuf, hcount⟩

theorem readPdu_completes (hg : Grants malloc) (hle : kpPlength ≤ c.stream.length)
    (henough : Enough answers kpPlength) : ∃ pdu c' rest,
      readPdu malloc c answers = .ok (pdu, c', rest) ∧ Leaves answers kpPlength rest := by
  obtain ⟨kiov, c1, h1, -, hstream1, -⟩ :=
    alloc_granted (n := kiovecSize * kmCntWithval.toNat) hg (by decide) c
  obtain ⟨pdu, c2, h2, hlen, hstream2, -⟩ := alloc_granted (n := kpPlength) hg (by decide) c1
  have hsize : size [pdu] = kpPlength := by
    rw [size_cons, hlen]
    rfl
  obtain ⟨c3, rest, h3, hleaves⟩ := receive_completes hg c2 [pdu]
    (by rw [List.length_singleton]; decide)
    (by rw [hsize]; decide) (by rw [hsize]; decide) (by rw [hsize, hstream2, hstream1]; exact hle)
    (by rw [hsize]; exact henough)
  rw [hsize] at hleaves
  refine ⟨pdu, c3, rest, ?_, hleaves⟩
  unfold readPdu
  simp only [bind, Except.bind, h1, h2, h3]
  rfl

theorem readBody_completes (hg : Grants malloc) {pdu : Span} {m n : ℕ}
    (hmsg : sizeT (kiMsglen (c.bytes pdu)) = m) (hval : sizeT (kiVallen (c.bytes pdu)) = n)
    (hpos : 0 < m) (hsize : m + n < 2 ^ 31) (hle : m + n ≤ c.stream.length)
    (henough : Enough answers (m + n)) : ∃ ms c' rest,
      readBody malloc pdu c answers = .ok (ms, c', rest) ∧ Leaves answers (m + n) rest := by
  obtain ⟨msg, c1, h1, hmlen, hstream1, -⟩ := alloc_granted (n := m) hg (by omega) c
  obtain ⟨val, c2, h2, hvlen, hstream2, -⟩ := alloc_granted (n := n) hg (by omega) c1
  have hlen : size [msg, val] = m + n := by
    rw [size_cons, size_cons, hmlen, hvlen]
    rfl
  obtain ⟨c3, rest, h3, hleaves⟩ := receive_completes hg c2 [msg, val]
    (by rw [List.length_cons, List.length_singleton]; decide) (by rw [hlen]; exact hsize)
    (by rw [hlen]; omega)
    (by rw [hlen, hstream2, hstream1]; exact hle) (by rw [hlen]; exact henough)
  rw [hlen] at hleaves
  refine ⟨[pdu, msg, val], c3, rest, ?_, hleaves⟩
  unfold readBody
  rw [hmsg, hval]
  dsimp only
  rw [if_neg (by omega)]
  simp only [bind, Except.bind, h1, h2, h3]
  rfl

/-- **A frame that has arrived** is read. -/
theorem readMessage_completes (hm : Fresh malloc) (hg : Grants malloc) {f : Frame}
    {fs : List Frame} (hs : c.stream <+: frameCode.stream (f :: fs))
    (hle : f.encode.length ≤ c.stream.length) (henough : Enough answers f.encode.length) :
    ∃ m c' rest, readMessage malloc c answers = .ok (m, c', rest) ∧
      Leaves answers f.encode.length rest := by
  rw [f.length_encode] at hle henough ⊢
  have hpos := List.length_pos_of_ne_nil f.msg_ne
  obtain ⟨pdu, c1, rest1, h1, hleaves1⟩ :=
    readPdu_completes (c := c) hg ((Nat.le_add_right _ _).trans hle) henough.left
  rcases readPdu_cases hm c answers with ⟨stop, h1', -⟩ |
    ⟨pdu', c1', rest1', h1', -, -, hlen, hbytes, hstream⟩
  · rw [h1] at h1'
    cases h1'
  rw [h1] at h1'
  cases h1'
  obtain ⟨g, fs', heq, htake, -⟩ := take_pdu hs hlen
  cases heq
  rw [htake] at hbytes
  obtain ⟨hmsg, hval⟩ := f.lengths
  rw [← hbytes] at hmsg hval
  obtain ⟨m, c2, rest2, h2, hleaves2⟩ := readBody_completes hg hmsg hval hpos f.body_lt
    (by rw [hstream, List.length_drop]; omega) (henough.after hleaves1)
  refine ⟨m, c2, rest2, ?_, hleaves1.trans hleaves2⟩
  unfold readMessage
  rw [h1]
  exact h2

/-- **A stream that has arrived** is read to its end. -/
theorem readMessages_completes (hm : Fresh malloc) (hg : Grants malloc) {fs gs : List Frame}
    {errnos : List ℤ} (hs : c.stream <+: frameCode.stream (fs ++ gs))
    (hle : (frameCode.stream fs).length ≤ c.stream.length)
    (henough : Enough answers (frameCode.stream fs).length) (hn : fs.length ≤ errnos.length) :
    fs.length ≤ (readMessages malloc errnos c answers).1.length := by
  induction fs generalizing errnos c answers with
  | nil => exact Nat.zero_le _
  | cons f fs ih =>
    rcases errnos with _ | ⟨e, errnos⟩
    · exact absurd hn (Nat.not_succ_le_zero _)
    rw [List.length_cons, List.length_cons] at hn
    rw [Code.stream_cons, List.length_append] at hle henough
    obtain ⟨m, c1, rest1, h1, hleaves⟩ := readMessage_completes (c := { c with errno := e })
      hm hg hs ((Nat.le_add_right _ _).trans hle) henough.left
    rcases readMessage_cases (c := { c with errno := e }) hm hs answers with ⟨stop, h1', -⟩ |
      ⟨g, m', c1', rest1', h1', -, -, -, hstream⟩
    · rw [h1] at h1'
      cases h1'
    rw [h1] at h1'
    cases h1'
    have hdecode : frameCode.decode c.stream = some (g, c1.stream) := by
      rw [hstream]
      exact g.decode_encode c1.stream
    obtain ⟨fs', heq, hs'⟩ := Code.decode_of_prefix_stream hs hdecode
    cases heq
    have hlen : c.stream.length = (frameCode.encode f).length + c1.stream.length := by
      rw [hstream, List.length_append]
      rfl
    have hcount : fs.length ≤ errnos.length := by omega
    have hrest := ih hs' (by omega) (henough.after hleaves) hcount
    unfold readMessages
    rw [h1]
    exact Nat.succ_le_succ hrest

end Steps

/-! ### The sender -/

/-- A message for the driver's send: its vector in the memory, whether the driver can copy the
vector, and the `errno` that it finds. -/
structure Outgoing where
  vec : List Span
  alloc : Bool
  errno : ℤ

/-- What has become of it: what the driver has returned, and what it wrote. -/
structure Sent where
  status : Option ℤ
  bytes : List Byte
deriving DecidableEq

def Sent.succeeded (o : Sent) : Bool :=
  match o.status with
  | none => false
  | some rc => decide (0 ≤ rc)

/-- What `ktli_sender` sends, one message after the other, as it goes on after a failure. -/
def sendMessages (mem : ℕ → Byte) : List Outgoing → Answers → List Sent
  | [], _ => []
  | m :: ms, answers =>
    match ktliSocketSend mem true m.alloc m.vec m.errno answers with
    | .running x => [⟨none, x.io⟩]
    | .ended rc _ io answers => ⟨some rc, io⟩ :: sendMessages mem ms answers

/-- Everything on the wire. -/
def wire (os : List Sent) : List Byte := os.flatMap Sent.bytes

/-- A send that fails after its first byte is not followed by another that writes. -/
def Clean (os : List Sent) : Prop :=
  os.Pairwise fun o o' => o.succeeded = true ∨ o.bytes = [] ∨ o'.bytes = []

instance (os : List Sent) : Decidable (Clean os) := inferInstanceAs (Decidable (os.Pairwise _))

/-- The messages whose send has succeeded. -/
def delivered (fs : List Frame) (os : List Sent) : List Frame :=
  ((fs.zip os).filter fun p => p.2.succeeded).map Prod.fst

section Sending
variable {mem : ℕ → Byte} {v : List Span} {f : Frame}

/-- **One send** writes the whole frame, or fails with less than that. -/
theorem send_cases (hv : (cells v).map mem = f.encode) (alloc : Bool) (errno : ℤ)
    (answers : Answers) :
    (∃ x, ktliSocketSend mem true alloc v errno answers = .running x ∧
      x.io <+: f.encode ∧ x.io ≠ f.encode) ∨
    (∃ rc errno' rest, ktliSocketSend mem true alloc v errno answers =
      .ended rc errno' f.encode rest ∧ 0 ≤ rc) ∨
    ∃ errno' io rest, ktliSocketSend mem true alloc v errno answers = .ended (-1) errno' io rest ∧
      io <+: f.encode ∧ io ≠ f.encode := by
  have hlen : size v = f.encode.length := by rw [← hv, List.length_map, length_cells]
  have hsize : size v < 2 ^ 31 := by
    rw [hlen, f.length_encode]
    exact f.size_lt
  have hstart : Wrote mem v 0 [] := by rw [Wrote, List.take_zero, List.map_nil]
  have hlands := transfer_lands (writev_advances mem v) hsize true alloc errno hstart answers
  have hpos := List.length_pos_of_ne_nil f.encode_ne
  -- less than the size is less than the frame
  have hpart : ∀ {moved : ℕ} {io : List Byte}, moved < size v ∨ size v = 0 →
      Wrote mem v moved io → io <+: f.encode ∧ io ≠ f.encode := by
    intro moved io hlt hio
    rw [Wrote, List.map_take, hv] at hio
    refine ⟨hio ▸ List.take_prefix _ _, fun heq => ?_⟩
    have hl := congrArg List.length (hio.symm.trans heq)
    rw [List.length_take] at hl
    omega
  unfold ktliSocketSend
  generalize transfer (writev mem) true alloc v errno [] answers = p at hlands ⊢
  rcases hlands with @⟨moved, x, hlt, hio⟩ | @⟨errno', io, rest, hio⟩ |
    @⟨moved, errno', io, rest, hlt, hio⟩
  · exact .inl ⟨x, rfl, hpart hlt hio⟩
  · refine .inr (.inl ⟨size v, errno', rest, ?_, by omega⟩)
    rw [Wrote, List.map_take, hv, hlen, List.take_length] at hio
    rw [hio]
  · exact .inr (.inr ⟨errno', io, rest, rfl, hpart hlt hio⟩)

/-- The frames that the messages hold in the memory. -/
def Holds (mem : ℕ → Byte) (m : Outgoing) (f : Frame) : Prop := (cells m.vec).map mem = f.encode

theorem succeeded_of_none (b : List Byte) : Sent.succeeded ⟨none, b⟩ = false := rfl

/-- **What is on the wire**: the frames whose send has succeeded, and at most a part of another. -/
theorem sendMessages_wire {ms : List Outgoing} {fs : List Frame}
    (h : List.Forall₂ (Holds mem) ms fs) (answers : Answers)
    (hclean : Clean (sendMessages mem ms answers)) :
    ∃ p, wire (sendMessages mem ms answers) =
        frameCode.stream (delivered fs (sendMessages mem ms answers)) ++ p ∧
      (∀ b, ¬ frameCode.encode b <+: p) ∧ ∃ gs, p <+: frameCode.stream gs := by
  have hempty : ∀ b, ¬ frameCode.encode b <+: [] := Code.not_encode_prefix_nil
  induction h generalizing answers with
  | nil => exact ⟨[], rfl, hempty, [], List.prefix_rfl⟩
  | @cons m f ms fs hv hrest ih =>
    have hone : f.encode = frameCode.stream [f] := by
      rw [Code.stream_cons, Code.stream_nil, List.append_nil]
      rfl
    unfold sendMessages at hclean ⊢
    rcases send_cases hv m.alloc m.errno answers with ⟨x, hrun, hpre, hne⟩ |
      ⟨rc, errno', rest, hrun, hrc⟩ | ⟨errno', io, rest, hrun, hpre, hne⟩
    · rw [hrun]
      refine ⟨x.io, ?_, fun b => Code.not_encode_prefix hpre hne, [f], hone ▸ hpre⟩
      simp [wire, delivered, succeeded_of_none]
    · rw [hrun] at hclean ⊢
      obtain ⟨p, hp, hnot, hgs⟩ := ih rest (List.pairwise_cons.mp hclean).2
      refine ⟨p, ?_, hnot, hgs⟩
      have hwire : wire (⟨some rc, f.encode⟩ :: sendMessages mem ms rest) =
          f.encode ++ wire (sendMessages mem ms rest) := List.flatMap_cons
      have hdel : delivered (f :: fs) (⟨some rc, f.encode⟩ :: sendMessages mem ms rest) =
          f :: delivered fs (sendMessages mem ms rest) := by
        simp [delivered, Sent.succeeded, hrc]
      dsimp only
      rw [hwire, hdel, hp, Code.stream_cons, List.append_assoc]
      rfl
    · rw [hrun] at hclean ⊢
      dsimp only at hclean ⊢
      obtain ⟨hfirst, hclean⟩ := List.pairwise_cons.mp hclean
      obtain ⟨p, hp, hnot, hgs⟩ := ih rest hclean
      have hwire : wire (⟨some (-1), io⟩ :: sendMessages mem ms rest) =
          io ++ wire (sendMessages mem ms rest) := List.flatMap_cons
      have hdel : delivered (f :: fs) (⟨some (-1), io⟩ :: sendMessages mem ms rest) =
          delivered fs (sendMessages mem ms rest) := by
        simp [delivered, Sent.succeeded]
      rw [hwire, hdel]
      by_cases hio : io = []
      · rw [hio, List.nil_append]
        exact ⟨p, hp, hnot, hgs⟩
      · -- nothing is written any more, so no other send has succeeded
        have hsilent : ∀ o ∈ sendMessages mem ms rest, o.bytes = [] := by
          intro o ho
          rcases hfirst o ho with hs | hnil | hnil
          · cases hs
          · exact absurd hnil hio
          · exact hnil
        have hnone : wire (sendMessages mem ms rest) = [] := List.flatMap_eq_nil_iff.mpr hsilent
        rw [hnone] at hp ⊢
        have hdel' := (List.append_eq_nil_iff.mp hp.symm).1
        refine ⟨io, by rw [hdel', List.nil_append, List.append_nil], ?_, [f], hone ▸ hpre⟩
        exact fun b => Code.not_encode_prefix hpre hne

end Sending

/-! ### Both ends -/

section Crossing
variable {malloc : Malloc} {mem : ℕ → Byte} {ms : List Outgoing} {fs : List Frame}

/-- **From end to end**: however the socket splits the writes and the reads, and wherever the
stream breaks off, what is received is the messages whose send has succeeded, from the first one on,
each in buffers that nothing that is received later touches. If the stream has arrived it is all of
them. -/
theorem messages_cross (hm : Fresh malloc) (hms : List.Forall₂ (Holds mem) ms fs)
    (sends : Answers) (hclean : Clean (sendMessages mem ms sends)) (c : Conn)
    (hc : c.stream <+: wire (sendMessages mem ms sends)) (errnos : List ℤ) (reads : Answers) :
    let sent := delivered fs (sendMessages mem ms sends)
    received malloc errnos c reads <+: sent.map Frame.parts ∧
      (∀ v ∈ c.live, (readMessages malloc errnos c reads).2.bytes v = c.bytes v) ∧
      (Grants malloc → (frameCode.stream sent).length ≤ c.stream.length →
        sent.length ≤ errnos.length → Enough reads (frameCode.stream sent).length →
          received malloc errnos c reads = sent.map Frame.parts) := by
  obtain ⟨p, hp, hnot, gs, hgs⟩ := sendMessages_wire hms sends hclean
  rw [hp] at hc
  generalize delivered fs (sendMessages mem ms sends) = sent at hc ⊢
  have hframes : c.stream <+: frameCode.stream (sent ++ gs) := by
    rw [Code.stream_append]
    exact hc.trans ((List.prefix_append_right_inj _).mpr hgs)
  obtain ⟨hkeep, hread⟩ := readMessages_refines hm errnos hframes reads
  have hfront := hread.trans ((Code.items_prefix hnot hc errnos.length).map Frame.parts)
  refine ⟨hfront, hkeep.2, fun hg hle hn henough => hfront.eq_of_length ?_⟩
  have hall := readMessages_completes hm hg hframes hle henough hn
  have hlen := hfront.length_le
  rw [received, List.length_map, List.length_map] at hlen ⊢
  omega

end Crossing

/-! ### Three messages, of which one is not sent -/

/-- An allocator that takes what is above all the buffers in use. -/
def bump (live : List Span) (_ : ℕ) : Option ℕ :=
  some ((live.map fun v => v.base + v.len).foldr max 0)

theorem bump_fresh : Fresh bump := by
  intro live n b hb v hv a ha hav
  have hle : v.base + v.len ≤ b := by
    rw [← Option.some.inj hb]
    exact List.le_max_of_le' 0 (List.mem_map_of_mem hv) le_rfl
  simp only [Span.cells, List.mem_range'_1] at ha hav
  omega

/-- A PDU for a message of two bytes and a value of one. -/
def smallPdu : List Byte := packPdu { kpMagic := 70, kpMsglen := 2, kpVallen := 1 }

def smallFrame (a b v : Byte) : Frame where
  pdu := smallPdu
  msg := [a, b]
  val := [v]
  pdu_length := rfl
  msg_length := by
    rw [smallPdu, unpackPdu_packPdu (by decide) (by decide)]
    rfl
  val_length := by
    rw [smallPdu, unpackPdu_packPdu (by decide) (by decide)]
    rfl
  msg_ne := List.cons_ne_nil _ _
  size_lt := by
    rw [List.length_cons, List.length_singleton, List.length_singleton]
    decide

/-- Two of them in the memory of the sender, with one PDU. -/
def senderMem (a : ℕ) : Byte := (smallPdu ++ [1, 2, 3, 4, 5, 6]).getD a 0

/-- The driver has no memory for the second one. -/
def outgoing : List Outgoing :=
  [⟨[⟨0, 9⟩, ⟨9, 2⟩, ⟨11, 1⟩], true, 0⟩, ⟨[⟨0, 9⟩, ⟨9, 2⟩, ⟨11, 1⟩], false, 0⟩,
    ⟨[⟨0, 9⟩, ⟨12, 2⟩, ⟨14, 1⟩], true, ENOMEM⟩]

/-- The socket takes five bytes, is busy, and then takes what it is offered. -/
def outgoingAnswers : Answers := [.ok 5, .error EAGAIN, .ok 100, .ok 100]

/-- The other end, with everything on its way. -/
def receiverConn : Conn where
  stream := wire (sendMessages senderMem outgoing outgoingAnswers)
  mem _ := 0
  live := []
  errno := 0

theorem two_messages_cross : received bump [0, 0] receiverConn (List.replicate 24 (.ok 4)) =
    [[smallPdu, [1, 2], [3]], [smallPdu, [4, 5], [6]]] := by
  have hholds : List.Forall₂ (Holds senderMem) outgoing
      [smallFrame 1 2 3, smallFrame 1 2 3, smallFrame 4 5 6] := by
    refine .cons ?_ (.cons ?_ (.cons ?_ .nil)) <;> exact rfl
  have hbenign : ∀ r ∈ List.replicate 24 (.ok 4 : Except ℤ ℕ), Benign id r := by
    intro r hr
    rw [(List.mem_replicate.mp hr).2]
    exact Nat.succ_pos 3
  have hsent : (delivered [smallFrame 1 2 3, smallFrame 1 2 3, smallFrame 4 5 6]
      (sendMessages senderMem outgoing outgoingAnswers)).map Frame.parts =
        [[smallPdu, [1, 2], [3]], [smallPdu, [4, 5], [6]]] := by
    decide +kernel
  have hcross := (messages_cross bump_fresh hholds outgoingAnswers (by decide +kernel) receiverConn
    List.prefix_rfl [0, 0] (List.replicate 24 (.ok 4))).2.2 (fun _ _ _ => rfl) (by decide +kernel)
    (by decide +kernel) ⟨hbenign, by decide +kernel⟩
  exact hcross.trans hsent

end Libkinetic.Kinetic.Framing
