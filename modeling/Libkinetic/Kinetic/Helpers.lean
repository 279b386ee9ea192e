import Libkinetic.Base.Ints
import Libkinetic.Ktli.Recvmsg
import Libkinetic.Kinetic.Request
import Libkinetic.Kinetic.Wire

/-! # The length helpers

`ki_msglen` and `ki_vallen`, by which the receiver learns how much follows a PDU. A length is decoded
as 32 bits without a sign, returned with a sign, and stored without one in the 64 bits of a kiovec:
the receiver's test for a negative length is never true, and what stops it is `malloc`, which grants
nothing beyond `PTRDIFF_MAX`. -/

namespace Libkinetic.Kinetic

open Libkinetic.Base.Ints Libkinetic.Ktli Libkinetic.Kinetic.Wire

/-- `ki_msglen`, of the bytes of the header's kiovec. -/
def kiMsglen (hdr : List Byte) : ℤ :=
  if hdr.length ≠ kpPlength then -1 else toInt (unpackPdu hdr).kpMsglen

/-- `ki_vallen` -/
def kiVallen (hdr : List Byte) : ℤ :=
  if hdr.length ≠ kpPlength then -1 else toInt (unpackPdu hdr).kpVallen

/-- What `ktli_recvmsg` asks for once it has a header. -/
inductive Ask
  | malloc (n : ℕ)
  | receive (lens : List ℕ)
deriving DecidableEq

/-- What is asked for, in order, in the part of `ktli_recvmsg` that `recvmsgRead` models. -/
def recvmsgAsks (e : RecvEnv) : List Ask :=
  let msgLen := sizeT e.msglen
  let valLen := sizeT e.vallen
  if ¬ e.kiovAlloc ∨ ¬ e.pduAlloc ∨ e.pduRc = -1 then []
  else if msgLen < 0 ∨ valLen < 0 then []
  else if ¬ e.msgAlloc msgLen then [.malloc msgLen]
  else if ¬ e.valAlloc valLen then [.malloc msgLen, .malloc valLen]
  else [.malloc msgLen, .malloc valLen, .receive [msgLen, valLen]]

/-- The session's helpers, asked about a header. -/
def withHeader (e : RecvEnv) (hdr : List Byte) : RecvEnv :=
  { e with msglen := kiMsglen hdr, vallen := kiVallen hdr }

/-- `malloc` grants no more than `PTRDIFF_MAX` bytes. -/
def RefusesHuge (malloc : ℕ → Bool) : Prop := ∀ n, 2 ^ 63 ≤ n → malloc n = false

/-! ### The conversions -/

/-- A 32-bit length, returned by a helper. -/
theorem toInt_word {d : ℕ} (hd : d < 2 ^ 32) :
    toInt d = if d < 2 ^ 31 then (d : ℤ) else d - 2 ^ 32 := by
  have hmod : (d : ℤ) % ((2 ^ 32 : ℕ) : ℤ) = d := Int.emod_eq_of_lt (by omega) (by omega)
  unfold toInt
  rw [Int.bmod_def, hmod]
  split_ifs <;> omega

theorem toInt_word_neg_iff {d : ℕ} (hd : d < 2 ^ 32) : toInt d < 0 ↔ 2 ^ 31 ≤ d := by
  rw [toInt_word hd]
  split_ifs <;> omega

/-- Stored in a kiovec, a length is the one decoded, or beyond what can be allocated. -/
theorem sizeT_toInt {d : ℕ} (hd : d < 2 ^ 32) :
    (toInt d < 0 → 2 ^ 63 ≤ sizeT (toInt d)) ∧ (¬ toInt d < 0 → sizeT (toInt d) = d) := by
  rw [toInt_word_neg_iff hd, toInt_word hd]
  unfold sizeT
  split_ifs <;> omega

/-! ### What the receiver does with the lengths -/

section Lengths
variable {e : RecvEnv}

/-- **The test** for a failed helper is dead: only the allocations and the driver lead to the error
path. -/
theorem recvmsgRead_eq_none_iff : recvmsgRead e = none ↔
    e.kiovAlloc = false ∨ e.pduAlloc = false ∨ e.pduRc = -1 ∨ e.msgAlloc (sizeT e.msglen) = false ∨
      e.valAlloc (sizeT e.vallen) = false ∨ e.bodyRc (sizeT e.msglen) (sizeT e.vallen) = -1 := by
  unfold recvmsgRead
  dsimp only
  split_ifs <;> simp_all

theorem recvmsgAsks_in_order : recvmsgAsks e <+:
    [.malloc (sizeT e.msglen), .malloc (sizeT e.vallen),
      .receive [sizeT e.msglen, sizeT e.vallen]] := by
  unfold recvmsgAsks
  dsimp only
  split_ifs
  · exact List.nil_prefix
  · exact List.nil_prefix
  · exact List.prefix_rfl
  · exact List.prefix_append [_, _] _
  · exact List.prefix_append [_] _

/-- With a header and enough memory, everything is asked for. -/
theorem recvmsgAsks_of_granted (hkiov : e.kiovAlloc = true) (hpdu : e.pduAlloc = true)
    (hrc : e.pduRc ≠ -1) (hmsg : e.msgAlloc (sizeT e.msglen) = true)
    (hval : e.valAlloc (sizeT e.vallen) = true) : recvmsgAsks e =
      [.malloc (sizeT e.msglen), .malloc (sizeT e.vallen),
        .receive [sizeT e.msglen, sizeT e.vallen]] := by
  unfold recvmsgAsks
  simp [hkiov, hpdu, hrc, hmsg, hval]

/-- The helpers, asked about a header of the right length. -/
theorem helpers_of_header {hdr : List Byte} (h : hdr.length = kpPlength) :
    kiMsglen hdr = toInt (unpackPdu hdr).kpMsglen ∧
      kiVallen hdr = toInt (unpackPdu hdr).kpVallen := by
  unfold kiMsglen kiVallen
  rw [if_neg (not_not.mpr h), if_neg (not_not.mpr h)]
  exact ⟨rfl, rfl⟩

/-- A server that answers with a PDU for a message of 2³¹ bytes. -/
def hugeHeader : List Byte := packPdu { kpMagic := 70, kpMsglen := 2 ^ 31, kpVallen := 5 }

/-- An allocator with the bound, and a driver that always succeeds. -/
def mallocEnv : RecvEnv where
  kiovAlloc := true
  pduAlloc := true
  pduRc := 9
  msglen := 0
  vallen := 0
  msgAlloc n := decide (n < 2 ^ 63)
  valAlloc n := decide (n < 2 ^ 63)
  bodyRc m v := m + v
  aseq := 1
  msg := 0

end Lengths

end Libkinetic.Kinetic
