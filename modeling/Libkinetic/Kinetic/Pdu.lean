import Libkinetic.Base.Words
import Libkinetic.Kinetic.Wire

/-! # The PDU on the hosts of both kinds

`PACK_PDU` and `UNPACK_PDU` as the macros are written, with their shifts and masks, for a host that
keeps the least significant byte of a word first and for one that keeps it last. The shifts do not
depend on the order of the bytes in memory, but `htonl` does. -/

namespace Libkinetic.Kinetic.Pdu

open Libkinetic.Base.Words

/-! ### The macros -/

inductive Host
  | littleEndian | bigEndian
deriving DecidableEq

/-- `htonl` -/
def Host.htonl : Host → BitVec 32 → BitVec 32
  | .littleEndian, d => bswap d
  | .bigEndian, d => d

/-- `ntohl` -/
def Host.ntohl : Host → BitVec 32 → BitVec 32
  | .littleEndian, d => bswap d
  | .bigEndian, d => d

/-- `kpdu_t` -/
structure Kpdu where
  kpMagic : BitVec 8
  kpMsglen : BitVec 32
  kpVallen : BitVec 32
deriving DecidableEq

/-- The bytes of a packed PDU. -/
abbrev Packed := Vector (BitVec 8) 9

/-- A byte is promoted to an `int`, which has the bits of the unsigned word. -/
def int (b : BitVec 8) : BitVec 32 := b.setWidth 32

/-- `UNPACK_PDU` -/
def unpackPdu (host : Host) (p : Packed) : Kpdu where
  kpMagic := p[0]
  kpMsglen := host.ntohl (int p[4] <<< 24 ||| int p[3] <<< 16 ||| int p[2] <<< 8 ||| int p[1])
  kpVallen := host.ntohl (int p[8] <<< 24 ||| int p[7] <<< 16 ||| int p[6] <<< 8 ||| int p[5])

/-- `PACK_PDU` -/
def packPdu (host : Host) (pdu : Kpdu) : Packed :=
  let d := host.htonl pdu.kpMsglen
  let d' := host.htonl pdu.kpVallen
  #v[pdu.kpMagic,
    (d &&& 0x000000ff#32).setWidth 8, ((d &&& 0x0000ff00#32) >>> 8).setWidth 8,
    ((d &&& 0x00ff0000#32) >>> 16).setWidth 8, ((d &&& 0xff000000#32) >>> 24).setWidth 8,
    (d' &&& 0x000000ff#32).setWidth 8, ((d' &&& 0x0000ff00#32) >>> 8).setWidth 8,
    ((d' &&& 0x00ff0000#32) >>> 16).setWidth 8, ((d' &&& 0xff000000#32) >>> 24).setWidth 8]

/-- The layout on the wire: the magic number, and the lengths with the most significant byte first. -/
def networkBytes (pdu : Kpdu) : Packed :=
  #v[pdu.kpMagic,
    byte pdu.kpMsglen 3, byte pdu.kpMsglen 2, byte pdu.kpMsglen 1, byte pdu.kpMsglen 0,
    byte pdu.kpVallen 3, byte pdu.kpVallen 2, byte pdu.kpVallen 1, byte pdu.kpVallen 0]

/-! ### Round trips -/

section RoundTrips
variable (host : Host) (pdu : Kpdu) (p : Packed)

theorem ntohl_htonl (d : BitVec 32) : host.ntohl (host.htonl d) = d := by
  cases host
  · exact bswap_bswap d
  · rfl

theorem htonl_ntohl (d : BitVec 32) : host.htonl (host.ntohl d) = d := by
  cases host
  · exact bswap_bswap d
  · rfl

/-- What is packed, byte by byte. -/
theorem packPdu_eq : packPdu host pdu =
    #v[pdu.kpMagic,
      byte (host.htonl pdu.kpMsglen) 0, byte (host.htonl pdu.kpMsglen) 1,
      byte (host.htonl pdu.kpMsglen) 2, byte (host.htonl pdu.kpMsglen) 3,
      byte (host.htonl pdu.kpVallen) 0, byte (host.htonl pdu.kpVallen) 1,
      byte (host.htonl pdu.kpVallen) 2, byte (host.htonl pdu.kpVallen) 3] := by
  unfold packPdu
  simp only [mask_zero, mask_one, mask_two, mask_three]

theorem unpackPdu_eq : unpackPdu host p =
    { kpMagic := p[0]
      kpMsglen := host.ntohl (join p[4] p[3] p[2] p[1])
      kpVallen := host.ntohl (join p[8] p[7] p[6] p[5]) } := rfl

/-- **On both hosts** the PDU is read back. -/
theorem unpackPdu_packPdu : unpackPdu host (packPdu host pdu) = pdu := by
  rw [packPdu_eq, unpackPdu_eq]
  show Kpdu.mk pdu.kpMagic (host.ntohl (join _ _ _ _)) (host.ntohl (join _ _ _ _)) = pdu
  simp [join_byte, ntohl_htonl]

theorem packPdu_unpackPdu : packPdu host (unpackPdu host p) = p := by
  rw [packPdu_eq, unpackPdu_eq]
  simp only [htonl_ntohl, byte_join_zero, byte_join_one, byte_join_two, byte_join_three]
  ext i hi
  interval_cases i <;> rfl

end RoundTrips

/-! ### The layout on the wire -/

/-- The bytes of a word read the same in both directions. -/
def Palindromic (d : BitVec 32) : Prop := bswap d = d

instance (d : BitVec 32) : Decidable (Palindromic d) := inferInstanceAs (Decidable (bswap d = d))

/-- A word is stored in network order exactly if `htonl` swaps its bytes. -/
theorem bytes_network_iff (d d' : BitVec 32) :
    (byte d' 0 = byte d 3 ∧ byte d' 1 = byte d 2 ∧ byte d' 2 = byte d 1 ∧ byte d' 3 = byte d 0) ↔
      d' = bswap d := by
  obtain ⟨h0, h1, h2, h3⟩ := byte_bswap d
  rw [← h0, ← h1, ← h2, ← h3]
  constructor
  · rintro ⟨e0, e1, e2, e3⟩
    exact eq_of_byte e0 e1 e2 e3
  · rintro rfl
    exact ⟨rfl, rfl, rfl, rfl⟩

/-- **The packed bytes** are those of the wire if `htonl` swaps the bytes of both lengths. -/
theorem packPdu_network_iff (host : Host) (pdu : Kpdu) : packPdu host pdu = networkBytes pdu ↔
    host.htonl pdu.kpMsglen = bswap pdu.kpMsglen ∧
      host.htonl pdu.kpVallen = bswap pdu.kpVallen := by
  rw [← bytes_network_iff, ← bytes_network_iff, packPdu_eq, networkBytes]
  simp only [Vector.mk.injEq, Array.mk.injEq, List.cons.injEq, true_and, and_true, and_assoc]

theorem htonl_eq_bswap_iff (host : Host) (d : BitVec 32) :
    host.htonl d = bswap d ↔ host = .littleEndian ∨ Palindromic d := by
  cases host
  · exact iff_of_true rfl (.inl rfl)
  · unfold Palindromic Host.htonl
    simp [eq_comm]

/-- **A PDU on the wire**: both round trips hold on both hosts, and the bytes are the magic number
and the lengths, most significant byte first, if and only if the host is little-endian or the lengths
have the same bytes in both orders. -/
theorem pdu_wire_iff (host : Host) (pdu : Kpdu) (p : Packed) :
    (unpackPdu host (packPdu host pdu) = pdu ∧ packPdu host pdu = networkBytes pdu ∧
        packPdu host (unpackPdu host p) = p) ↔
      host = .littleEndian ∨ Palindromic pdu.kpMsglen ∧ Palindromic pdu.kpVallen := by
  rw [packPdu_network_iff, htonl_eq_bswap_iff, htonl_eq_bswap_iff, or_and_left]
  constructor
  · rintro ⟨-, h, -⟩
    exact h
  · intro h
    exact ⟨unpackPdu_packPdu host pdu, h, packPdu_unpackPdu host p⟩

/-- **A big-endian host** sends the lengths with the least significant byte first: a message of 50
bytes is announced as one of 50 · 2²⁴. -/
theorem bigEndian_reversed :
    packPdu .bigEndian ⟨0x46, 50, 0⟩ = #v[0x46, 50, 0, 0, 0, 0, 0, 0, 0] ∧
      packPdu .bigEndian ⟨0x46, 50, 0⟩ ≠ networkBytes ⟨0x46, 50, 0⟩ ∧
      unpackPdu .littleEndian (packPdu .bigEndian ⟨0x46, 50, 0⟩) = ⟨0x46, 0x32000000, 0⟩ := by
  decide

/-! ### The numbers of the PDU -/

/-- The lengths as numbers. -/
def Kpdu.wire (pdu : Kpdu) : Wire.Kpdu where
  kpMagic := pdu.kpMagic.toFin
  kpMsglen := pdu.kpMsglen.toNat
  kpVallen := pdu.kpVallen.toNat

section Numbers

theorem toNat_word (b3 b2 b1 b0 : BitVec 8) :
    (join b3 b2 b1 b0).toNat = Wire.word b0.toFin b1.toFin b2.toFin b3.toFin :=
  toNat_join b3 b2 b1 b0

theorem toFin_byte (d : BitVec 32) (n : ℕ) : (byte d n).toFin = Wire.wordByte d.toNat n :=
  Fin.ext (toNat_byte d n)

theorem toNat_bswap (d : BitVec 32) : (bswap d).toNat = Wire.htonl d.toNat := by
  rw [bswap, toNat_word]
  simp only [toFin_byte]
  rfl

/-- **On a little-endian host** the macros compute on the words what they compute on the numbers. -/
theorem packPdu_wire (pdu : Kpdu) :
    (packPdu .littleEndian pdu).toList.map BitVec.toFin = Wire.packPdu pdu.wire := by
  rw [packPdu_eq]
  simp only [Host.htonl, Wire.packPdu, Kpdu.wire, Wire.wordBytes, ← toNat_bswap, ← toFin_byte]
  rfl

theorem unpackPdu_wire (p : Packed) :
    (unpackPdu .littleEndian p).wire = Wire.unpackPdu (p.toList.map BitVec.toFin) := by
  have hget : ∀ (i : ℕ) (hi : i < 9), (p.toList.map BitVec.toFin).getD i 0 = p[i].toFin := by
    intro i hi
    simp [List.getD_eq_getElem?_getD, hi]
  rw [unpackPdu_eq]
  simp (disch := decide) only [Host.ntohl, Kpdu.wire, toNat_bswap, toNat_word, Wire.unpackPdu, hget]

end Numbers

end Libkinetic.Kinetic.Pdu
