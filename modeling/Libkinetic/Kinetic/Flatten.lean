import Libkinetic.Base.Buffers
import Libkinetic.Kinetic.Exec
import Libkinetic.Kinetic.Validate

/-! # Flattening a key

Three loops copy the elements of a key one after the other: `keyname_to_proto`, `ki_keydupf`, and the
two of `create_exec_message`. They differ in what they count in, and in what they copy with. The
allocator is taken to give every buffer that is not larger than half of the address space, and its
memory is not initialised; a loop that writes past its buffer, or counts past the largest `int`, has
no result. -/

namespace Libkinetic.Kinetic.Flatten

open Libkinetic.Base.Buffers
open Validate (keySize sumLens)

/-- A buffer from the allocator, with what its memory holds. -/
def kiMalloc (fresh : ℕ → Byte) (n : ℕ) : List Byte := (List.range n).map fresh

@[simp] theorem length_kiMalloc (fresh : ℕ → Byte) (n : ℕ) : (kiMalloc fresh n).length = n := by
  simp [kiMalloc]

/-! ### The loops -/

/-- `keyname_to_proto`, of elements that can be read. -/
def keynameToProto (fresh : ℕ → Byte) (keynames : Keyvec) : Option Key :=
  let totalKeylen := keySize keynames % 2 ^ 64
  copyAll (kiMalloc fresh totalKeylen) 0 keynames

/-- `ki_keydupf`: the length is an `int`, and a negative one is more than the allocator has. -/
def kiKeydupf (fresh : ℕ → Byte) (key : Keyvec) : Option (Option Keyvec) :=
  if key = [] then some none
  else do
    let klen ← sumLens 0 0 key
    if klen < 0 then some none
    else
      let kbuf ← copyAll (kiMalloc fresh klen.toNat) 0 key
      some (some [kbuf])

/-- The loop of `create_exec_message` that copies a key, with the counter `j` and the offset `len`,
which are of type `int`. -/
def execCopy : ℕ → ℤ → List Byte → Keyvec → Option (List Byte)
  | _, _, data, [] => some data
  | j, len, data, iov :: key =>
    if j + 1 < 2 ^ 31 then do
      let data ← writeAt data len (strncpy iov)
      execCopy (j + 1) (int32 (len + iov.length)) data key
    else none

/-- What `create_exec_message` does with a key: its length, a buffer of that length, the copy. -/
def execKey (fresh : ℕ → Byte) (key : Keyvec) : Option Key :=
  execCopy 0 0 (kiMalloc fresh (keySize key % 2 ^ 64)) key

/-- The keys that `create_exec_message` puts into the body. -/
def execKeys (fresh : ℕ → Byte) (fnkey : List Keyvec) (outkey : Option Keyvec) :
    Option (List Key × Option Key) := do
  let progkey ← fnkey.mapM (execKey fresh)
  match outkey with
  | none => some (progkey, none)
  | some key =>
    let outputkey ← execKey fresh key
    some (progkey, some outputkey)

/-- **The three ways give the concatenation of the elements**, whatever was in the memory. -/
structure FlattensAlike (key : Keyvec) : Prop where
  exec : ∀ fresh, execKeys fresh [key] (some key) = some ([key.flatten], some key.flatten)
  proto : ∀ fresh, keynameToProto fresh key = some key.flatten
  keydupf : ∀ fresh, kiKeydupf fresh key = some (some [key.flatten])

/-- Behind a zero byte there are zero bytes only. -/
def ZerosLast (b : List Byte) : Prop := ∀ c ∈ b.dropWhile (· ≠ 0), c = 0

instance (b : List Byte) : Decidable (ZerosLast b) := inferInstanceAs (Decidable (∀ c ∈ _, c = 0))

section Flatten
variable {key : Keyvec} {b : List Byte} {fresh : ℕ → Byte}

theorem length_flatten_eq (key : Keyvec) : key.flatten.length = keySize key := List.length_flatten

/-! ### strncpy -/

@[simp] theorem length_strncpy (b : List Byte) : (strncpy b).length = b.length := by
  have hle : (b.takeWhile (· ≠ 0)).length ≤ b.length := (List.takeWhile_prefix _).length_le
  simp only [strncpy, List.length_append, List.length_replicate]
  omega

/-- **A string function copies a buffer** just if nothing but zeros follow a zero. -/
theorem strncpy_eq_self_iff (b : List Byte) : strncpy b = b ↔ ZerosLast b := by
  have hsplit : b.takeWhile (· ≠ 0) ++ b.dropWhile (· ≠ 0) = b := List.takeWhile_append_dropWhile
  have hlen : b.length - (b.takeWhile (· ≠ 0)).length = (b.dropWhile (· ≠ 0)).length := by
    have hsum := congrArg List.length hsplit
    rw [List.length_append] at hsum
    omega
  unfold ZerosLast
  rw [← List.eq_replicate_length, ← hlen]
  unfold strncpy
  constructor
  · intro h
    refine (List.append_right_inj (b.takeWhile (· ≠ 0))).mp ?_
    rw [hsplit]
    exact h.symm
  · intro h
    conv_rhs => rw [← hsplit, h]

theorem keySize_strncpy (key : Keyvec) : keySize (key.map strncpy) = keySize key := by
  simp [keySize, List.map_map, Function.comp_def]

theorem flatten_strncpy_eq_iff (key : Keyvec) :
    (key.map strncpy).flatten = key.flatten ↔ ∀ b ∈ key, ZerosLast b := by
  induction key with
  | nil => simp
  | cons b key ih =>
    rw [List.map_cons, List.flatten_cons, List.flatten_cons, List.forall_mem_cons, ← ih,
      ← strncpy_eq_self_iff]
    constructor
    · intro h
      exact List.append_inj h (length_strncpy b)
    · rintro ⟨hb, hkey⟩
      rw [hb, hkey]

/-! ### Copies that fit -/

theorem copyAll_kiMalloc (fresh : ℕ → Byte) (ls : Keyvec) :
    copyAll (kiMalloc fresh (keySize ls)) 0 ls = some ls.flatten := by
  have hfit : ls.flatten.length = (kiMalloc fresh (keySize ls)).length := by
    rw [length_flatten_eq, length_kiMalloc]
  have hall := copyAll_eq [] (kiMalloc fresh (keySize ls)) ls hfit.le
  rw [hfit, List.drop_length, List.append_nil] at hall
  exact hall

theorem keynameToProto_eq (h : keySize key < 2 ^ 64) :
    keynameToProto fresh key = some key.flatten := by
  rw [keynameToProto, Nat.mod_eq_of_lt h]
  exact copyAll_kiMalloc fresh key

/-- As long as the offset is not negative, the loop copies as the others do. -/
theorem execCopy_eq (j off : ℕ) (data : List Byte) (key : Keyvec) (hj : j + key.length < 2 ^ 31)
    (hoff : off + keySize key < 2 ^ 31) :
    execCopy j off data key = copyAll data off (key.map strncpy) := by
  induction key generalizing j off data with
  | nil => rfl
  | cons iov key ih =>
    rw [List.length_cons] at hj
    have hsize : keySize (iov :: key) = iov.length + keySize key := List.sum_cons
    have hnext : int32 ((off : ℤ) + iov.length) = ((off + iov.length : ℕ) : ℤ) := by
      rw [← Nat.cast_add]
      exact int32_of_lt (by omega)
    rw [execCopy, if_pos (by omega), hnext, List.map_cons, copyAll, length_strncpy,
      Option.bind_eq_bind]
    refine Option.bind_congr fun data' _ => ?_
    exact ih (j + 1) (off + iov.length) data' (by omega) (by omega)

theorem execCopy_eq_none (j : ℕ) (len : ℤ) (data : List Byte) (key : Keyvec) (hne : key ≠ [])
    (hj : 2 ^ 31 ≤ j + key.length) : execCopy j len data key = none := by
  induction key generalizing j len data with
  | nil => exact absurd rfl hne
  | cons iov key ih =>
    rw [execCopy]
    split_ifs with hlt
    · cases hw : writeAt data len (strncpy iov) with
      | none => rfl
      | some data' =>
        rw [List.length_cons] at hj
        have hkey : key ≠ [] := by
          rintro rfl
          rw [List.length_nil] at hj
          omega
        exact ih (j + 1) _ data' hkey (by omega)
    · rfl

/-- The key of an applet, as the model of the request has it. -/
theorem execKey_eq (hcnt : key.length < 2 ^ 31) (hsize : keySize key < 2 ^ 31) :
    execKey fresh key = some (key.map strncpy).flatten := by
  have hmod : keySize key % 2 ^ 64 = keySize (key.map strncpy) := by
    rw [keySize_strncpy]
    exact Nat.mod_eq_of_lt (by omega)
  rw [execKey, hmod]
  refine (execCopy_eq 0 0 _ key (by omega) (by omega)).trans ?_
  exact copyAll_kiMalloc fresh _

theorem copyKey_eq {kv : Kv} (hcnt : (fragments (kv.kvKey.getD [])).length < 2 ^ 31)
    (hsize : keySize (fragments (kv.kvKey.getD [])) < 2 ^ 31) :
    execKey fresh (fragments (kv.kvKey.getD [])) = some (copyKey kv) := execKey_eq hcnt hsize

theorem kiKeydupf_eq (hne : key ≠ []) (hcnt : key.length < 2 ^ 31) (hsize : keySize key < 2 ^ 31) :
    kiKeydupf fresh key = some (Kinetic.kiKeydupf key) := by
  have hlen : sumLens 0 0 key = some (keySize key : ℤ) := by
    rw [Validate.sumLens_eq hcnt, int32_of_lt hsize]
  have hpos : ¬ (keySize key : ℤ) < 0 := by omega
  rw [kiKeydupf, if_neg hne, hlen, Option.bind_eq_bind, Option.bind_some, if_neg hpos,
    Int.toNat_natCast, copyAll_kiMalloc, Kinetic.kiKeydupf, if_neg hne]
  rfl

/-! ### Keys that are too long -/

/-- The length of a long key is negative or too small. -/
theorem kiKeydupf_long (hne : key ≠ []) (hcnt : key.length < 2 ^ 31) (hsize : 2 ^ 31 ≤ keySize key) :
    kiKeydupf fresh key = some none ∨ kiKeydupf fresh key = none := by
  rw [kiKeydupf, if_neg hne, Validate.sumLens_eq hcnt, Option.bind_eq_bind, Option.bind_some]
  split_ifs with hneg
  · exact .inl rfl
  · have hmod : int32 (keySize key) = (keySize key : ℤ) % 2 ^ 32 := by
      have hcast := Validate.uint32_int32 (keySize key)
      have hlt : int32 (keySize key) < 2 ^ 31 := Int.bmod_lt (by decide)
      unfold uint32 at hcast
      omega
    have hshort : (int32 (keySize key)).toNat < keySize key := by
      have hlt : int32 (keySize key) < 2 ^ 31 := Int.bmod_lt (by decide)
      omega
    refine .inr ?_
    rw [copyAll_eq_none _ 0 key (Nat.zero_le _)]
    · rfl
    · rw [length_kiMalloc, length_flatten_eq]
      omega

theorem execKeys_pair (h : execKey fresh key = some b) :
    execKeys fresh [key] (some key) = some ([b], some b) := by
  rw [execKeys, List.mapM_cons, h]
  simp only [h, List.mapM_nil, Option.pure_def, Option.bind_eq_bind, Option.bind_some]

theorem execKey_of_pair {p : List Key × Option Key}
    (h : execKeys fresh [key] (some key) = some p) :
    ∃ b, execKey fresh key = some b ∧ p = ([b], some b) := by
  cases hb : execKey fresh key with
  | none =>
    rw [execKeys, List.mapM_cons, hb] at h
    cases h
  | some b =>
    rw [execKeys_pair hb, Option.some.injEq] at h
    exact ⟨b, rfl, h.symm⟩

/-- **When the ways agree**: there are elements, fewer than 2^31 with less than 2^31 bytes, and no
element has a zero byte with another byte behind it. -/
theorem flattens_alike_iff (key : Keyvec) : FlattensAlike key ↔
    key ≠ [] ∧ key.length < 2 ^ 31 ∧ keySize key < 2 ^ 31 ∧ ∀ b ∈ key, ZerosLast b := by
  constructor
  · rintro ⟨hexec, -, hdup⟩
    have hne : key ≠ [] := by
      rintro rfl
      cases hdup fun _ => 0
    obtain ⟨b, hb, hpair⟩ := execKey_of_pair (hexec fun _ => 0)
    obtain rfl : key.flatten = b := (List.singleton_injective (congrArg Prod.fst hpair))
    have hcnt : key.length < 2 ^ 31 := by
      by_contra hlong
      rw [execKey, execCopy_eq_none 0 0 _ key hne (by omega)] at hb
      cases hb
    have hsize : keySize key < 2 ^ 31 := by
      by_contra hlong
      have hdup0 : kiKeydupf (fun _ => 0) key = some (some [key.flatten]) := hdup fun _ => 0
      rcases kiKeydupf_long hne hcnt (not_lt.mp hlong) with hnull | hnone
      · rw [hnull] at hdup0
        cases hdup0
      · rw [hnone] at hdup0
        cases hdup0
    refine ⟨hne, hcnt, hsize, (flatten_strncpy_eq_iff key).mp ?_⟩
    exact Option.some.inj ((execKey_eq hcnt hsize).symm.trans hb)
  · rintro ⟨hne, hcnt, hsize, hzeros⟩
    refine ⟨fun fresh => execKeys_pair ?_, fun fresh => keynameToProto_eq (by omega),
      fun fresh => ?_⟩
    · rw [execKey_eq hcnt hsize, (flatten_strncpy_eq_iff key).mpr hzeros]
    · rw [kiKeydupf_eq hne hcnt hsize, Kinetic.kiKeydupf, if_neg hne]

/-- **A key with a zero byte** is looked up under another one: `[1, 0, 2]` under `[1, 0, 0]`. -/
theorem zero_byte_lost :
    execKey (fun _ => 0) [[1, 0, 2]] = some [1, 0, 0] ∧ ¬ FlattensAlike [[1, 0, 2]] := by
  have hexec : execKey (fun _ => 0) [[1, 0, 2]] = some [1, 0, 0] := by decide
  refine ⟨hexec, fun h => ?_⟩
  have hpair := h.exec fun _ => 0
  rw [execKeys_pair hexec] at hpair
  revert hpair
  decide

end Flatten

end Libkinetic.Kinetic.Flatten
