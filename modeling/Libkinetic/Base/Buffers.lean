import Mathlib.Tactic

/-! # Pointers with their lengths

A pointer and the length that its owner states next to it. Where the pointer is null the length can
still be anything, and a program that reads as many bytes as it says has no outcome unless it says
none. Neither has a program that writes outside a buffer; `copyAll` writes pieces into one, one
after the other. -/

namespace Libkinetic.Base.Buffers

variable {α : Type*}

/-- A pointer with its length: null, or to as many elements. -/
inductive Buf (α : Type*)
  | null (len : ℕ)
  | ref (elems : List α)
deriving DecidableEq

namespace Buf

/-- The stated length. -/
def len : Buf α → ℕ
  | null n => n
  | ref elems => elems.length

def isNull : Buf α → Bool
  | null _ => true
  | ref _ => false

/-- What the pointer refers to. -/
def get? : Buf α → Option (List α)
  | null _ => none
  | ref elems => some elems

/-- The elements, none for a null pointer. -/
def elems (b : Buf α) : List α := b.get?.getD []

/-- Reading as many elements as are stated. -/
def read : Buf α → Option (List α)
  | null 0 => some []
  | null (_ + 1) => none
  | ref elems => some elems

/-- A null pointer comes with the length 0. -/
def Readable (b : Buf α) : Prop := b.isNull = true → b.len = 0

instance (b : Buf α) : Decidable b.Readable := inferInstanceAs (Decidable (_ → _))

@[simp] theorem elems_ref (l : List α) : (ref l).elems = l := rfl

@[simp] theorem elems_null (n : ℕ) : (null n : Buf α).elems = [] := rfl

theorem read_eq {b : Buf α} (h : b.Readable) : b.read = some b.elems := by
  cases b with
  | null n =>
    obtain rfl : n = 0 := h rfl
    rfl
  | ref l => rfl

theorem read_eq_none {b : Buf α} (h : ¬ b.Readable) : b.read = none := by
  cases b with
  | null n =>
    cases n with
    | zero => exact absurd (fun _ => rfl) h
    | succ n => rfl
  | ref l => exact absurd (fun h => by cases h) h

theorem readable_of_not_null {b : Buf α} (h : b.isNull = false) : b.Readable := by
  intro hnull
  rw [h] at hnull
  cases hnull

end Buf

/-! ### Several pointers -/

/-- Reading one pointer after the other. -/
def readAll (l : List (Buf α)) : Option (List α) := (l.mapM Buf.read).map List.flatten

theorem readAll_eq : ∀ {l : List (Buf α)}, (∀ b ∈ l, b.Readable) →
    readAll l = some (l.map Buf.elems).flatten
  | [], _ => rfl
  | b :: l, h => by
    have ih := readAll_eq fun b' hb' => h b' (List.mem_cons_of_mem b hb')
    obtain ⟨parts, hparts, hflat⟩ := Option.map_eq_some_iff.mp ih
    rw [readAll, List.mapM_cons, Buf.read_eq (h b List.mem_cons_self), hparts]
    simp only [Option.bind_eq_bind, Option.bind_some, Option.pure_def, Option.map_some,
      List.flatten_cons, List.map_cons, hflat]

theorem readAll_eq_none : ∀ {l : List (Buf α)}, (¬ ∀ b ∈ l, b.Readable) → readAll l = none
  | [], h => absurd (fun b hb => by cases hb) h
  | b :: l, h => by
    rw [readAll, List.mapM_cons]
    by_cases hb : b.Readable
    · have hrest : ¬ ∀ b' ∈ l, b'.Readable := by
        rw [List.forall_mem_cons, and_iff_right hb] at h
        exact h
      have ih := Option.map_eq_none_iff.mp (readAll_eq_none hrest)
      rw [Buf.read_eq hb, ih]
      rfl
    · rw [Buf.read_eq_none hb]
      rfl

/-- A pointer that may be left out. -/
def readOptional : Option (Buf α) → Option (Option (List α))
  | none => some none
  | some b => b.read.map some

theorem readOptional_some {b : Buf α} (h : b.Readable) :
    readOptional (some b) = some (some b.elems) := by
  rw [readOptional, Buf.read_eq h]
  rfl

theorem readable_of_readOptional {b : Buf α} {l : Option (List α)}
    (h : readOptional (some b) = some l) : b.Readable := by
  by_contra hb
  rw [readOptional, Buf.read_eq_none hb] at h
  cases h

/-! ### Writing into a buffer -/

/-- The elements `l` written at an offset. -/
def writeAt (buf : List α) (off : ℤ) (l : List α) : Option (List α) :=
  if l.length = 0 then some buf
  else if 0 ≤ off ∧ off + l.length ≤ buf.length then
    some (buf.take off.toNat ++ l ++ buf.drop (off.toNat + l.length))
  else none

/-- Pieces written one after the other, from an offset on. -/
def copyAll (buf : List α) : ℕ → List (List α) → Option (List α)
  | _, [] => some buf
  | off, l :: ls => (writeAt buf off l).bind fun buf => copyAll buf (off + l.length) ls

theorem writeAt_append (done old l rest : List α) (h : old.length = l.length) :
    writeAt (done ++ (old ++ rest)) done.length l = some (done ++ (l ++ rest)) := by
  unfold writeAt
  split_ifs with hl hfit
  · obtain rfl := List.length_eq_zero_iff.mp hl
    obtain rfl := List.length_eq_zero_iff.mp h
    rfl
  · have htake : (done ++ (old ++ rest)).take done.length = done := List.take_left
    have hdrop : (done ++ (old ++ rest)).drop (done.length + l.length) = rest := by
      rw [← List.append_assoc, ← h, ← List.length_append]
      exact List.drop_left
    rw [Int.toNat_natCast, htake, hdrop, List.append_assoc]
  · refine absurd ⟨Int.natCast_nonneg _, ?_⟩ hfit
    simp only [List.length_append, h]
    push_cast
    omega

theorem length_writeAt {buf buf' l : List α} {off : ℤ} (h : writeAt buf off l = some buf') :
    buf'.length = buf.length := by
  unfold writeAt at h
  split_ifs at h with hl hfit
  · exact congrArg List.length (Option.some.inj h).symm
  · rw [← Option.some.inj h]
    simp only [List.length_append, List.length_take, List.length_drop]
    omega

/-- **Pieces that fit** replace as much of the buffer as they have elements. -/
theorem copyAll_eq (done rest : List α) (ls : List (List α)) (h : ls.flatten.length ≤ rest.length) :
    copyAll (done ++ rest) done.length ls =
      some (done ++ (ls.flatten ++ rest.drop ls.flatten.length)) := by
  induction ls generalizing done rest with
  | nil => rfl
  | cons l ls ih =>
    rw [List.flatten_cons, List.length_append] at h
    have hsplit : rest = rest.take l.length ++ rest.drop l.length := (List.take_append_drop _ _).symm
    have htake : (rest.take l.length).length = l.length := by
      rw [List.length_take]
      omega
    have hstep : writeAt (done ++ rest) done.length l =
        some ((done ++ l) ++ rest.drop l.length) := by
      rw [List.append_assoc]
      conv_lhs => rw [hsplit]
      exact writeAt_append done _ l _ htake
    rw [copyAll, hstep, Option.bind_some, ← List.length_append,
      ih _ _ (by rw [List.length_drop]; omega)]
    simp only [List.flatten_cons, List.append_assoc, List.length_append, List.drop_drop]

/-- Pieces that do not fit are written past the end. -/
theorem copyAll_eq_none (buf : List α) (off : ℕ) (ls : List (List α)) (hoff : off ≤ buf.length)
    (h : buf.length < off + ls.flatten.length) : copyAll buf off ls = none := by
  induction ls generalizing buf off with
  | nil => simp at h; omega
  | cons l ls ih =>
    rw [List.flatten_cons, List.length_append] at h
    rw [copyAll]
    cases hw : writeAt buf off l with
    | none => rfl
    | some buf' =>
      have hlen := length_writeAt hw
      refine ih buf' (off + l.length) ?_ (by omega)
      unfold writeAt at hw
      split_ifs at hw with hl hfit
      · omega
      · omega

end Libkinetic.Base.Buffers
