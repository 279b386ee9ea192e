import Libkinetic.Kinetic.Flatten
import Libkinetic.Kinetic.Rangedup

/-! # Putting keys together

`ki_keyprepend` and `ki_keyappend` make room for one more element in the array of a key, and
`ki_keydup` and `ki_keydupf` copy one. The array of a key, which has 16 bytes for each element, takes
no more than half of the address space; the new elements behind `KI_REALLOC` hold nothing that can be
read. A key stands for the bytes of its elements, one after the other, and a series of the calls puts
bytes in front and behind. -/

namespace Libkinetic.Kinetic.Keyops

open Libkinetic.Base.Blocks
open Rangedup (Iov Vec)

/-! ### The functions -/

def maxkeylen : ℕ := 4096

/-- The array that `KI_REALLOC` gives. -/
def kiRealloc (key : Keyvec) (newcnt : ℕ) : List (Option Key) :=
  key.map some ++ List.replicate (newcnt - key.length) none

/-- The loop that moves the elements, from the last index down to 1. -/
def shiftLoop : ℕ → List (Option Key) → List (Option Key)
  | 0, new => new
  | i + 1, new => shiftLoop i (new.set (i + 1) (new.getD i none))

/-- What can be read as a key: every element is written. -/
def written (new : List (Option Key)) : Option Keyvec := new.mapM id

/-- **`ki_keyprepend`**: `got` says whether there is a new array; without one the null pointer is
written through, as it is the old pointer that is looked at. The index is an `int`. -/
def kiKeyprepend (got : Bool) (key : Option Keyvec) (keybuf : Option Key) : Option (Option Keyvec) :=
  match key, keybuf with
  | some key, some keybuf =>
    if maxkeylen < keybuf.length then some none
    else if ¬ got then none
    else
      let newcnt := key.length + 1
      let i := int32 ((newcnt : ℤ) - 1)
      let new := shiftLoop i.toNat (kiRealloc key newcnt)
      (written (new.set 0 (some keybuf))).map some
  | _, _ => some none

/-- **`ki_keyappend`** -/
def kiKeyappend (got : Bool) (key : Option Keyvec) (keybuf : Option Key) : Option (Option Keyvec) :=
  match key, keybuf with
  | some key, some keybuf =>
    if maxkeylen < keybuf.length then some none
    else if ¬ got then none
    else
      let newcnt := key.length + 1
      (written ((kiRealloc key newcnt).set (newcnt - 1) (some keybuf))).map some
  | _, _ => some none

/-- The elements of a vector. -/
def iovBytes (v : Vec) : Keyvec := v.iov.map Iov.bytes

/-! ### Series -/

inductive Op
  | prepend (keybuf : Key)
  | append (keybuf : Key)
  | dup
  | dupf

/-- A call that gets its memory. -/
def Op.run (fresh : ℕ → Byte) (key : Keyvec) (h : Heap) : Op → Option (Option Keyvec × Heap)
  | .prepend keybuf => (kiKeyprepend true (some key) (some keybuf)).map (·, h)
  | .append keybuf => (kiKeyappend true (some key) (some keybuf)).map (·, h)
  | .dup => (Rangedup.kiKeydup (fun _ => true) (some key) h).map fun r => (r.1.map iovBytes, r.2)
  | .dupf => (Flatten.kiKeydupf fresh key).map (·, h)

/-- Calls one after the other, each with the key that the one before it returned. -/
def runOps (fresh : ℕ → Byte) : List Op → Keyvec → Heap → Option (Option Keyvec × Heap)
  | [], key, h => some (some key, h)
  | op :: ops, key, h =>
    match op.run fresh key h with
    | some (some key, h) => runOps fresh ops key h
    | r => r

/-- What the key stands for behind a call. -/
def Op.denotes (d : Key) : Op → Key
  | .prepend keybuf => keybuf ++ d
  | .append keybuf => d ++ keybuf
  | .dup => d
  | .dupf => d

/-- How many elements it has. -/
def Op.count (n : ℕ) : Op → ℕ
  | .prepend _ => n + 1
  | .append _ => n + 1
  | .dup => n
  | .dupf => 1

/-- The buffer is not longer than a key may be. -/
def Op.Fits : Op → Prop
  | .prepend keybuf => keybuf.length ≤ maxkeylen
  | .append keybuf => keybuf.length ≤ maxkeylen
  | .dup => True
  | .dupf => True

/-- What is copied has an element, and an `int` holds what is counted in one. -/
def Op.Ready (n : ℕ) (d : Key) : Op → Prop
  | .prepend _ => n < 2 ^ 31
  | .append _ => True
  | .dup => 0 < n ∧ n < 2 ^ 31
  | .dupf => 0 < n ∧ n < 2 ^ 31 ∧ d.length < 2 ^ 31

/-- Every call of a series is ready for the key it gets. -/
def AllReady : List Op → ℕ → Key → Prop
  | [], _, _ => True
  | op :: ops, n, d => op.Ready n d ∧ AllReady ops (op.count n) (op.denotes d)

section Keyops
variable {fresh : ℕ → Byte} {key : Keyvec} {keybuf : Key} {h : Heap} {op : Op} {ops : List Op}

theorem written_map_some (key : Keyvec) : written (key.map some) = some key := by
  rw [written]
  induction key with
  | nil => rfl
  | cons b key ih =>
    rw [List.map_cons, List.mapM_cons, ih]
    rfl

/-- **The elements are moved by one**, and what was in the last place is lost. -/
theorem shiftLoop_eq (l t : List (Option Key)) (y b : Option Key) :
    (shiftLoop l.length (l ++ y :: t)).set 0 b = b :: (l ++ t) := by
  induction l using List.reverseRecOn generalizing y t with
  | nil => rfl
  | append_singleton l a ih =>
    have hget : (l ++ [a] ++ y :: t).getD l.length none = a := by
      simp [List.getD_eq_getElem?_getD]
    have hset : (l ++ [a] ++ y :: t).set (l.length + 1) a = l ++ a :: a :: t := by
      simp
    rw [List.length_append, List.length_singleton, shiftLoop, hget, hset, ih]
    simp

theorem kiRealloc_succ (key : Keyvec) :
    kiRealloc key (key.length + 1) = key.map some ++ [none] := by
  rw [kiRealloc, Nat.add_sub_cancel_left, List.replicate_one]

/-- **`ki_keyprepend` puts the buffer in front.** -/
theorem kiKeyprepend_eq (hbuf : keybuf.length ≤ maxkeylen) (hcnt : key.length < 2 ^ 31) :
    kiKeyprepend true (some key) (some keybuf) = some (some (keybuf :: key)) := by
  have hindex : (int32 (((key.length + 1 : ℕ) : ℤ) - 1)).toNat = (key.map some).length := by
    rw [Nat.cast_add, Nat.cast_one, add_sub_cancel_right, int32_of_lt hcnt, List.length_map,
      Int.toNat_natCast]
  simp only [kiKeyprepend, if_neg (not_lt.mpr hbuf), not_true_eq_false, if_false, hindex,
    kiRealloc_succ, shiftLoop_eq, List.append_nil]
  rw [← List.map_cons, written_map_some]
  rfl

/-- **`ki_keyappend` puts it behind.** -/
theorem kiKeyappend_eq (hbuf : keybuf.length ≤ maxkeylen) :
    kiKeyappend true (some key) (some keybuf) = some (some (key ++ [keybuf])) := by
  have hset : (key.map some ++ [none]).set key.length (some keybuf) =
      (key ++ [keybuf]).map some := by
    simp
  simp only [kiKeyappend, if_neg (not_lt.mpr hbuf), not_true_eq_false, if_false, kiRealloc_succ,
    Nat.add_sub_cancel, hset, written_map_some, Option.map_some]

/-- **`ki_keydup` gives the same elements.** -/
theorem kiKeydup_bytes (hne : 0 < key.length) (hcnt : key.length < 2 ^ 31) :
    ∃ v h', Rangedup.kiKeydup (fun _ => true) (some key) h = some (some v, h') ∧ iovBytes v = key := by
  have hcopied : Rangedup.Copied (fun _ => true) h.calls (some key) := by
    refine ⟨fun hkey => ?_, hcnt, fun _ _ => rfl⟩
    obtain rfl := Option.some.inj hkey
    exact absurd hne (lt_irrefl _)
  obtain ⟨v, h', hrun, hsame, hsome, -, -⟩ := Rangedup.kiKeydup_copied hcopied
  obtain ⟨w, rfl⟩ := Option.isSome_iff_exists.mp hsome
  exact ⟨w, h', hrun, (hsame.copy w rfl).2⟩

/-- **A call** that is ready gives what it should. -/
theorem run_denotes (hfits : op.Fits) (hready : op.Ready key.length key.flatten) :
    ∃ key' h', op.run fresh key h = some (some key', h') ∧ key'.flatten = op.denotes key.flatten ∧
      key'.length = op.count key.length := by
  rcases op with keybuf | keybuf | _ | _
  · refine ⟨keybuf :: key, h, ?_, rfl, rfl⟩
    rw [Op.run, kiKeyprepend_eq hfits hready]
    rfl
  · refine ⟨key ++ [keybuf], h, ?_, ?_, List.length_append⟩
    · rw [Op.run, kiKeyappend_eq hfits]
      rfl
    · simp [Op.denotes]
  · obtain ⟨v, h', hrun, hbytes⟩ := kiKeydup_bytes (h := h) hready.1 hready.2
    refine ⟨key, h', ?_, rfl, rfl⟩
    rw [Op.run, hrun, Option.map_some, Option.map_some, hbytes]
  · obtain ⟨hpos, hcnt, hsize⟩ := hready
    have hne : key ≠ [] := List.length_pos_iff.mp hpos
    rw [Flatten.length_flatten_eq] at hsize
    refine ⟨[key.flatten], h, ?_, by simp [Op.denotes], rfl⟩
    rw [Op.run, Flatten.kiKeydupf_eq hne hcnt hsize, Kinetic.kiKeydupf, if_neg hne]
    rfl

theorem runOps_cons {key' : Keyvec} {h' : Heap} (hrun : op.run fresh key h = some (some key', h')) :
    runOps fresh (op :: ops) key h = runOps fresh ops key' h' := by
  rw [runOps, hrun]

/-- **A series of calls.** -/
theorem runOps_denotes (hfits : ∀ op ∈ ops, op.Fits)
    (hready : AllReady ops key.length key.flatten) :
    ∃ key' h', runOps fresh ops key h = some (some key', h') ∧
      key'.flatten = ops.foldl Op.denotes key.flatten ∧
      key'.length = ops.foldl Op.count key.length := by
  induction ops generalizing key h with
  | nil => exact ⟨key, h, rfl, rfl, rfl⟩
  | cons op ops ih =>
    obtain ⟨hop, hops⟩ := List.forall_mem_cons.mp hfits
    obtain ⟨key₁, h₁, hrun, hflat, hlen⟩ := run_denotes (h := h) hop hready.1
    have hrest := hready.2
    rw [← hflat, ← hlen] at hrest
    obtain ⟨key', h', hruns, hflat', hlen'⟩ := ih (h := h₁) hops hrest
    refine ⟨key', h', (runOps_cons hrun).trans hruns, ?_, ?_⟩
    · rw [hflat', hflat, List.foldl_cons]
    · rw [hlen', hlen, List.foldl_cons]

/-- A key without elements is not copied. -/
theorem run_empty :
    Op.dup.run fresh [] h = some (none, h) ∧ Op.dupf.run fresh [] h = some (none, h) :=
  ⟨rfl, rfl⟩

/-- **The calls put keys together**: each gives a key for the bytes that it should, and so does a
series of them, as long as no empty key is copied and every count stays an `int`. -/
theorem keyops_denote (fresh : ℕ → Byte) :
    (∀ h, Op.dup.run fresh [] h = some (none, h) ∧ Op.dupf.run fresh [] h = some (none, h)) ∧
      ∀ ops key h, (∀ op ∈ ops, op.Fits) → AllReady ops key.length key.flatten →
        ∃ key' h', runOps fresh ops key h = some (some key', h') ∧
          key'.flatten = ops.foldl Op.denotes key.flatten ∧
          key'.length = ops.foldl Op.count key.length :=
  ⟨fun _ => run_empty, fun _ _ _ hfits hready => runOps_denotes hfits hready⟩

/-- A key of one byte with one in front and one behind, copied into one element. -/
theorem series_denotes :
    ∃ key' h', runOps (fun _ => 0) [.prepend [1], .dup, .append [3], .dupf] [[2]] Heap.empty =
      some (some key', h') ∧ key'.flatten = [1, 2, 3] ∧ key'.length = 1 :=
  (keyops_denote fun _ => 0).2 [.prepend [1], .dup, .append [3], .dupf] [[2]] Heap.empty
    (by simp [Op.Fits, maxkeylen]) (by simp [AllReady, Op.Ready, Op.count, Op.denotes])

theorem empty_not_copied :
    ¬ (∃ key' h', Op.dup.run (fun _ => 0) [] Heap.empty = some (some key', h')) ∧
      ¬ ∃ key' h', Op.dupf.run (fun _ => 0) [] Heap.empty = some (some key', h') ∧
        key'.length = 1 := by
  constructor
  · rintro ⟨key', h', hrun⟩
    cases hrun
  · rintro ⟨key', h', hrun, -⟩
    cases hrun

end Keyops

end Libkinetic.Kinetic.Keyops
