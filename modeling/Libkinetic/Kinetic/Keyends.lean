import Libkinetic.Base.Lexicographic
import Libkinetic.Kinetic.Iteration
import Libkinetic.Kinetic.Keyops

/-! # The first key and the last

`ki_keyfirst` and `ki_keylast` make the ends of the key space: a zero byte, and as many bytes `0xFF`
as a key can have, which an `int` counts up to a length that is a `size_t`. A call that does not get
its memory returns null and leaves nothing behind. The range between the two ends, with both of
them, is the range without ends. -/

namespace Libkinetic.Kinetic.Keyends

open Libkinetic.Base.Blocks Libkinetic.Base.Lexicographic Libkinetic.Base.Windows
open Flatten (kiMalloc)
open Keyops (iovBytes)
open Rangedup (Iov Vec)

/-! ### The functions -/

/-- **`ki_keyfirst`** -/
def kiKeyfirst (ok : ℕ → Bool) (h : Heap) : Option (Option Vec × Heap) :=
  match h.malloc ok with
  | (none, h) => some (none, h)
  | (some key, h) =>
    match h.malloc ok with
    | (none, h) => (h.free key).map fun h => (none, h)
    | (some base, h) => some (some ⟨key, [⟨some base, [0]⟩]⟩, h)

/-- The loop that fills the buffer, at the index `i` with as many bytes `left`. -/
def fillLoop : ℕ → ℕ → List Byte → Option (List Byte)
  | _, 0, buf => some buf
  | i, left + 1, buf =>
    if i + 1 < 2 ^ 31 then fillLoop (i + 1) left (buf.set i 255) else none

/-- **`ki_keylast`**: `fresh` is what the memory holds that `malloc` gives. -/
def kiKeylast (ok : ℕ → Bool) (fresh : ℕ → Byte) (len : ℕ) (h : Heap) :
    Option (Option Vec × Heap) :=
  match h.malloc ok with
  | (none, h) => some (none, h)
  | (some key, h) =>
    match h.malloc ok with
    | (none, h) => (h.free key).map fun h => (none, h)
    | (some buf, h) =>
      (fillLoop 0 len (kiMalloc fresh len)).map fun bytes => (some ⟨key, [⟨some buf, bytes⟩]⟩, h)

/-- The key that a vector stands for. -/
def vecKey (v : Vec) : Key := (iovBytes v).flatten

/-- **The two calls return**, and the keys that come back enclose those of at most `len` bytes. -/
def Encloses (ok : ℕ → Bool) (fresh : ℕ → Byte) (len : ℕ) (h h' : Heap) : Prop :=
  ∃ first h₁ last h₁', kiKeyfirst ok h = some (first, h₁) ∧
    kiKeylast ok fresh len h' = some (last, h₁') ∧
      ∀ v ∈ first, ∀ w ∈ last, ∀ k : Key, k ≠ [] → k.length ≤ len → vecKey v ≤ k ∧ k ≤ vecKey w

/-- Both calls of `malloc` from here on succeed. -/
def TwoBlocks (ok : ℕ → Bool) (h : Heap) : Prop := ok h.calls = true ∧ ok (h.calls + 1) = true

section Ends
variable {ok : ℕ → Bool} {fresh : ℕ → Byte} {len i left : ℕ} {h h' : Heap} {buf : List Byte}

/-! ### The loop -/

theorem fillLoop_eq (hcnt : i + left < 2 ^ 31) (hlen : buf.length = i + left)
    (hfilled : buf.take i = List.replicate i 255) :
    fillLoop i left buf = some (List.replicate (i + left) 255) := by
  induction left generalizing i buf with
  | zero =>
    rw [fillLoop, Nat.add_zero, ← hfilled, List.take_of_length_le (by omega)]
  | succ left ih =>
    have hlt : i < buf.length := by omega
    have hnext : (buf.set i 255).take (i + 1) = List.replicate (i + 1) 255 := by
      rw [List.take_succ_eq_append_getElem (by rw [List.length_set]; exact hlt),
        List.getElem_set_self, List.take_set_of_le (le_refl i), hfilled, List.replicate_succ']
    rw [fillLoop, if_pos (by omega), ih (by omega) (by rw [List.length_set]; omega) hnext]
    congr 2
    omega

/-- **The index is an `int`.** -/
theorem fillLoop_none (hi : i < 2 ^ 31) (hcnt : 2 ^ 31 ≤ i + left) :
    fillLoop i left buf = none := by
  induction left generalizing i buf with
  | zero => omega
  | succ left ih =>
    rw [fillLoop]
    split_ifs with hnext
    · exact ih hnext (by omega)
    · rfl

/-! ### The calls -/

theorem kiKeyfirst_some (hok : TwoBlocks ok h) :
    kiKeyfirst ok h =
      some (some ⟨h.calls, [⟨some (h.calls + 1), [0]⟩]⟩, h.grown.grown) := by
  rw [kiKeyfirst, Heap.malloc_some hok.1]
  dsimp only
  rw [Heap.malloc_some hok.2]
  rfl

theorem kiKeylast_some (hok : TwoBlocks ok h) :
    kiKeylast ok fresh len h = (fillLoop 0 len (kiMalloc fresh len)).map fun bytes =>
      (some ⟨h.calls, [⟨some (h.calls + 1), bytes⟩]⟩, h.grown.grown) := by
  rw [kiKeylast, Heap.malloc_some hok.1]
  dsimp only
  rw [Heap.malloc_some hok.2]
  rfl

theorem kiKeylast_filled (hok : TwoBlocks ok h) (hlen : len < 2 ^ 31) :
    kiKeylast ok fresh len h = some (some ⟨h.calls, [⟨some (h.calls + 1),
      List.replicate len 255⟩]⟩, h.grown.grown) := by
  have hfill : fillLoop 0 len (kiMalloc fresh len) = some (List.replicate (0 + len) 255) :=
    fillLoop_eq (by omega) (by rw [Flatten.length_kiMalloc]; omega) List.take_zero
  rw [kiKeylast_some hok, hfill, Nat.zero_add]
  rfl

/-- **Without memory** the result is null, and what was in use is in use. -/
theorem keyends_failed (fresh : ℕ → Byte) (len : ℕ) (hok : ¬ TwoBlocks ok h) :
    (∃ h', kiKeyfirst ok h = some (none, h') ∧ h'.live = h.live) ∧
      ∃ h', kiKeylast ok fresh len h = some (none, h') ∧ h'.live = h.live := by
  rcases hfirst : ok h.calls with _ | _
  · rw [kiKeyfirst, kiKeylast, Heap.malloc_none hfirst]
    exact ⟨⟨_, rfl, rfl⟩, ⟨_, rfl, rfl⟩⟩
  · have hsecond : ok h.grown.calls = false := by
      rw [Heap.calls_grown]
      exact Bool.eq_false_of_not_eq_true fun hsecond => hok ⟨hfirst, hsecond⟩
    obtain ⟨h', hfree, hlive⟩ := h.free_asked_grown
    rw [kiKeyfirst, kiKeylast, Heap.malloc_some hfirst]
    dsimp only
    rw [Heap.malloc_none hsecond]
    dsimp only
    rw [hfree]
    exact ⟨⟨_, rfl, hlive⟩, ⟨_, rfl, hlive⟩⟩

/-- What comes back is one zero byte. -/
theorem kiKeyfirst_returns (ok : ℕ → Bool) (h : Heap) :
    ∃ first h', kiKeyfirst ok h = some (first, h') ∧ ∀ v ∈ first, iovBytes v = [[0]] := by
  by_cases hok : TwoBlocks ok h
  · refine ⟨_, _, kiKeyfirst_some hok, ?_⟩
    rintro v ⟨⟩
    rfl
  · obtain ⟨⟨h', hrun, -⟩, -⟩ := keyends_failed (fun _ => 0) 0 hok
    exact ⟨none, h', hrun, nofun⟩

theorem kiKeylast_returns (fresh : ℕ → Byte) (hlen : len < 2 ^ 31 ∨ ¬ TwoBlocks ok h) :
    ∃ last h', kiKeylast ok fresh len h = some (last, h') ∧
      ∀ w ∈ last, iovBytes w = [List.replicate len 255] := by
  by_cases hok : TwoBlocks ok h
  · have hlt : len < 2 ^ 31 := hlen.resolve_right (not_not.mpr hok)
    refine ⟨_, _, kiKeylast_filled hok hlt, ?_⟩
    rintro w ⟨⟩
    rfl
  · obtain ⟨-, h', hrun, -⟩ := keyends_failed fresh len hok
    exact ⟨none, h', hrun, nofun⟩

/-- **Too long a key.** -/
theorem kiKeylast_none (hok : TwoBlocks ok h) (hlen : 2 ^ 31 ≤ len) :
    kiKeylast ok fresh len h = none := by
  rw [kiKeylast_some hok, fillLoop_none (by decide) (by omega)]
  rfl

/-- A call that returns has not come to the largest `int`. -/
theorem lt_of_kiKeylast {r : Option Vec × Heap} (hrun : kiKeylast ok fresh len h = some r) :
    len < 2 ^ 31 ∨ ¬ TwoBlocks ok h := by
  by_contra hnot
  obtain ⟨hlen, hok⟩ := not_or.mp hnot
  rw [kiKeylast_none (not_not.mp hok) (not_lt.mp hlen)] at hrun
  cases hrun

/-! ### The order -/

/-- **The two ends** of the keys of at most `len` bytes, which are such keys themselves. -/
theorem isLeast_isGreatest (hlen : 1 ≤ len) :
    IsLeast (bounded Byte len) [0] ∧ IsGreatest (bounded Byte len) (List.replicate len 255) :=
  ⟨isLeast_singleton_bot hlen, isGreatest_replicate_top hlen⟩

theorem between_ends {k : Key} (hk : k ≠ []) (hle : k.length ≤ len) :
    [0] ≤ k ∧ k ≤ List.replicate len (255 : Byte) := by
  have hlen : 1 ≤ len := (List.length_pos_iff.mpr hk).trans_le hle
  have hmem : k ∈ bounded Byte len := ⟨hk, hle⟩
  exact ⟨(isLeast_isGreatest hlen).1.2 hmem, (isLeast_isGreatest hlen).2.2 hmem⟩

/-- **When the two ends are the ends**: the length is less than 2^31, or there is no last key as
there is no memory for it. -/
theorem encloses_iff (ok : ℕ → Bool) (fresh : ℕ → Byte) (len : ℕ) (h h' : Heap) :
    Encloses ok fresh len h h' ↔ len < 2 ^ 31 ∨ ¬ TwoBlocks ok h' := by
  constructor
  · rintro ⟨first, h₁, last, h₁', -, hlast, -⟩
    exact lt_of_kiKeylast hlast
  · intro hlen
    obtain ⟨first, h₁, hfirst, hzero⟩ := kiKeyfirst_returns ok h
    obtain ⟨last, h₁', hlast, hfilled⟩ := kiKeylast_returns fresh hlen
    refine ⟨first, h₁, last, h₁', hfirst, hlast, fun v hv w hw k hk hle => ?_⟩
    rw [vecKey, vecKey, hzero v hv, hfilled w hw, List.flatten_singleton, List.flatten_singleton]
    exact between_ends hk hle

theorem longKey_not_enclosed :
    ¬ Encloses (fun _ => true) (fun _ => 0) (2 ^ 31 + 1) Heap.empty Heap.empty := by
  have htwo : TwoBlocks (fun _ => true) Heap.empty := ⟨rfl, rfl⟩
  rintro ⟨first, h₁, last, h₁', -, hlast, -⟩
  rcases lt_of_kiKeylast hlast with hlen | hnone
  · exact absurd hlen (by decide)
  · exact hnone htwo

/-! ### The whole range -/

/-- The range from one key to another, with both. -/
def rangeOf (first last : Vec) : Krange where
  krFlags := krfIstart ||| krfIend
  krStart := some (iovBytes first)
  krEnd := some (iovBytes last)
  krCount := kvrCountInf

variable {lim : Klimits} {first last : Vec} {h₁ h₁' : Heap}

theorem iovBytes_first (hfirst : kiKeyfirst ok h = some (some first, h₁)) :
    iovBytes first = [[0]] := by
  obtain ⟨v, h₂, hrun, hzero⟩ := kiKeyfirst_returns ok h
  rw [hfirst, Option.some.injEq, Prod.mk.injEq] at hrun
  exact hzero first hrun.1.symm

theorem iovBytes_last (hlast : kiKeylast ok fresh len h = some (some last, h₁)) :
    iovBytes last = [List.replicate len 255] := by
  obtain ⟨w, h₂, hrun, hfilled⟩ := kiKeylast_returns fresh (lt_of_kiKeylast hlast)
  rw [hlast, Option.some.injEq, Prod.mk.injEq] at hrun
  exact hfilled last hrun.1.symm

/-- **From the first key to the last** are all the keys of a server. -/
theorem listed_rangeOf (srv : RangeServer lim) (hfirst : kiKeyfirst ok h = some (some first, h₁))
    (hlast : kiKeylast ok fresh lim.klKeylen h' = some (some last, h₁')) :
    (rangeOf first last).listed srv.keys = srv.keys := by
  have hstart : ((krfIstart ||| krfIend) &&& krfIstart != 0#32) = true := by decide
  have hend : ((krfIstart ||| krfIend) &&& krfIend != 0#32) = true := by decide
  have hflags : (rangeOf first last).istart = true ∧ (rangeOf first last).iend = true :=
    ⟨hstart, hend⟩
  have hcount : (rangeOf first last).krCount = kvrCountInf := rfl
  rw [Krange.listed, if_pos hcount, Krange.keys, hflags.1, hflags.2, List.filter_eq_self]
  intro k hk
  obtain ⟨hge, hle⟩ := between_ends (srv.nonempty k hk) (srv.fits k hk)
  simp only [rangeOf, iovBytes_first hfirst, iovBytes_last hlast, Option.map_some,
    List.flatten_singleton, between, Option.all_some, Bool.true_and, Bool.and_eq_true,
    Bool.or_eq_true, decide_eq_true_eq, beq_iff_eq]
  exact ⟨hge.lt_or_eq, hle.lt_or_eq⟩

/-- An iteration may start with it. -/
theorem forwardRange_rangeOf (srv : RangeServer lim) (hlim : 1 ≤ lim.klKeylen)
    (hfirst : kiKeyfirst ok h = some (some first, h₁))
    (hlast : kiKeylast ok fresh lim.klKeylen h' = some (some last, h₁')) :
    ForwardRange lim (rangeOf first last) := by
  have hkeylen : keylen [List.replicate lim.klKeylen (255 : Byte)] = lim.klKeylen := by
    have huint : uint32 (lim.klKeylen : ℕ) = lim.klKeylen := uint32_of_lt srv.keylen_lt
    simpa [keylen] using huint
  have hflags : (krfIstart ||| krfIend) &&& ~~~(krfIstart ||| krfIend) = 0#32 := by decide
  refine ⟨?_, ?_, hflags, .inl rfl, (Option.some_ne_none _).symm⟩
  · rintro key ⟨⟩
    rw [iovBytes_first hfirst]
    exact decide_eq_true ⟨by decide, hlim⟩
  · rintro key ⟨⟩
    rw [iovBytes_last hlast, keyFits, hkeylen]
    exact decide_eq_true ⟨by omega, le_rfl⟩

end Ends

end Libkinetic.Kinetic.Keyends
