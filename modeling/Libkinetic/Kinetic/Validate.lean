import Libkinetic.Kinetic.Getlog
import Libkinetic.Kinetic.Range

/-! # Validation

`ki_validate_range` adds the lengths of a key up in an `int`, fragment by fragment, and compares it
and the count with unsigned limits. A loop whose `int` counter would have to pass the largest one
has no result. `ki_validate_glog2` compares a response with the request, and nothing comes through
its first test; a null pointer that is followed has no result. -/

namespace Libkinetic.Kinetic.Validate

/-! ### Ranges -/

/-- The loop over the fragments of a key, with its counter and what it has added up. -/
def sumLens : ℕ → ℤ → Keyvec → Option ℤ
  | _, len, [] => some len
  | i, len, iov :: key =>
    if i + 1 < 2 ^ 31 then sumLens (i + 1) (int32 (len + iov.length)) key else none

/-- The check of a start or an end key, if there is one. -/
def rangeKeyOk (lim : Klimits) : Option Keyvec → Option Bool
  | none => some true
  | some key => do
    let len ← sumLens 0 0 key
    some (decide (¬ (len = 0 ∨ lim.klKeylen < uint32 len)))

/-- **`ki_validate_range`** -/
def kiValidateRange (kr : Krange) (lim : Klimits) : Option ℤ := do
  let ok ← rangeKeyOk lim kr.krStart
  if ¬ ok then some (-1)
  else
    let ok ← rangeKeyOk lim kr.krEnd
    if ¬ ok then some (-1)
    else if kr.krFlags &&& ~~~krfValidmask ≠ 0#32 then some (-1)
    else if kr.krCount ≠ kvrCountInf ∧ (kr.krCount = 0 ∨ lim.klRangekeycnt < uint32 kr.krCount) then
      some (-1)
    else some 0

/-- The values that the fields can have. -/
structure RangeTypes (kr : Krange) (lim : Klimits) : Prop where
  count : -2 ^ 31 ≤ kr.krCount ∧ kr.krCount < 2 ^ 31
  keylen : lim.klKeylen < 2 ^ 32
  rangekeycnt : lim.klRangekeycnt < 2 ^ 32

/-- The bytes of a key. -/
def keySize (key : Keyvec) : ℕ := (key.map List.length).sum

/-- **The range is one that the server takes.** -/
structure RangeFits (kr : Krange) (lim : Klimits) : Prop where
  startKey : ∀ key ∈ kr.krStart, 1 ≤ keySize key ∧ keySize key ≤ lim.klKeylen
  endKey : ∀ key ∈ kr.krEnd, 1 ≤ keySize key ∧ keySize key ≤ lim.klKeylen
  flags : kr.krFlags &&& ~~~krfValidmask = 0#32
  count : kr.krCount = kvrCountInf ∨ 1 ≤ kr.krCount ∧ kr.krCount ≤ lim.klRangekeycnt

/-- `ki_validate_range` returns, and 0 just for these. -/
def RangeChecked (kr : Krange) (lim : Klimits) : Prop :=
  ∃ r, kiValidateRange kr lim = some r ∧ (r = 0 ↔ RangeFits kr lim)

/-- The fragments can be counted in an `int`. -/
def Countable (key : Option Keyvec) : Prop := ∀ k ∈ key, k.length < 2 ^ 31

/-- The length of the key can be stored in 32 bits. -/
def Storable (key : Option Keyvec) : Prop := ∀ k ∈ key, keySize k < 2 ^ 32

/-- The count is in range as an unsigned number. -/
def CountPasses (kr : Krange) (lim : Klimits) : Prop :=
  kr.krCount = kvrCountInf ∨ kr.krCount ≠ 0 ∧ uint32 kr.krCount ≤ lim.klRangekeycnt

/-- The keys can be counted as far as they are looked at; and if everything is in range in 32 bits,
it is so outside of them. -/
def RangeMeets (kr : Krange) (lim : Klimits) : Prop :=
  Countable kr.krStart ∧
    (kr.krStart.all (keyFits lim) = true → Countable kr.krEnd ∧
      (kr.krEnd.all (keyFits lim) = true → kr.krFlags &&& ~~~krfValidmask = 0#32 →
        CountPasses kr lim → Storable kr.krStart ∧ Storable kr.krEnd ∧ -1 ≤ kr.krCount))

section Range
variable {kr : Krange} {lim : Klimits} {key : Keyvec} {k : Option Keyvec}

/-- What an `int` holds is what was stored, modulo 2^32. -/
theorem uint32_int32 (z : ℤ) : uint32 (int32 z) = uint32 z :=
  congrArg Int.toNat Int.bmod_emod

theorem int32_eq_zero_iff (z : ℤ) : int32 z = 0 ↔ uint32 z = 0 := by
  unfold int32 uint32
  rw [← Int.dvd_iff_bmod_eq_zero]
  omega

theorem sumLens_int32 (i : ℕ) (z : ℤ) (key : Keyvec) : sumLens i (int32 z) key =
    if i + key.length < 2 ^ 31 ∨ key = [] then some (int32 (z + keySize key)) else none := by
  induction key generalizing i z with
  | nil => simp [sumLens, keySize]
  | cons iov key ih =>
    have hadd : int32 (int32 z + iov.length) = int32 (z + iov.length) := Int.bmod_add_bmod
    have hsize : z + iov.length + keySize key = z + keySize (iov :: key) := by
      simp only [keySize, List.map_cons, List.sum_cons]
      push_cast
      ring
    rw [sumLens, hadd, ih, hsize]
    cases key with
    | nil => simp
    | cons iov' key =>
      simp only [List.length_cons, reduceCtorEq, or_false]
      split_ifs <;> first | rfl | omega

theorem sumLens_eq (h : key.length < 2 ^ 31) : sumLens 0 0 key = some (int32 (keySize key)) := by
  refine (sumLens_int32 0 0 key).trans ?_
  rw [if_pos (.inl (by omega)), zero_add]

/-- The key is looked at modulo 2^32. -/
theorem rangeKeyOk_eq (h : Countable k) : rangeKeyOk lim k = some (k.all (keyFits lim)) := by
  cases k with
  | none => rfl
  | some key =>
    have hlen : sumLens 0 0 key = some (int32 (keySize key)) := sumLens_eq (h key rfl)
    have hzero : int32 (keySize key) = 0 ↔ keylen key = 0 := int32_eq_zero_iff _
    have hrejected : uint32 (int32 (keySize key)) = keylen key := uint32_int32 _
    simp only [rangeKeyOk, hlen, Option.bind_eq_bind, Option.bind_some, Option.all_some, keyFits,
      hzero, hrejected, not_or, not_lt, ne_eq]

theorem rangeKeyOk_none (h : ¬ Countable k) : rangeKeyOk lim k = none := by
  cases k with
  | none => exact absurd (fun key hkey => by cases hkey) h
  | some key =>
    have hlen : ¬ key.length < 2 ^ 31 := by simpa [Countable] using h
    have hne : key ≠ [] := by
      rintro rfl
      exact hlen (by decide)
    have hsum : sumLens 0 0 key = none := by
      refine (sumLens_int32 0 0 key).trans (if_neg ?_)
      simp only [zero_add, not_or]
      exact ⟨hlen, hne⟩
    rw [rangeKeyOk, hsum]
    rfl

/-- A key in range is in range modulo 2^32. -/
theorem keyFits_of_range (hlim : lim.klKeylen < 2 ^ 32)
    (h : 1 ≤ keySize key ∧ keySize key ≤ lim.klKeylen) : keyFits lim key = true := by
  have hmod : keylen key = keySize key := by
    unfold keylen uint32 keySize at *
    omega
  unfold keyFits
  rw [hmod, decide_eq_true_eq]
  omega

theorem range_of_keyFits (h : keyFits lim key = true) (hsize : keySize key < 2 ^ 32) :
    1 ≤ keySize key ∧ keySize key ≤ lim.klKeylen := by
  have hmod : keylen key = keySize key := by
    unfold keylen uint32 keySize at *
    omega
  rw [keyFits, hmod, decide_eq_true_eq] at h
  omega

theorem all_keyFits_of_range (hlim : lim.klKeylen < 2 ^ 32)
    (h : ∀ key ∈ k, 1 ≤ keySize key ∧ keySize key ≤ lim.klKeylen) :
    k.all (keyFits lim) = true := by
  rw [Option.all_eq_true]
  exact fun key hkey => keyFits_of_range hlim (h key hkey)

theorem countPasses_of_range (h : RangeTypes kr lim)
    (hc : kr.krCount = kvrCountInf ∨ 1 ≤ kr.krCount ∧ kr.krCount ≤ lim.klRangekeycnt) :
    CountPasses kr lim := by
  have hcount := h.count
  refine hc.imp id fun hr => ⟨by omega, ?_⟩
  unfold uint32
  omega

/-- Of the counts that pass, those from -1 on are in range. -/
theorem range_of_countPasses (h : RangeTypes kr lim) (hc : CountPasses kr lim) :
    (kr.krCount = kvrCountInf ∨ 1 ≤ kr.krCount ∧ kr.krCount ≤ lim.klRangekeycnt) ↔
      -1 ≤ kr.krCount := by
  have hcount := h.count
  unfold CountPasses kvrCountInf uint32 at *
  omega

/-! The four checks, one after the other. -/

theorem kiValidateRange_start (hs : Countable kr.krStart)
    (h : kr.krStart.all (keyFits lim) = false) : kiValidateRange kr lim = some (-1) := by
  rw [kiValidateRange, rangeKeyOk_eq hs, h]
  rfl

theorem kiValidateRange_end (hs : Countable kr.krStart) (he : Countable kr.krEnd)
    (hsf : kr.krStart.all (keyFits lim) = true) (h : kr.krEnd.all (keyFits lim) = false) :
    kiValidateRange kr lim = some (-1) := by
  rw [kiValidateRange, rangeKeyOk_eq hs, rangeKeyOk_eq he, hsf, h]
  rfl

theorem kiValidateRange_rest (hs : Countable kr.krStart) (he : Countable kr.krEnd)
    (hsf : kr.krStart.all (keyFits lim) = true) (hef : kr.krEnd.all (keyFits lim) = true) :
    kiValidateRange kr lim =
      if kr.krFlags &&& ~~~krfValidmask ≠ 0#32 then some (-1)
      else if kr.krCount ≠ kvrCountInf ∧ (kr.krCount = 0 ∨ lim.klRangekeycnt < uint32 kr.krCount)
      then some (-1) else some 0 := by
  rw [kiValidateRange, rangeKeyOk_eq hs, rangeKeyOk_eq he, hsf, hef]
  rfl

theorem kiValidateRange_accepts (hs : Countable kr.krStart) (he : Countable kr.krEnd)
    (hsf : kr.krStart.all (keyFits lim) = true) (hef : kr.krEnd.all (keyFits lim) = true)
    (hflags : kr.krFlags &&& ~~~krfValidmask = 0#32) (hc : CountPasses kr lim) :
    kiValidateRange kr lim = some 0 := by
  rw [kiValidateRange_rest hs he hsf hef, if_neg (not_not.mpr hflags), if_neg]
  rintro ⟨hinf, hzero | hlarge⟩
  · exact (hc.resolve_left hinf).1 hzero
  · exact absurd (hc.resolve_left hinf).2 (not_le.mpr hlarge)

theorem kiValidateRange_flags (hs : Countable kr.krStart) (he : Countable kr.krEnd)
    (hsf : kr.krStart.all (keyFits lim) = true) (hef : kr.krEnd.all (keyFits lim) = true)
    (hflags : kr.krFlags &&& ~~~krfValidmask ≠ 0#32) : kiValidateRange kr lim = some (-1) := by
  rw [kiValidateRange_rest hs he hsf hef, if_pos hflags]

theorem kiValidateRange_count (hs : Countable kr.krStart) (he : Countable kr.krEnd)
    (hsf : kr.krStart.all (keyFits lim) = true) (hef : kr.krEnd.all (keyFits lim) = true)
    (hc : ¬ CountPasses kr lim) : kiValidateRange kr lim = some (-1) := by
  rw [kiValidateRange_rest hs he hsf hef]
  split_ifs with hflags hcount
  · rfl
  · rfl
  · refine absurd (or_iff_not_imp_left.mpr fun hinf => ?_) hc
    simpa [hinf] using hcount

/-- A range that passes is taken: the lengths and the count have to be in range themselves. -/
theorem rangeFits_iff (h : RangeTypes kr lim) (hsf : kr.krStart.all (keyFits lim) = true)
    (hef : kr.krEnd.all (keyFits lim) = true)
    (hflags : kr.krFlags &&& ~~~krfValidmask = 0#32) (hc : CountPasses kr lim) :
    RangeFits kr lim ↔ Storable kr.krStart ∧ Storable kr.krEnd ∧ -1 ≤ kr.krCount := by
  rw [Option.all_eq_true] at hsf hef
  have hkeylen := h.keylen
  constructor
  · intro hfit
    refine ⟨fun key hkey => ?_, fun key hkey => ?_, (range_of_countPasses h hc).mp hfit.count⟩
    · have := hfit.startKey key hkey
      omega
    · have := hfit.endKey key hkey
      omega
  · rintro ⟨hss, hes, hcount⟩
    exact ⟨fun key hkey => range_of_keyFits (hsf key hkey) (hss key hkey),
      fun key hkey => range_of_keyFits (hef key hkey) (hes key hkey), hflags,
      (range_of_countPasses h hc).mpr hcount⟩

/-- **When a range is checked as it should be**: its fragments can be counted, and it does not pass
just because its lengths or its count are looked at modulo 2^32. -/
theorem range_checked_iff (kr : Krange) (lim : Klimits) (h : RangeTypes kr lim) :
    RangeChecked kr lim ↔ RangeMeets kr lim := by
  have hnone : kiValidateRange kr lim = none → ¬ RangeChecked kr lim := by
    rintro hret ⟨r, hr, -⟩
    rw [hret] at hr
    cases hr
  have hrejects : kiValidateRange kr lim = some (-1) → ¬ RangeFits kr lim → RangeChecked kr lim :=
    fun hret hfit => ⟨-1, hret, iff_of_false (by decide) hfit⟩
  by_cases hs : Countable kr.krStart
  swap
  · refine iff_of_false (hnone ?_) fun hmeets => hs hmeets.1
    rw [kiValidateRange, rangeKeyOk_none hs]
    rfl
  by_cases hsf : kr.krStart.all (keyFits lim) = true
  swap
  · refine iff_of_true (hrejects ?_ ?_) ⟨hs, fun hpass => absurd hpass hsf⟩
    · exact kiValidateRange_start hs (Bool.eq_false_of_not_eq_true hsf)
    · exact fun hfit => hsf (all_keyFits_of_range h.keylen hfit.startKey)
  by_cases he : Countable kr.krEnd
  swap
  · refine iff_of_false (hnone ?_) fun hmeets => he (hmeets.2 hsf).1
    rw [kiValidateRange, rangeKeyOk_eq hs, hsf, rangeKeyOk_none he]
    rfl
  by_cases hef : kr.krEnd.all (keyFits lim) = true
  swap
  · refine iff_of_true (hrejects ?_ ?_) ⟨hs, fun _ => ⟨he, fun hpass => absurd hpass hef⟩⟩
    · exact kiValidateRange_end hs he hsf (Bool.eq_false_of_not_eq_true hef)
    · exact fun hfit => hef (all_keyFits_of_range h.keylen hfit.endKey)
  by_cases hflags : kr.krFlags &&& ~~~krfValidmask = 0#32
  swap
  · refine iff_of_true (hrejects ?_ fun hfit => hflags hfit.flags)
      ⟨hs, fun _ => ⟨he, fun _ hpass => absurd hpass hflags⟩⟩
    exact kiValidateRange_flags hs he hsf hef hflags
  by_cases hc : CountPasses kr lim
  swap
  · refine iff_of_true (hrejects ?_ fun hfit => hc (countPasses_of_range h hfit.count))
      ⟨hs, fun _ => ⟨he, fun _ _ hpass => absurd hpass hc⟩⟩
    exact kiValidateRange_count hs he hsf hef hc
  -- everything passes
  have hret := kiValidateRange_accepts hs he hsf hef hflags hc
  have hfits := rangeFits_iff h hsf hef hflags hc
  constructor
  · rintro ⟨r, hr, hiff⟩
    obtain rfl : 0 = r := Option.some.inj (hret.symm.trans hr)
    exact ⟨hs, fun _ => ⟨he, fun _ _ _ => hfits.mp (hiff.mp rfl)⟩⟩
  · rintro ⟨-, hmeets⟩
    exact ⟨0, hret, iff_of_true rfl (hfits.mpr ((hmeets hsf).2 hef hflags hc))⟩

/-- Keys that can be counted are checked as in the model that does not count them. -/
theorem kiValidateRange_eq (hs : Countable kr.krStart) (he : Countable kr.krEnd) :
    kiValidateRange kr lim = some (if Kinetic.kiValidateRange kr lim then 0 else -1) := by
  unfold Kinetic.kiValidateRange
  by_cases hsf : kr.krStart.all (keyFits lim) = true
  swap
  · rw [kiValidateRange_start hs (Bool.eq_false_of_not_eq_true hsf)]
    simp [hsf]
  by_cases hef : kr.krEnd.all (keyFits lim) = true
  swap
  · rw [kiValidateRange_end hs he hsf (Bool.eq_false_of_not_eq_true hef)]
    simp [hef]
  by_cases hflags : kr.krFlags &&& ~~~krfValidmask = 0#32
  swap
  · rw [kiValidateRange_flags hs he hsf hef hflags]
    simp [hflags]
  by_cases hc : CountPasses kr lim
  swap
  · rw [kiValidateRange_count hs he hsf hef hc]
    have hcount : (kr.krCount == kvrCountInf ||
        decide (kr.krCount ≠ 0 ∧ uint32 kr.krCount ≤ lim.klRangekeycnt)) = false := by
      rw [Bool.eq_false_iff, ne_eq, Bool.or_eq_true, beq_iff_eq, decide_eq_true_eq]
      exact hc
    rw [hcount, Bool.and_false]
    rfl
  · rw [kiValidateRange_accepts hs he hsf hef hflags hc]
    have hcount : (kr.krCount == kvrCountInf ||
        decide (kr.krCount ≠ 0 ∧ uint32 kr.krCount ≤ lim.klRangekeycnt)) = true := by
      rw [Bool.or_eq_true, beq_iff_eq, decide_eq_true_eq]
      exact hc
    rw [hsf, hef, hflags, hcount]
    rfl

/-- A range from a key of one fragment on. -/
def fromKey (fragment : Key) : Krange := { krStart := some [fragment], krCount := 1 }

theorem fromKey_checked : RangeChecked (fromKey [1]) smallLimits := by
  refine (range_checked_iff (fromKey [1]) smallLimits ⟨by decide, by decide, by decide⟩).mpr ?_
  have hnoEnd : ∀ key, key ∉ (fromKey [1]).krEnd := fun key hkey => by cases hkey
  refine ⟨?_, fun _ => ⟨fun key hkey => absurd hkey (hnoEnd key), fun _ _ _ => ⟨?_, ?_, ?_⟩⟩⟩
  · intro key hkey
    obtain rfl := Option.some.inj hkey
    decide
  · intro key hkey
    obtain rfl := Option.some.inj hkey
    decide
  · exact fun key hkey => absurd hkey (hnoEnd key)
  · decide

/-- A fragment of 4 GiB and 5 bytes passes as one of 5. -/
theorem fromKey_passes {fragment : Key} (h : fragment.length = 2 ^ 32 + 5) :
    kiValidateRange (fromKey fragment) smallLimits = some 0 ∧
      ¬ RangeChecked (fromKey fragment) smallLimits := by
  have hsize : keySize [fragment] = 2 ^ 32 + 5 := by
    rw [← h]
    exact List.sum_singleton
  have hfits : keyFits smallLimits [fragment] = true := by
    have hmod : keylen [fragment] = 5 := by
      show uint32 (keySize [fragment]) = 5
      rw [hsize]
      rfl
    rw [keyFits, hmod]
    rfl
  have hret : kiValidateRange (fromKey fragment) smallLimits = some 0 := by
    refine kiValidateRange_accepts (fun key hkey => ?_) (fun key hkey => ?_) hfits rfl ?_ ?_
    · obtain rfl := Option.some.inj hkey
      simp
    · cases hkey
    · exact BitVec.zero_and
    · exact .inr ⟨one_ne_zero, (by decide : uint32 1 ≤ smallLimits.klRangekeycnt)⟩
  refine ⟨hret, ?_⟩
  rintro ⟨r, hr, hiff⟩
  obtain rfl : 0 = r := Option.some.inj (hret.symm.trans hr)
  have hstart := ((hiff.mp rfl).startKey _ rfl).2
  rw [hsize] at hstart
  exact absurd hstart (by decide)

/-- A server with no limit on the count, for a range of -2 keys. -/
def noLimits : Klimits := { smallLimits with klRangekeycnt := 2 ^ 32 - 1 }

theorem negative_passes :
    kiValidateRange { fromKey [1] with krCount := -2 } noLimits = some 0 ∧
      ¬ RangeChecked { fromKey [1] with krCount := -2 } noLimits := by
  have hret : kiValidateRange { fromKey [1] with krCount := -2 } noLimits = some 0 := by decide
  refine ⟨hret, ?_⟩
  rintro ⟨r, hr, hiff⟩
  obtain rfl : 0 = r := Option.some.inj (hret.symm.trans hr)
  have hcount := (hiff.mp rfl).count
  revert hcount
  decide

/-- **A start key of 2^32 + 5 bytes** is taken as one of 5, and a count of -2 as one of 2^32 - 2. -/
theorem wrapped_ranges_pass :
    ¬ RangeChecked (fromKey (List.replicate (2 ^ 32 + 5) 0)) smallLimits ∧
      ¬ RangeChecked { fromKey [1] with krCount := -2 } noLimits :=
  ⟨(fromKey_passes List.length_replicate).2, negative_passes.2⟩

end Range

/-! ### The response to a getlog -/

/-- One counter for each type that may be asked for. -/
abbrev TypeCounts := Kgltype → ℤ

/-- The requested types are counted, unless there is one that may not be asked for. -/
def countTypes : List Kgltype → TypeCounts → Option TypeCounts
  | [], cnt => some cnt
  | t :: ts, cnt =>
    if t ∈ kgltTypes then countTypes ts (Function.update cnt t (cnt t + 1)) else none

/-- The array or the buffer of a type is there. -/
def hasData (glrsp : Kgetlog) : Kgltype → Bool
  | .kgltUtilizations => decide (glrsp.kglUtil ≠ .null ∧ glrsp.kglUtilcnt ≠ 0)
  | .kgltTemperatures => decide (glrsp.kglTemp ≠ .null ∧ glrsp.kglTempcnt ≠ 0)
  | .kgltStatistics => decide (glrsp.kglStat ≠ .null ∧ glrsp.kglStatcnt ≠ 0)
  | .kgltMessages | .kgltLog => decide (glrsp.kglMsgs ≠ .null ∧ glrsp.kglMsgslen ≠ 0)
  | .kgltCapacities | .kgltConfiguration | .kgltLimits => true
  | .other _ => false

/-- The type at `i` is looked for, at each `j`, in the element at `i` of the request. -/
def requested (glrq glrsp : Kgetlog) (i : ℕ) : Bool :=
  (List.range glrq.kglTypecnt).any fun _ => glrsp.types[i]? == glrq.types[i]?

/-- The types of the response are taken off the counters; that of the capacities goes up. -/
def takeTypes (glrq glrsp : Kgetlog) : ℕ → List Kgltype → TypeCounts → Option TypeCounts
  | _, [], cnt => some cnt
  | i, t :: ts, cnt =>
    if ¬ requested glrq glrsp i then none
    else if ¬ hasData glrsp t then none
    else
      takeTypes glrq glrsp (i + 1) ts
        (Function.update cnt t (if t = .kgltCapacities then cnt t + 1 else cnt t - 1))

/-- What follows the checks of the pointers and the numbers of types. -/
def glog2Types (glrq glrsp : Kgetlog) : ℤ :=
  match countTypes glrq.types 0 with
  | none => -1
  | some cnt =>
    match takeTypes glrq glrsp 0 glrsp.types cnt with
    | none => -1
    | some cnt => if ∃ t ∈ kgltTypes, cnt t ≠ 0 then -1 else 0

/-- **`ki_validate_glog2`**: the test of the response lacks its negation. -/
def kiValidateGlog2 (glrq glrsp : Option Kgetlog) : Option ℤ :=
  if glrq.isNone ∨ glrsp.isSome then some (-1)
  else do
    let rq ← glrq
    if rq.kglType = .null then some (-1)
    else
      let rsp ← glrsp
      if rsp.kglType = .null ∨ rq.kglTypecnt ≠ rsp.kglTypecnt then some (-1)
      else some (glog2Types rq rsp)

/-- **The response has the types of the request**, and their data. -/
structure Answers (glrq glrsp : Kgetlog) : Prop where
  rqType : glrq.kglType ≠ .null
  rspType : glrsp.kglType ≠ .null
  typecnt : glrq.kglTypecnt = glrsp.kglTypecnt
  valid : ∀ t ∈ glrq.types, t ∈ kgltTypes
  types : glrsp.types.Perm glrq.types
  data : ∀ t ∈ glrsp.types, hasData glrsp t = true

/-- `ki_validate_glog2` returns, and 0 just for two structures of which one answers the other. -/
def Glog2Checked (glrq glrsp : Option Kgetlog) : Prop :=
  ∃ r, kiValidateGlog2 glrq glrsp = some r ∧
    (r = 0 ↔ ∃ rq ∈ glrq, ∃ rsp ∈ glrsp, Answers rq rsp)

section Glog2
variable {rq rsp : Kgetlog}

theorem kiValidateGlog2_some (glrq : Option Kgetlog) (rsp : Kgetlog) :
    kiValidateGlog2 glrq (some rsp) = some (-1) := if_pos (.inr rfl)

/-- A response that is missing is looked at. -/
theorem kiValidateGlog2_none (rq : Kgetlog) : kiValidateGlog2 (some rq) none =
    if rq.kglType = .null then some (-1) else none := by
  simp [kiValidateGlog2]

/-! What stands behind the test, for structures with as many types as they say. -/

theorem countTypes_eq {ts : List Kgltype} (h : ∀ t ∈ ts, t ∈ kgltTypes) (cnt : TypeCounts) :
    countTypes ts cnt = some fun t => cnt t + ts.count t := by
  induction ts generalizing cnt with
  | nil => simp [countTypes]
  | cons t ts ih =>
    have hts : ∀ t' ∈ ts, t' ∈ kgltTypes := fun t' ht' => h t' (List.mem_cons_of_mem t ht')
    rw [countTypes, if_pos (h t List.mem_cons_self), ih hts]
    congr 1
    funext t'
    by_cases ht : t' = t
    · subst ht
      rw [Function.update_self, List.count_cons_self]
      push_cast
      ring
    · rw [Function.update_of_ne ht, List.count_cons_of_ne (Ne.symm ht)]

theorem countTypes_eq_none {ts : List Kgltype} (h : ¬ ∀ t ∈ ts, t ∈ kgltTypes) (cnt : TypeCounts) :
    countTypes ts cnt = none := by
  induction ts generalizing cnt with
  | nil => exact absurd (fun t ht => by cases ht) h
  | cons t ts ih =>
    rw [countTypes]
    split_ifs with ht
    · refine ih (fun hts => h ?_) _
      rw [List.forall_mem_cons]
      exact ⟨ht, hts⟩
    · rfl

/-- The loop over the request finds the type at `i` only in its own place. -/
theorem requested_iff {i : ℕ} (hi : i < rq.kglTypecnt) :
    requested rq rsp i = true ↔ rsp.types[i]? = rq.types[i]? := by
  rw [requested, List.any_eq_true]
  constructor
  · rintro ⟨-, -, h⟩
    exact beq_iff_eq.mp h
  · exact fun h => ⟨i, List.mem_range.mpr hi, beq_iff_eq.mpr h⟩

/-- What a type of the response does to its counter. -/
def taken (t : Kgltype) : ℤ := if t = .kgltCapacities then 1 else -1

theorem takeTypes_eq (hrq : rq.types.length = rq.kglTypecnt)
    (hrsp : rsp.types.length = rq.kglTypecnt) (ts : List Kgltype) (i : ℕ)
    (hts : rsp.types.drop i = ts) (cnt : TypeCounts) :
    takeTypes rq rsp i ts cnt =
      if rq.types.drop i = ts ∧ ∀ t ∈ ts, hasData rsp t = true then
        some fun t => cnt t + taken t * ts.count t
      else none := by
  induction ts generalizing i cnt with
  | nil =>
    have hend : rq.types.drop i = [] := by
      rw [List.drop_eq_nil_iff] at hts ⊢
      omega
    rw [if_pos ⟨hend, fun t ht => by cases ht⟩]
    simp [takeTypes]
  | cons t ts ih =>
    have hi : i < rsp.types.length := by
      by_contra hi
      rw [List.drop_eq_nil_of_le (not_lt.mp hi)] at hts
      cases hts
    have hi' : i < rq.types.length := by omega
    rw [List.drop_eq_getElem_cons hi, List.cons.injEq] at hts
    have hreq : requested rq rsp i = true ↔ rq.types[i] = t := by
      rw [requested_iff (by omega), List.getElem?_eq_getElem hi, List.getElem?_eq_getElem hi',
        Option.some.injEq, hts.1, eq_comm]
    rw [takeTypes, ih (i + 1) hts.2, List.drop_eq_getElem_cons hi']
    simp only [List.cons.injEq, List.forall_mem_cons]
    by_cases ht : rq.types[i] = t
    swap
    · rw [if_pos fun hr => ht (hreq.mp hr), if_neg fun h => ht h.1.1]
    by_cases hd : hasData rsp t = true
    swap
    · rw [if_neg (not_not.mpr (hreq.mpr ht)), if_pos hd, if_neg fun h => hd h.2.1]
    rw [if_neg (not_not.mpr (hreq.mpr ht)), if_neg (not_not.mpr hd)]
    refine if_congr (by rw [and_iff_right ht, and_iff_right hd]) ?_ rfl
    congr 1
    funext t'
    by_cases ht' : t' = t
    · subst ht'
      rw [Function.update_self, List.count_cons_self, taken]
      push_cast
      split_ifs <;> ring
    · rw [Function.update_of_ne ht', List.count_cons_of_ne (Ne.symm ht')]

/-- **Behind the test** the types of the request are accepted in their order, with their data, and
not those of the capacities. -/
theorem glog2Types_eq_zero_iff (hrq : rq.types.length = rq.kglTypecnt)
    (hrsp : rsp.types.length = rq.kglTypecnt) : glog2Types rq rsp = 0 ↔
      (∀ t ∈ rq.types, t ∈ kgltTypes) ∧ rq.types = rsp.types ∧
        (∀ t ∈ rsp.types, hasData rsp t = true) ∧ .kgltCapacities ∉ rsp.types := by
  unfold glog2Types
  by_cases hvalid : ∀ t ∈ rq.types, t ∈ kgltTypes
  swap
  · rw [countTypes_eq_none hvalid]
    exact iff_of_false (by decide : ¬ (-1 : ℤ) = 0) fun h => hvalid h.1
  rw [countTypes_eq hvalid, and_iff_right hvalid]
  dsimp only
  rw [takeTypes_eq hrq hrsp rsp.types 0 rfl, List.drop_zero]
  by_cases hsame : rq.types = rsp.types ∧ ∀ t ∈ rsp.types, hasData rsp t = true
  swap
  · rw [if_neg hsame]
    exact iff_of_false (by decide : ¬ (-1 : ℤ) = 0) fun h => hsame ⟨h.1, h.2.1⟩
  rw [if_pos hsame, and_iff_right hsame.1, and_iff_right hsame.2, hsame.1]
  dsimp only
  have hzero : (∃ t ∈ kgltTypes, (0 : TypeCounts) t + rsp.types.count t +
      taken t * rsp.types.count t ≠ 0) ↔ .kgltCapacities ∈ rsp.types := by
    constructor
    · rintro ⟨t, -, hne⟩
      by_contra hcap
      refine hne ?_
      unfold taken
      split_ifs with ht
      · rw [ht, List.count_eq_zero_of_not_mem hcap]
        rfl
      · simp
    · intro hcap
      have hpos := List.count_pos_iff.mpr hcap
      refine ⟨.kgltCapacities, by decide, ?_⟩
      rw [taken, if_pos rfl, Pi.zero_apply]
      omega
  split_ifs with hne
  · exact iff_of_false (by decide) fun hcap => hcap (hzero.mp hne)
  · exact iff_of_true rfl fun hcap => hne (hzero.mpr hcap)

/-- **When a response is checked as it should be**: it does not answer the request, or is missing,
and then the request has no types. -/
theorem glog2_checked_iff (glrq glrsp : Option Kgetlog) : Glog2Checked glrq glrsp ↔
    (∀ rq ∈ glrq, ∀ rsp ∈ glrsp, ¬ Answers rq rsp) ∧
      (glrsp = none → ∀ rq ∈ glrq, rq.kglType = .null) := by
  unfold Glog2Checked
  cases glrsp with
  | some rsp =>
    rw [kiValidateGlog2_some, and_iff_left (fun h => by cases h)]
    constructor
    · rintro ⟨r, hr, hiff⟩ rq hrq rsp' hrsp hans
      obtain rfl := Option.some.inj hr
      exact absurd (hiff.mpr ⟨rq, hrq, rsp', hrsp, hans⟩) (by decide)
    · intro hno
      refine ⟨-1, rfl, iff_of_false (by decide) ?_⟩
      rintro ⟨rq, hrq, rsp', hrsp, hans⟩
      exact hno rq hrq rsp' hrsp hans
  | none =>
    have hno : ∀ rq ∈ glrq, ∀ rsp ∈ (none : Option Kgetlog), ¬ Answers rq rsp :=
      fun _ _ _ h => by cases h
    rw [and_iff_right hno]
    cases glrq with
    | none => exact iff_of_true ⟨-1, rfl, by simp⟩ fun _ rq hrq => by cases hrq
    | some rq =>
      rw [kiValidateGlog2_none]
      by_cases htype : rq.kglType = .null
      · rw [if_pos htype]
        refine iff_of_true ⟨-1, rfl, by simp⟩ ?_
        rintro - rq' ⟨⟩
        exact htype
      · rw [if_neg htype]
        refine iff_of_false ?_ fun h => htype (h rfl rq rfl)
        rintro ⟨r, hr, -⟩
        cases hr

/-- A request for the utilizations. -/
def utilRq : Kgetlog := { kglType := .ref [.kgltUtilizations], kglTypecnt := 1 }

/-- The response with one of them. -/
def utilRsp : Kgetlog := { utilRq with kglUtil := .ref [{}], kglUtilcnt := 1 }

theorem utilRsp_answers : Answers utilRq utilRsp :=
  ⟨by decide, by decide, rfl, by decide, .refl _, by decide⟩

/-- **Every response is turned down**, also one that answers; and one that is missing is followed. -/
theorem utilRsp_not_checked :
    (Answers utilRq utilRsp ∧ kiValidateGlog2 (some utilRq) (some utilRsp) = some (-1)) ∧
      ¬ Glog2Checked (some utilRq) (some utilRsp) ∧ ¬ Glog2Checked (some utilRq) none := by
  refine ⟨⟨utilRsp_answers, rfl⟩, ?_, ?_⟩
  · rintro ⟨r, hr, hiff⟩
    obtain rfl := Option.some.inj hr
    exact absurd (hiff.mpr ⟨utilRq, rfl, utilRsp, rfl, utilRsp_answers⟩) (by decide)
  · rintro ⟨r, hr, -⟩
    cases hr

end Glog2

end Libkinetic.Kinetic.Validate
