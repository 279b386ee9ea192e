import Libkinetic.Kinetic.Validate

/-! # The request of a getlog

`ki_validate_glog` counts how often each type is asked for. The loop runs with an `int` up to a
count that is a `size_t`: an index that would have to pass the largest `int` has no result. The
counters do not go past it before the index does. -/

namespace Libkinetic.Kinetic.Validate

/-- The loop over the types, with its index and the counters; the type that may not be asked for
ends it with no counters. -/
def countLoop : ℕ → List Kgltype → TypeCounts → Option (Option TypeCounts)
  | _, [], cnt => some (some cnt)
  | i, t :: ts, cnt =>
    if t ∉ kgltTypes then some none
    else if i + 1 < 2 ^ 31 then countLoop (i + 1) ts (Function.update cnt t (cnt t + 1))
    else none

/-- The check of the name of a log. -/
def logNameOk (log : ℤ) (kglLog : Kdevicelog) : Bool :=
  if log ≠ 0 then
    if kglLog.kdlName ≠ .null then !decide (kglLog.kdlLen = 0 ∨ 1024 < kglLog.kdlLen) else false
  else decide (kglLog.kdlName = .null)

/-- What follows the loop. -/
def glogCounted (glrq : Kgetlog) (cnt : TypeCounts) : ℤ :=
  if ∃ t ∈ kgltTypes, 1 < cnt t then -1
  else if ¬ logNameOk (cnt .kgltLog) glrq.kglLog then -1
  else if glrq.kglUtil ≠ .null ∨ glrq.kglUtilcnt ≠ 0 ∨ glrq.kglTemp ≠ .null ∨ glrq.kglTempcnt ≠ 0 ∨
      glrq.kglStat ≠ .null ∨ glrq.kglStatcnt ≠ 0 ∨ glrq.kglMsgs ≠ .null ∨ glrq.kglMsgslen ≠ 0 then
    -1
  else 0

/-- **`ki_validate_glog`**; `valid` is what `ki_valid` says of the structure. -/
def kiValidateGlog (glrq : Option Kgetlog) (valid : Bool) : Option ℤ :=
  match glrq with
  | none => some (-1)
  | some glrq =>
    if glrq.kglType = .null ∨ glrq.kglTypecnt = 0 then some (-1)
    else if ¬ valid then some (-1)
    else do
      match ← countLoop 0 glrq.types 0 with
      | none => some (-1)
      | some cnt => some (glogCounted glrq cnt)

/-- The array has as many types as the count says. -/
def TypesHeld (glrq : Kgetlog) : Prop :=
  glrq.kglType = .null ∨ ∃ types, glrq.kglType = .ref types ∧ types.length = glrq.kglTypecnt

/-- **The request is one that may be sent.** -/
structure GlogFits (glrq : Kgetlog) : Prop where
  some : glrq.kglType ≠ .null ∧ glrq.kglTypecnt ≠ 0
  known : ∀ t ∈ glrq.types, t ∈ kgltTypes
  nodup : glrq.types.Nodup
  log : .kgltLog ∈ glrq.types →
    glrq.kglLog.kdlName ≠ .null ∧ 1 ≤ glrq.kglLog.kdlLen ∧ glrq.kglLog.kdlLen ≤ 1024
  nolog : .kgltLog ∉ glrq.types → glrq.kglLog.kdlName = .null
  util : glrq.kglUtil = .null ∧ glrq.kglUtilcnt = 0
  temp : glrq.kglTemp = .null ∧ glrq.kglTempcnt = 0
  stat : glrq.kglStat = .null ∧ glrq.kglStatcnt = 0
  msgs : glrq.kglMsgs = .null ∧ glrq.kglMsgslen = 0

/-- `ki_validate_glog` returns 0 for a typed request that may be sent and -1 for any other. -/
def GlogChecked (glrq : Kgetlog) : Prop :=
  ∃ r, kiValidateGlog (some glrq) true = some r ∧ (r = 0 ∨ r = -1) ∧ (r = 0 ↔ GlogFits glrq)

/-- The loop ends before its index has to pass the largest `int`. -/
def LoopEnds (ts : List Kgltype) : Prop :=
  ts.length < 2 ^ 31 ∨ ∃ t ∈ ts.take (2 ^ 31), t ∉ kgltTypes

section Glog
variable {glrq : Kgetlog} {cnt : TypeCounts} {ts : List Kgltype}

/-! ### The loop -/

theorem countLoop_eq {i : ℕ} (hi : i < 2 ^ 31)
    (h : i + ts.length < 2 ^ 31 ∨ ∃ t ∈ ts.take (2 ^ 31 - i), t ∉ kgltTypes) :
    countLoop i ts cnt = some (countTypes ts cnt) := by
  induction ts generalizing i cnt with
  | nil => rfl
  | cons t ts ih =>
    rw [countLoop, countTypes]
    by_cases ht : t ∈ kgltTypes
    swap
    · rw [if_pos ht, if_neg ht]
    rw [if_neg (not_not.mpr ht), if_pos ht]
    obtain ⟨n, hn⟩ : ∃ n, 2 ^ 31 - i = n + 1 := ⟨2 ^ 31 - i - 1, by omega⟩
    rw [hn, List.take_succ_cons, List.exists_mem_cons_iff, List.length_cons] at h
    have hnext : i + 1 < 2 ^ 31 := by
      rcases h with hlen | hbad | ⟨t', ht', -⟩
      · omega
      · exact absurd ht hbad
      · cases n with
        | zero => simp at ht'
        | succ n => omega
    rw [if_pos hnext]
    refine ih hnext ?_
    rcases h with hlen | hbad | hbad
    · exact .inl (by omega)
    · exact absurd ht hbad
    · rw [show 2 ^ 31 - (i + 1) = n by omega]
      exact .inr hbad

theorem countLoop_none {i : ℕ} (hi : i < 2 ^ 31) (hlen : 2 ^ 31 ≤ i + ts.length)
    (h : ∀ t ∈ ts.take (2 ^ 31 - i), t ∈ kgltTypes) : countLoop i ts cnt = none := by
  induction ts generalizing i cnt with
  | nil =>
    rw [List.length_nil] at hlen
    omega
  | cons t ts ih =>
    obtain ⟨n, hn⟩ : ∃ n, 2 ^ 31 - i = n + 1 := ⟨2 ^ 31 - i - 1, by omega⟩
    rw [hn, List.take_succ_cons, List.forall_mem_cons] at h
    rw [List.length_cons] at hlen
    rw [countLoop, if_neg (not_not.mpr h.1)]
    split_ifs with hnext
    · refine ih hnext (by omega) ?_
      rw [show 2 ^ 31 - (i + 1) = n by omega]
      exact h.2
    · rfl

/-! ### The checks -/

/-- The types are counted as they occur. -/
theorem repeated_iff (hknown : ∀ t ∈ ts, t ∈ kgltTypes) :
    (∃ t ∈ kgltTypes, 1 < (0 : TypeCounts) t + ts.count t) ↔ ¬ ts.Nodup := by
  rw [List.nodup_iff_count_le_one]
  push Not
  constructor
  · rintro ⟨t, -, ht⟩
    rw [Pi.zero_apply] at ht
    exact ⟨t, by omega⟩
  · rintro ⟨t, ht⟩
    have hmem : t ∈ ts := List.count_pos_iff.mp (by omega)
    refine ⟨t, hknown t hmem, ?_⟩
    rw [Pi.zero_apply]
    omega

theorem logNameOk_iff {log : ℤ} {kglLog : Kdevicelog} : logNameOk log kglLog = true ↔
    (log ≠ 0 → kglLog.kdlName ≠ .null ∧ 1 ≤ kglLog.kdlLen ∧ kglLog.kdlLen ≤ 1024) ∧
      (log = 0 → kglLog.kdlName = .null) := by
  unfold logNameOk
  split_ifs with hlog hname
  · rw [Bool.not_eq_true', decide_eq_false_iff_not, and_iff_left fun h => absurd h hlog]
    refine ⟨fun h _ => ⟨hname, by omega⟩, fun h => ?_⟩
    have := (h hlog).2
    omega
  · exact iff_of_false id fun h => (h.1 hlog).1 (not_not.mp hname)
  · rw [decide_eq_true_eq, and_iff_right fun h => absurd h hlog]
    exact ⟨fun h _ => h, fun h => h (not_not.mp hlog)⟩

theorem glogCounted_or (glrq : Kgetlog) (cnt : TypeCounts) :
    glogCounted glrq cnt = 0 ∨ glogCounted glrq cnt = -1 := by
  unfold glogCounted
  split_ifs <;> simp

theorem glogCounted_eq_zero_iff (hsome : glrq.kglType ≠ .null ∧ glrq.kglTypecnt ≠ 0)
    (hknown : ∀ t ∈ glrq.types, t ∈ kgltTypes) :
    glogCounted glrq (fun t => (0 : TypeCounts) t + glrq.types.count t) = 0 ↔ GlogFits glrq := by
  have hlog : (0 : TypeCounts) .kgltLog + (glrq.types.count .kgltLog : ℤ) = 0 ↔
      .kgltLog ∉ glrq.types := by
    rw [Pi.zero_apply, zero_add, Nat.cast_eq_zero, List.count_eq_zero]
  have hone : ¬ (-1 : ℤ) = 0 := by decide
  unfold glogCounted
  by_cases hnodup : glrq.types.Nodup
  swap
  · rw [if_pos ((repeated_iff hknown).mpr hnodup)]
    exact iff_of_false hone fun hfit => hnodup hfit.nodup
  rw [if_neg fun h => (repeated_iff hknown).mp h hnodup]
  have hname : logNameOk ((0 : TypeCounts) .kgltLog + (glrq.types.count .kgltLog : ℤ))
      glrq.kglLog = true ↔ (.kgltLog ∈ glrq.types → glrq.kglLog.kdlName ≠ .null ∧
        1 ≤ glrq.kglLog.kdlLen ∧ glrq.kglLog.kdlLen ≤ 1024) ∧
      (.kgltLog ∉ glrq.types → glrq.kglLog.kdlName = .null) := by
    rw [logNameOk_iff, ne_eq, hlog, not_not]
  by_cases hok : logNameOk ((0 : TypeCounts) .kgltLog + (glrq.types.count .kgltLog : ℤ))
      glrq.kglLog = true
  swap
  · rw [if_pos hok]
    exact iff_of_false hone fun hfit => hok (hname.mpr ⟨hfit.log, hfit.nolog⟩)
  rw [if_neg (not_not.mpr hok)]
  split_ifs with hout
  · refine iff_of_false id fun hfit => ?_
    have := hfit.util
    have := hfit.temp
    have := hfit.stat
    have := hfit.msgs
    tauto
  · refine iff_of_true rfl ?_
    push Not at hout
    exact ⟨hsome, hknown, hnodup, (hname.mp hok).1, (hname.mp hok).2, ⟨hout.1, hout.2.1⟩,
      ⟨hout.2.2.1, hout.2.2.2.1⟩, ⟨hout.2.2.2.2.1, hout.2.2.2.2.2.1⟩, hout.2.2.2.2.2.2⟩

/-- A structure that is no KTB is turned down, and so is a null pointer. -/
theorem kiValidateGlog_untyped (glrq : Option Kgetlog) : kiValidateGlog glrq false = some (-1) := by
  cases glrq with
  | none => rfl
  | some glrq =>
    rw [kiValidateGlog, if_pos Bool.false_ne_true]
    exact ite_self _

/-- A typed request is decided by its types and the checks behind the loop. -/
theorem kiValidateGlog_ends (hsome : glrq.kglType ≠ .null ∧ glrq.kglTypecnt ≠ 0)
    (h : LoopEnds glrq.types) : GlogChecked glrq := by
  have hloop : countLoop 0 glrq.types 0 = some (countTypes glrq.types 0) :=
    countLoop_eq (by decide) (by simpa [LoopEnds] using h)
  unfold GlogChecked kiValidateGlog
  dsimp only
  rw [if_neg (by tauto), if_neg (by decide), hloop]
  by_cases hknown : ∀ t ∈ glrq.types, t ∈ kgltTypes
  · rw [countTypes_eq hknown]
    exact ⟨_, rfl, glogCounted_or glrq _, glogCounted_eq_zero_iff hsome hknown⟩
  · rw [countTypes_eq_none hknown]
    exact ⟨-1, rfl, .inr rfl, iff_of_false (by decide) fun hfit => hknown hfit.known⟩

theorem kiValidateGlog_overflows (hsome : glrq.kglType ≠ .null ∧ glrq.kglTypecnt ≠ 0)
    (h : ¬ LoopEnds glrq.types) : kiValidateGlog (some glrq) true = none := by
  unfold LoopEnds at h
  push Not at h
  have hloop : countLoop 0 glrq.types 0 = none :=
    countLoop_none (by decide) (by simpa using h.1) h.2
  unfold kiValidateGlog
  dsimp only
  rw [if_neg (by tauto), if_neg (by decide), hloop]
  rfl

theorem length_types (h : TypesHeld glrq) (hsome : glrq.kglType ≠ .null) :
    glrq.types.length = glrq.kglTypecnt := by
  obtain ⟨types, htypes, hlen⟩ := h.resolve_left hsome
  rw [Kgetlog.types, htypes, ← hlen]
  exact congrArg List.length List.take_length

/-- **When a request is checked as it should be**: there are fewer types than an `int` can count, or
one of those up to there may not be asked for. -/
theorem glog_checked_iff (glrq : Kgetlog) (h : TypesHeld glrq) : GlogChecked glrq ↔
    glrq.kglType = .null ∨ glrq.kglTypecnt < 2 ^ 31 ∨
      ∃ t ∈ glrq.types.take (2 ^ 31), t ∉ kgltTypes := by
  by_cases htype : glrq.kglType = .null
  · refine iff_of_true ⟨-1, ?_, .inr rfl, iff_of_false (by decide) fun hfit => hfit.some.1 htype⟩
      (.inl htype)
    exact if_pos (.inl htype)
  rw [← length_types h htype, or_iff_right htype]
  by_cases hcnt : glrq.kglTypecnt = 0
  · refine iff_of_true ⟨-1, ?_, .inr rfl, iff_of_false (by decide) fun hfit => hfit.some.2 hcnt⟩
      (.inl ?_)
    · exact if_pos (.inr hcnt)
    · rw [length_types h htype, hcnt]
      decide
  refine ⟨fun hchecked => ?_, kiValidateGlog_ends ⟨htype, hcnt⟩⟩
  by_contra hends
  obtain ⟨r, hr, -⟩ := hchecked
  rw [kiValidateGlog_overflows ⟨htype, hcnt⟩ hends] at hr
  cases hr

theorem utilRq_checked : GlogChecked utilRq :=
  (glog_checked_iff utilRq (.inr ⟨_, rfl, rfl⟩)).mpr (.inr (.inl (by decide)))

/-- A request for the utilizations, many times. -/
def manyTypes (n : ℕ) : Kgetlog :=
  { kglType := .ref (List.replicate n .kgltUtilizations), kglTypecnt := n }

theorem manyTypes_types (n : ℕ) : (manyTypes n).types = List.replicate n .kgltUtilizations := by
  show (List.replicate n Kgltype.kgltUtilizations).take n = _
  rw [List.take_replicate, min_self]

theorem manyTypes_overflows {n : ℕ} (h : 2 ^ 31 ≤ n) :
    kiValidateGlog (some (manyTypes n)) true = none := by
  refine kiValidateGlog_overflows ⟨nofun, fun hzero => ?_⟩ ?_
  · have hn : n = 0 := hzero
    omega
  · rw [manyTypes_types]
    rintro (hlen | ⟨t, ht, hbad⟩)
    · rw [List.length_replicate] at hlen
      omega
    · rw [List.eq_of_mem_replicate (List.mem_of_mem_take ht)] at hbad
      exact hbad List.mem_cons_self

/-- **The utilizations, 2^31 times**: the index passes the largest `int`. -/
theorem manyTypes_not_checked : ¬ GlogChecked (manyTypes (2 ^ 31)) := by
  rintro ⟨r, hr, -⟩
  rw [manyTypes_overflows le_rfl] at hr
  cases hr

/-- Types that can be counted are checked as in the model that does not count them. -/
theorem kiValidateGlog_iff : Kinetic.kiValidateGlog glrq = true ↔ GlogFits glrq := by
  unfold Kinetic.kiValidateGlog
  simp only [Bool.and_eq_true, decide_eq_true_eq, List.all_eq_true]
  constructor
  · rintro ⟨⟨⟨⟨hsome, hknown⟩, hcount⟩, hlog⟩, hout⟩
    refine ⟨hsome, hknown, ?_, fun h => ?_, fun h => ?_, ⟨hout.1, hout.2.1⟩,
      ⟨hout.2.2.1, hout.2.2.2.1⟩, ⟨hout.2.2.2.2.1, hout.2.2.2.2.2.1⟩, hout.2.2.2.2.2.2⟩
    · rw [List.nodup_iff_count_le_one]
      intro t
      by_cases ht : t ∈ glrq.types
      · exact hcount t (hknown t ht)
      · rw [List.count_eq_zero_of_not_mem ht]
        exact zero_le_one
    · rw [if_pos h, decide_eq_true_eq] at hlog
      exact ⟨hlog.1, by omega, hlog.2.2⟩
    · rw [if_neg h, decide_eq_true_eq] at hlog
      exact hlog
  · intro hfit
    refine ⟨⟨⟨⟨hfit.some, hfit.known⟩, fun t _ => List.nodup_iff_count_le_one.mp hfit.nodup t⟩, ?_⟩,
      hfit.util.1, hfit.util.2, hfit.temp.1, hfit.temp.2, hfit.stat.1, hfit.stat.2, hfit.msgs⟩
    split_ifs with h
    · have hname := hfit.log h
      exact decide_eq_true ⟨hname.1, by omega, hname.2.2⟩
    · exact decide_eq_true (hfit.nolog h)

theorem kiValidateGlog_eq (h : GlogChecked glrq) : kiValidateGlog (some glrq) true =
    some (if Kinetic.kiValidateGlog glrq then 0 else -1) := by
  obtain ⟨r, hr, hor, hiff⟩ := h
  have hret : (if Kinetic.kiValidateGlog glrq then 0 else -1) = if r = 0 then (0 : ℤ) else -1 :=
    if_congr (kiValidateGlog_iff.trans hiff.symm) rfl rfl
  rw [hr, hret]
  rcases hor with rfl | rfl <;> rfl

end Glog

end Libkinetic.Kinetic.Validate
