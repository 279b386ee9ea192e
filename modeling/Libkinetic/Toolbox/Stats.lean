import Libkinetic.Base.Hex
import Libkinetic.Kinetic.Types

/-! # Histograms

`kctl stats -h` takes the parameters of a histogram: the letter for the keys or the values, and
behind it bounds, a number of buckets, and rows, all of which are checked. What is left out comes
from the limits of the server, or from an earlier `-h`. `addto_histo` counts a length in one of the
buckets, here with fractions where it has a `float`; a division by zero and an assertion that fails
have no result. The byte that `sscanf` writes behind `c` is taken not to be one of the others. -/

namespace Libkinetic.Toolbox.Stats

open Libkinetic.Base.Cstrings Libkinetic.Base.Hex Libkinetic.Base.Ints
open Libkinetic.Kinetic (Klimits int32 uint32 uint32_of_lt smallLimits)

/-! ### Scanning -/

def colon : Byte := 58

/-- The base of a number for `%i`, and its digits with what follows. -/
def takeBase : List Byte → ℕ × List Byte
  | z :: x :: s =>
    if z = 48 then if x = 120 ∨ x = 88 then (16, s) else (8, z :: x :: s) else (10, z :: x :: s)
  | s => (10, s)

/-- A digit of a base. -/
def isDigitOf (base : ℕ) (b : Byte) : Bool := isXdigit b && xdigitVal b < base

/-- The number that some digits stand for. -/
def baseVal (base : ℕ) (ds : List Byte) : ℕ := ds.foldl (fun v b => base * v + xdigitVal b) 0

/-- `%i`: the number that is stored, and what follows it. -/
def scanI (s : List Byte) : Option (ℤ × List Byte) :=
  let (neg, s) := takeSign (s.dropWhile isSpace)
  let (base, s) := takeBase s
  let ds := s.takeWhile (isDigitOf base)
  if ds = [] then none
  else
    let z : ℤ := baseVal base ds
    some (toInt (clampLong (if neg then -z else z)), s.dropWhile (isDigitOf base))

/-- `sscanf` with as many pairs of `%[:]` and `%i`: the numbers, and what it returns. -/
def scanPairs : ℕ → List Byte → List ℤ × ℕ
  | 0, _ => ([], 0)
  | n + 1, s =>
    if s.head? ≠ some colon then ([], 0)
    else
      match scanI (s.dropWhile (· = colon)) with
      | none => ([], 1)
      | some (z, s) =>
        let (zs, rc) := scanPairs n s
        (z :: zs, rc + 2)

/-! ### The parameters -/

/-- `struct histo`, its numbers of 32 bits. -/
structure Histo where
  hLower : ℕ
  hUpper : ℕ
  hBuckets : ℕ
  hRows : ℕ
  hRclip : ℕ
  hHisto : Option (List ℕ)
deriving DecidableEq

/-- What `kctl_stats` starts with, for keys or values of a largest length. -/
def defaults (maxlen : ℕ) : Histo :=
  { hLower := 0, hUpper := maxlen, hBuckets := 50, hRows := 20, hRclip := 0, hHisto := none }

/-- The fields that `sscanf` gets to. -/
def Histo.store (h : Histo) (vals : List ℤ) : Histo :=
  { h with
    hLower := (vals[0]?.map uint32).getD h.hLower
    hUpper := (vals[1]?.map uint32).getD h.hUpper
    hBuckets := (vals[2]?.map uint32).getD h.hBuckets
    hRows := (vals[3]?.map uint32).getD h.hRows
    hRclip := (vals[4]?.map uint32).getD h.hRclip }

/-- The parameters behind the letter, if there are any. -/
def histoParms (arg : List Byte) (h : Histo) : Option Histo :=
  if arg = [] then some h
  else
    let (vals, rc) := scanPairs 5 arg
    let h := h.store vals
    if rc ≠ 6 ∧ rc ≠ 10 then none
    else if int32 h.hLower < 0 ∨ int32 h.hUpper < 0 ∨ int32 h.hBuckets < 0 ∨ int32 h.hRows < 0 ∨
        int32 h.hRclip < 0 then none
    else if h.hUpper ≤ h.hLower then none
    else if h.hRows ≤ h.hRclip then none
    else some h

/-- The parameters, and the buckets: `got` says whether `malloc` gets them. -/
def histoAlloc (got : Bool) (arg : List Byte) (h : Histo) : Option Histo :=
  match histoParms arg h with
  | none => none
  | some h =>
    if ¬ got then none else some { h with hHisto := some (List.replicate h.hBuckets 0) }

/-- One `-h`. -/
def histoOption (hs : Histo × Histo) (o : List Byte × Bool) : Option (Histo × Histo) :=
  match o.1 with
  | [] => none
  | l :: arg =>
    if l = 107 ∨ l = 75 then (histoAlloc o.2 arg hs.1).map fun h => (h, hs.2)
    else if l = 118 ∨ l = 86 then (histoAlloc o.2 arg hs.2).map fun h => (hs.1, h)
    else none

/-- **`kctl_stats`**, as far as the histograms go: those of the keys and of the values behind all the
options, unless one is refused. -/
def kctlStats (lim : Klimits) (opts : List (List Byte × Bool)) : Option (Histo × Histo) :=
  opts.foldlM histoOption (defaults lim.klKeylen, defaults lim.klVallen)

/-! ### Counting -/

/-- The bucket of a length. -/
def bucketOf (h : Histo) (len : ℕ) : Option ℕ :=
  if h.hBuckets = 0 then none
  else
    let width : ℚ := (uint32 ((h.hUpper : ℤ) - h.hLower + 1) : ℚ) / h.hBuckets
    if width = 0 then none
    else
      let bucket := ⌊((len : ℚ) - h.hLower) / width⌋
      if ¬ bucket < 2 ^ 31 then none
      else if uint32 bucket < h.hBuckets then some (uint32 bucket)
      else none

/-- **`addto_histo`**: the histogram, which is in a variable of the caller, afterwards. -/
def addtoHisto (h : Histo) (len : ℕ) : Option Histo :=
  match h.hHisto with
  | none => some h
  | some cnts =>
    if len < h.hLower ∨ h.hUpper < len then some h
    else
      match bucketOf h len with
      | none => none
      | some b => some { h with hHisto := some (cnts.set b ((cnts.getD b 0 + 1) % 2 ^ 32)) }

/-- **The lengths are counted**, whatever was counted before: one in the bounds in one bucket, one
that is not in none, and a longer one not in an earlier bucket. -/
structure Sound (h : Histo) : Prop where
  inside : ∀ cnts len, cnts.length = h.hBuckets → h.hLower ≤ len → len ≤ h.hUpper →
    ∃ b < h.hBuckets, bucketOf h len = some b ∧
      addtoHisto { h with hHisto := some cnts } len =
        some { h with hHisto := some (cnts.set b ((cnts.getD b 0 + 1) % 2 ^ 32)) }
  outside : ∀ cnts len, len < h.hLower ∨ h.hUpper < len →
    addtoHisto { h with hHisto := some cnts } len = some { h with hHisto := some cnts }
  monotone : ∀ len len' b b', h.hLower ≤ len → len ≤ len' → len' ≤ h.hUpper →
    bucketOf h len = some b → bucketOf h len' = some b' → b ≤ b'

section Accepted
variable {h h' : Histo} {arg : List Byte} {len b : ℕ}

/-! ### What is accepted -/

/-- The parameters that `kctl_stats` has at any time. -/
structure Accepted (h : Histo) : Prop where
  bounds : h.hLower ≤ h.hUpper
  upper : h.hUpper < 2 ^ 32
  buckets : h.hBuckets < 2 ^ 31
  zeros : ∀ cnts ∈ h.hHisto, cnts = List.replicate h.hBuckets 0

theorem uint32_lt (z : ℤ) : uint32 z < 2 ^ 32 := by
  unfold uint32
  omega

theorem lt_of_int32_nonneg {n : ℕ} (hn : n < 2 ^ 32) (h : ¬ int32 n < 0) : n < 2 ^ 31 := by
  by_contra hge
  refine h ?_
  have hmod : (n : ℤ) % ((2 ^ 32 : ℕ) : ℤ) = n := Int.emod_eq_of_lt (by omega) (by omega)
  rw [int32, Int.bmod_def, hmod]
  split_ifs
  · omega
  · omega

theorem accepted_defaults {maxlen : ℕ} (hmax : maxlen < 2 ^ 32) : Accepted (defaults maxlen) :=
  ⟨Nat.zero_le _, hmax, show 50 < 2 ^ 31 by decide, fun _ hcnts => by cases hcnts⟩

theorem getD_uint32_lt {n : ℕ} (hn : n < 2 ^ 32) (z : Option ℤ) :
    (z.map uint32).getD n < 2 ^ 32 := by
  rcases z with _ | z
  · exact hn
  · exact uint32_lt z

/-- **The checks of the parameters.** -/
theorem histoParms_bounds (ha : Accepted h) (hp : histoParms arg h = some h') :
    h'.hLower ≤ h'.hUpper ∧ h'.hUpper < 2 ^ 32 ∧ h'.hBuckets < 2 ^ 31 := by
  have hbuckets : h.hBuckets < 2 ^ 32 := ha.buckets.trans (by decide)
  unfold histoParms at hp
  split_ifs at hp with harg
  · obtain rfl := Option.some.inj hp
    exact ⟨ha.bounds, ha.upper, ha.buckets⟩
  · dsimp only at hp
    split_ifs at hp with hrc hneg hlow hclip
    obtain rfl := Option.some.inj hp
    simp only [not_or] at hneg
    exact ⟨by omega, getD_uint32_lt ha.upper _,
      lt_of_int32_nonneg (getD_uint32_lt hbuckets _) hneg.2.2.1⟩

theorem accepted_alloc {got : Bool} (ha : Accepted h) (hp : histoAlloc got arg h = some h') :
    Accepted h' := by
  unfold histoAlloc at hp
  rcases hparms : histoParms arg h with _ | h₁
  · rw [hparms] at hp
    cases hp
  · rw [hparms] at hp
    dsimp only at hp
    split_ifs at hp
    obtain rfl := Option.some.inj hp
    obtain ⟨hbounds, hupper, hbuckets⟩ := histoParms_bounds ha hparms
    exact ⟨hbounds, hupper, hbuckets, fun cnts hcnts => (Option.some.inj hcnts).symm⟩

/-- **One option** keeps the parameters acceptable. -/
theorem accepted_option {hs hs' : Histo × Histo} {o : List Byte × Bool}
    (ha : Accepted hs.1 ∧ Accepted hs.2) (ho : histoOption hs o = some hs') :
    Accepted hs'.1 ∧ Accepted hs'.2 := by
  unfold histoOption at ho
  rcases o with ⟨_ | ⟨l, arg⟩, got⟩
  · cases ho
  dsimp only at ho
  split_ifs at ho
  · obtain ⟨h, hp, rfl⟩ := Option.map_eq_some_iff.mp ho
    exact ⟨accepted_alloc ha.1 hp, ha.2⟩
  · obtain ⟨h, hp, rfl⟩ := Option.map_eq_some_iff.mp ho
    exact ⟨ha.1, accepted_alloc ha.2 hp⟩

/-- **All the options.** -/
theorem accepted_foldlM {hs hs' : Histo × Histo} {opts : List (List Byte × Bool)}
    (ha : Accepted hs.1 ∧ Accepted hs.2) (ho : opts.foldlM histoOption hs = some hs') :
    Accepted hs'.1 ∧ Accepted hs'.2 := by
  induction opts generalizing hs with
  | nil =>
    obtain rfl := Option.some.inj ho
    exact ha
  | cons o opts ih =>
    rw [List.foldlM_cons, Option.bind_eq_bind, Option.bind_eq_some_iff] at ho
    obtain ⟨hs₁, hstep, hrest⟩ := ho
    exact ih (accepted_option ha hstep) hrest

/-! ### Buckets -/

/-- The number of lengths in the bounds. -/
def Histo.span (h : Histo) : ℕ := h.hUpper - h.hLower + 1

/-- **The bucket of a length in the bounds**, in whole numbers. -/
theorem bucketOf_eq (ha : Accepted h) (hpos : h.hBuckets ≠ 0) (hspan : h.span < 2 ^ 32)
    (hlo : h.hLower ≤ len) (hhi : len ≤ h.hUpper) :
    (len - h.hLower) * h.hBuckets / h.span < h.hBuckets ∧
      bucketOf h len = some ((len - h.hLower) * h.hBuckets / h.span) := by
  have hbounds := ha.bounds
  have hspan0 : 0 < h.span := Nat.succ_pos _
  have hlt : (len - h.hLower) * h.hBuckets / h.span < h.hBuckets := by
    rw [Nat.div_lt_iff_lt_mul hspan0, Nat.mul_comm h.hBuckets]
    refine Nat.mul_lt_mul_of_pos_right ?_ (Nat.pos_of_ne_zero hpos)
    unfold Histo.span
    omega
  have hint : (h.hUpper : ℤ) - h.hLower + 1 = (h.span : ℤ) := by
    unfold Histo.span
    omega
  have hq : ((len : ℚ) - h.hLower) / ((h.span : ℚ) / h.hBuckets) =
      (((len - h.hLower) * h.hBuckets : ℕ) : ℚ) / (h.span : ℕ) := by
    rw [Nat.cast_mul, Nat.cast_sub hlo, div_div_eq_mul_div]
  have hfloor : ⌊((len : ℚ) - h.hLower) / ((h.span : ℚ) / h.hBuckets)⌋ =
      (((len - h.hLower) * h.hBuckets / h.span : ℕ) : ℤ) := by
    rw [hq, Rat.floor_natCast_div_natCast]
    rfl
  have hwidth : (h.span : ℚ) / h.hBuckets ≠ 0 :=
    div_ne_zero (Nat.cast_ne_zero.mpr hspan0.ne') (Nat.cast_ne_zero.mpr hpos)
  have hbuckets := ha.buckets
  refine ⟨hlt, ?_⟩
  rw [bucketOf, if_neg hpos, hint, uint32_of_lt hspan]
  simp only [if_neg hwidth, hfloor]
  rw [if_neg (by omega), uint32_of_lt (by omega), if_pos hlt]

/-- No width without buckets, and none where 32 bits do not hold the number of lengths. -/
theorem bucketOf_none (ha : Accepted h) (hbad : h.hBuckets = 0 ∨ ¬ h.span < 2 ^ 32) (len : ℕ) :
    bucketOf h len = none := by
  by_cases hzero : h.hBuckets = 0
  · exact if_pos hzero
  have hspan := hbad.resolve_left hzero
  have hbounds := ha.bounds
  have hupper := ha.upper
  have hint : (h.hUpper : ℤ) - h.hLower + 1 = 2 ^ 32 := by
    unfold Histo.span at hspan
    omega
  have hwrap : uint32 ((2 : ℤ) ^ 32) = 0 := by decide
  rw [bucketOf, if_neg hzero, hint, hwrap]
  simp

theorem span_lt_iff (ha : Accepted h) :
    h.span < 2 ^ 32 ↔ ¬ (h.hLower = 0 ∧ h.hUpper = 2 ^ 32 - 1) := by
  have hbounds := ha.bounds
  have hupper := ha.upper
  unfold Histo.span
  omega

/-- **When the lengths are counted.** -/
theorem sound_iff_of_accepted (ha : Accepted h) :
    Sound h ↔ h.hBuckets ≠ 0 ∧ ¬ (h.hLower = 0 ∧ h.hUpper = 2 ^ 32 - 1) := by
  rw [← span_lt_iff ha]
  constructor
  · intro hs
    by_contra hbad
    have hnone := bucketOf_none ha (by tauto) h.hLower
    obtain ⟨b, -, hb, -⟩ := hs.inside (List.replicate h.hBuckets 0) h.hLower List.length_replicate
      (le_refl _) ha.bounds
    rw [hnone] at hb
    cases hb
  · rintro ⟨hpos, hspan⟩
    refine ⟨fun cnts len _ hlo hhi => ?_, fun cnts len hout => ?_, ?_⟩
    · obtain ⟨hlt, hb⟩ := bucketOf_eq ha hpos hspan hlo hhi
      refine ⟨_, hlt, hb, ?_⟩
      have hin : ¬ (len < h.hLower ∨ h.hUpper < len) := by omega
      have hb' : bucketOf { h with hHisto := some cnts } len = _ := hb
      simp only [addtoHisto, if_neg hin, hb']
    · simp only [addtoHisto, if_pos hout]
    · intro len len' b b' hlo hle hhi hb hb'
      rw [(bucketOf_eq ha hpos hspan hlo (hle.trans hhi)).2] at hb
      rw [(bucketOf_eq ha hpos hspan (hlo.trans hle) hhi).2] at hb'
      obtain rfl := Option.some.inj hb
      obtain rfl := Option.some.inj hb'
      refine Nat.div_le_div_right (Nat.mul_le_mul_right _ ?_)
      omega

/-- **The histograms of `kctl_stats` count** exactly if they have a bucket, and do not reach from 0
to the largest number of 32 bits. -/
theorem histo_iff {lim : Klimits} {opts : List (List Byte × Bool)} {hkey hval : Histo}
    (hk : lim.klKeylen < 2 ^ 32) (hv : lim.klVallen < 2 ^ 32)
    (hacc : kctlStats lim opts = some (hkey, hval)) (h : Histo) (hh : h = hkey ∨ h = hval) :
    (∀ cnts ∈ h.hHisto, cnts = List.replicate h.hBuckets 0) ∧
      (Sound h ↔ h.hBuckets ≠ 0 ∧ ¬ (h.hLower = 0 ∧ h.hUpper = 2 ^ 32 - 1)) := by
  obtain ⟨hakey, haval⟩ := accepted_foldlM ⟨accepted_defaults hk, accepted_defaults hv⟩ hacc
  rcases hh with rfl | rfl
  · exact ⟨hakey.zeros, sound_iff_of_accepted hakey⟩
  · exact ⟨haval.zeros, sound_iff_of_accepted haval⟩

/-- `k:2:0x10:5` -/
def keyParms : List Byte := [107, 58, 50, 58, 48, 120, 49, 48, 58, 53]

/-- `k:0:10:0` -/
def noBuckets : List Byte := [107, 58, 48, 58, 49, 48, 58, 48]

/-- The histogram of the lengths from 2 to 16 in five buckets. -/
def fiveBuckets : Histo :=
  { hLower := 2, hUpper := 16, hBuckets := 5, hRows := 20, hRclip := 0,
    hHisto := some [0, 0, 0, 0, 0] }

theorem fiveBuckets_sound :
    (∀ cnts ∈ fiveBuckets.hHisto, cnts = List.replicate fiveBuckets.hBuckets 0) ∧
      (Sound fiveBuckets ↔
        fiveBuckets.hBuckets ≠ 0 ∧ ¬ (fiveBuckets.hLower = 0 ∧ fiveBuckets.hUpper = 2 ^ 32 - 1)) :=
  histo_iff (show smallLimits.klKeylen < 2 ^ 32 by decide)
    (show smallLimits.klVallen < 2 ^ 32 by decide)
    (show kctlStats smallLimits [(keyParms, true)] = some (fiveBuckets, defaults 64) by
      decide +kernel) fiveBuckets (.inl rfl)

theorem noBuckets_accepted : ∃ hkey hval,
    kctlStats smallLimits [(noBuckets, true)] = some (hkey, hval) ∧ hkey.hLower ≤ 5 ∧
      5 ≤ hkey.hUpper ∧ addtoHisto hkey 5 = none := by
  refine ⟨{ hLower := 0, hUpper := 10, hBuckets := 0, hRows := 20, hRclip := 0, hHisto := some [] },
    defaults 64, ?_, ?_, ?_, ?_⟩
  · decide +kernel
  · decide
  · decide
  · rfl

end Accepted

end Libkinetic.Toolbox.Stats
