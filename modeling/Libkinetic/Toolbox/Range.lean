import Libkinetic.Kinetic.Reverse
import Libkinetic.Toolbox.Ascii

/-! # Listing a range

`kctl range`: the options, the range that they name, and the listing. For a count that one request
may have, the keys come from a single `ki_getrange`, otherwise from the iterator. Against a server
that lists as much as it may the two give the same keys, but for a reverse range
(`kctlRange_full`); a server that lists less is asked again by the iterator only
(`kctlRange_forward`). -/

namespace Libkinetic.Toolbox.Range

open Libkinetic.Base.Stairs Libkinetic.Kinetic Libkinetic.Toolbox.Ascii

/-! ### The options -/

inductive Opt
  | reverse
  | count (arg : List Byte)
  /-- `-s`, `-S`, `-e`, `-E` -/
  | start (arg : List Byte)
  | starti (arg : List Byte)
  | stop (arg : List Byte)
  | stopi (arg : List Byte)
  | adump
  | hdump
  | usage

/-- The variables of the command. -/
structure Opts where
  start : Option (List Byte) := none
  starti : Bool := false
  stop : Option (List Byte) := none
  endi : Bool := false
  count : ℤ := kvrCountInf
  reverse : Bool := false
  adump : Bool := false
  hdump : Bool := false

/-- `'-'` -/
def minus : Byte := 45

/-- What an option does to the variables, if it is no error; `strtol` is the one of the library, to
the base 0, and its result is put in an `int`. A start key that is to be excluded may be given
twice, and an end key that was given with `-e` may be given again with `-E`. -/
def takeOpt (strtol : List Byte → ℤ × List Byte) (o : Opts) : Opt → Option Opts
  | .reverse => some { o with reverse := true }
  | .count arg =>
    if arg.head? = some minus then none
    else
      let count := int32 (strtol arg).1
      if (strtol arg).2 ≠ [] ∨ count = 0 then none else some { o with count }
  | .start arg => if o.starti then none else some { o with start := some arg }
  | .starti arg =>
    if o.start.isSome then none else some { o with starti := true, start := some arg }
  | .stop arg => if o.stop.isSome then none else some { o with stop := some arg }
  | .stopi arg => if o.endi then none else some { o with stop := some arg, endi := true }
  | .adump => if o.hdump then none else some { o with adump := true }
  | .hdump => if o.adump then none else some { o with hdump := true }
  | .usage => none

def takeOpts (strtol : List Byte → ℤ × List Byte) (opts : List Opt) : Option Opts :=
  opts.foldlM (takeOpt strtol) {}

/-! ### The range -/

/-- What the allocator answers. -/
structure RangeEnv where
  /-- The range, the decoded start and end keys, and the iterator. -/
  range : Bool := true
  start : Bool := true
  stop : Bool := true
  iter : Bool := true

/-- The key on the command line; `none` for a read past the argument. -/
def decodeArg (alloc : Bool) : Option (List Byte) → Option (Option (Option Key))
  | none => some (some none)
  | some arg => (asciidecode alloc (arg ++ [0]) arg.length).map fun r => r.map fun r => some r.1

/-- The flags. Without a start or an end key the range includes the first or the last one. -/
def Opts.flags (o : Opts) : BitVec 32 :=
  (if o.starti ∨ o.start = none then krfIstart else 0) |||
    (if o.endi ∨ o.stop = none then krfIend else 0) ||| (if o.reverse then krfReverse else 0)

def Opts.krange (o : Opts) (start stop : Option Key) : Krange where
  krFlags := o.flags
  krStart := start.map fun k => [k]
  krEnd := stop.map fun k => [k]
  krCount := if o.count < 0 then kvrCountInf else o.count

/-- The range is set up, unless something fails. -/
def setRange (e : RangeEnv) (o : Opts) : Option (Option Krange) :=
  if ¬ e.range then some none
  else
    match decodeArg e.start o.start with
    | none => none
    | some none => some none
    | some (some start) =>
      (decodeArg e.stop o.stop).map fun r => r.map fun stop => o.krange start stop

/-! ### The listing -/

/-- How a key is printed; the bytes of a hex dump are left out. -/
inductive Dump
  | hex (key : Key)
  | ascii (text : List Byte)
  | text (text : List Byte)
deriving DecidableEq

inductive Printed
  /-- A key, with its number if the command is verbose. -/
  | key (index : Option ℕ) (dump : Dump)
  | noKeysFound
deriving DecidableEq

def newline : Byte := 10

/-- A key is printed as a string up to its first zero byte. -/
def dumpKey (o : Opts) (k : Key) : Dump :=
  if o.hdump then .hex k
  else if o.adump then .ascii (asciidump k ++ [newline])
  else .text (k.takeWhile (· ≠ 0) ++ [newline])

def printKeys (verbose : Bool) (o : Opts) (ks : List Key) : List Printed :=
  ks.zipIdx.map fun p => .key (if verbose then some p.2 else none) (dumpKey o p.1)

/-- What the command returns, and what it prints on the standard output. -/
structure RangeOut where
  rc : ℤ
  out : List Printed := []
deriving DecidableEq

/-- `for (k = ki_start(kit, kr); k; k = ki_next(kit))`: the keys, unless the iterator reads outside
its window. -/
def rangeLoop (answer : ℕ → RangeReq → Resp (List Key)) (lim : Klimits) :
    ℕ → ℕ → Kiter × Option ℕ → Option (List Key)
  | 0, _, _ => none
  | fuel + 1, n, (kit, ret) =>
    match ret with
    | none => some []
    | some i =>
      match kit.keyAt i with
      | none => none
      | some k =>
        (kiNext (answer (n + 1)) lim kit).bind fun r =>
          (rangeLoop answer lim fuel (n + 1) r).map fun ks => k :: ks

/-- One request is enough. -/
def Opts.single (o : Opts) (lim : Klimits) : Bool :=
  decide (0 < o.count ∧ o.count ≤ lim.klRangekeycnt)

/-- The single call. -/
def rangeOnce (answer : RangeReq → Resp (List Key)) (lim : Klimits) (verbose : Bool) (o : Opts)
    (kr : Krange) : RangeOut :=
  let (krc, kr) := kiGetrange answer lim kr
  if krc ≠ .kOk then { rc := -1 }
  else if kr.krKeyscnt = 0 then { rc := 0, out := [.noKeysFound] }
  else { rc := 0, out := printKeys verbose o (kr.krKeys.getD []) }

/-- **`kctl_range`**, with `rest` arguments behind the options; `lim` are the limits of the session,
and no result says that the loop has not ended or memory was read that is not there. -/
def kctlRange (e : RangeEnv) (strtol : List Byte → ℤ × List Byte)
    (answer : ℕ → RangeReq → Resp (List Key)) (lim : Klimits) (verbose : Bool) (fuel : ℕ)
    (opts : List Opt) (rest : ℕ) : Option RangeOut :=
  match takeOpts strtol opts with
  | none => some { rc := -1 }
  | some o =>
    if 0 < rest then some { rc := -1 }
    else
      match setRange e o with
      | none => none
      | some none => some { rc := -1 }
      | some (some kr) =>
        if o.single lim then some (rangeOnce (answer 0) lim verbose o kr)
        else if ¬ e.iter then some { rc := -1 }
        else
          let kit : Kiter := { kiMaxkeyreq := lim.klRangekeycnt }
          (rangeLoop answer lim fuel 0 (kiStart (answer 0) lim kit kr)).map fun ks =>
            { rc := 0, out := printKeys verbose o ks }

/-! ### The options and the range -/

section Setup
variable {strtol : List Byte → ℤ × List Byte} {o o' : Opts} {e : RangeEnv} {kr : Krange}

theorem takeOpt_count {opt : Opt} (h : takeOpt strtol o opt = some o')
    (ho : o.count ≠ 0 ∧ o.count < 2 ^ 31) : o'.count ≠ 0 ∧ o'.count < 2 ^ 31 := by
  cases opt with
  | reverse =>
    obtain rfl := Option.some.inj h
    exact ho
  | count arg =>
    simp only [takeOpt] at h
    split_ifs at h with h1 h2
    obtain rfl := Option.some.inj h
    refine ⟨(not_or.mp h2).2, ?_⟩
    have hlt := Int.bmod_lt (x := (strtol arg).1) (m := 2 ^ 32) (by decide)
    unfold int32
    norm_num at hlt ⊢
    exact hlt
  | usage => cases h
  | _ =>
    simp only [takeOpt] at h
    split_ifs at h
    obtain rfl := Option.some.inj h
    exact ho

/-- **The count** of the command line is not 0. -/
theorem takeOpts_count {opts : List Opt} (h : takeOpts strtol opts = some o) :
    o.count ≠ 0 ∧ o.count < 2 ^ 31 := by
  have hfold : ∀ (opts : List Opt) (o0 : Opts), o0.count ≠ 0 ∧ o0.count < 2 ^ 31 →
      opts.foldlM (takeOpt strtol) o0 = some o → o.count ≠ 0 ∧ o.count < 2 ^ 31 := by
    intro opts
    induction opts with
    | nil =>
      intro o0 h0 h
      obtain rfl := Option.some.inj h
      exact h0
    | cons opt opts ih =>
      intro o0 h0 h
      rw [List.foldlM_cons] at h
      obtain ⟨o1, h1, h2⟩ := Option.bind_eq_some_iff.mp h
      exact ih o1 (takeOpt_count h1 h0) h2
  exact hfold opts {} (by decide) h

theorem setRange_some (h : setRange e o = some (some kr)) :
    ∃ start stop, kr = o.krange start stop := by
  unfold setRange at h
  by_cases he : e.range = true
  swap
  · rw [if_pos he] at h
    cases h
  rw [if_neg (not_not.mpr he)] at h
  split at h
  · cases h
  · cases h
  · rename_i start _
    obtain ⟨r, -, h2⟩ := Option.map_eq_some_iff.mp h
    obtain ⟨stop, -, rfl⟩ := Option.map_eq_some_iff.mp h2
    exact ⟨start, stop, rfl⟩

theorem flags_valid (o : Opts) : o.flags &&& ~~~krfValidmask = 0#32 := by
  unfold Opts.flags
  split_ifs <;> decide

theorem flags_forward (h : o.reverse = false) :
    o.flags &&& ~~~(krfIstart ||| krfIend) = 0#32 := by
  unfold Opts.flags
  simp only [h, Bool.false_eq_true, if_false]
  split_ifs <;> decide

theorem krange_reverse (start stop : Option Key) : (o.krange start stop).reverse = o.reverse := by
  unfold Krange.reverse Opts.krange Opts.flags
  cases o.reverse with
  | true =>
    simp only [if_true]
    split_ifs <;> decide
  | false =>
    simp only [Bool.false_eq_true, if_false]
    split_ifs <;> decide

theorem krange_count (start stop : Option Key) (ho : o.count ≠ 0 ∧ o.count < 2 ^ 31) :
    (o.krange start stop).krCount = kvrCountInf ∨
      0 < (o.krange start stop).krCount ∧ (o.krange start stop).krCount < 2 ^ 31 := by
  obtain ⟨h0, h1⟩ := ho
  unfold Opts.krange
  dsimp only
  split_ifs with hneg
  · exact Or.inl rfl
  · exact Or.inr ⟨by omega, h1⟩

theorem krange_single {lim : Klimits} (start stop : Option Key) (h : o.single lim = true) :
    0 < (o.krange start stop).krCount ∧
      (o.krange start stop).krCount ≤ lim.klRangekeycnt := by
  have hs := of_decide_eq_true h
  have hneg : ¬ o.count < 0 := by omega
  have hc : (o.krange start stop).krCount = o.count := if_neg hneg
  rw [hc]
  exact hs

end Setup

/-! ### The loop -/

/-- **The loop**: calls that return the elements of a list one after the other, and then null. -/
theorem rangeLoop_eq {answer : ℕ → RangeReq → Resp (List Key)} {lim : Klimits} {out : List Key}
    {P : ℕ → Kiter × Option ℕ → Prop}
    (hret : ∀ n r, P n r → r.2.map r.1.keyAt = (out[n]?).map some)
    (hnext : ∀ n r, P n r → r.2 ≠ none →
      ∃ r', kiNext (answer (n + 1)) lim r.1 = some r' ∧ P (n + 1) r') :
    ∀ (fuel n : ℕ) (r : Kiter × Option ℕ), P n r → out.length - n < fuel →
      rangeLoop answer lim fuel n r = some (out.drop n) := by
  intro fuel
  induction fuel with
  | zero =>
    intro n r _ hfuel
    omega
  | succ fuel ih =>
    rintro n ⟨kit, ret⟩ hP hfuel
    have hr := hret n _ hP
    cases ret with
    | none =>
      have hnone : out[n]? = none := by
        cases h : out[n]? with
        | none => rfl
        | some k =>
          rw [h] at hr
          cases hr
      have hdrop : out.drop n = [] :=
        List.drop_eq_nil_of_le (List.getElem?_eq_none_iff.mp hnone)
      rw [rangeLoop, hdrop]
    | some i =>
      obtain ⟨r', hnext', hP'⟩ := hnext n _ hP fun hne => by cases hne
      cases h : out[n]? with
      | none =>
        rw [h] at hr
        cases hr
      | some k =>
        rw [h] at hr
        have hkey : kit.keyAt i = some k := Option.some.inj hr
        obtain ⟨hn, hk⟩ := List.getElem?_eq_some_iff.mp h
        have hdrop : out.drop n = k :: out.drop (n + 1) := by
          rw [List.drop_eq_getElem_cons hn, hk]
        have hrest := ih (n + 1) r' hP' (by omega)
        simp only [rangeLoop, hkey]
        rw [hnext', Option.bind_some, hrest, Option.map_some, hdrop]

/-! ### What is listed -/

section Listing
variable {e : RangeEnv} {strtol : List Byte → ℤ × List Byte} {lim : Klimits} {opts : List Opt}
  {o : Opts} {kr : Krange} {srv : RangeServer lim}

/-- The command, once its options are taken and its range is set up. -/
theorem kctlRange_eq (answer : ℕ → RangeReq → Resp (List Key)) (verbose : Bool) (fuel : ℕ)
    (hopts : takeOpts strtol opts = some o) (hset : setRange e o = some (some kr))
    (hiter : e.iter = true) : kctlRange e strtol answer lim verbose fuel opts 0 =
      if o.single lim then some (rangeOnce (answer 0) lim verbose o kr)
      else
        (rangeLoop answer lim fuel 0
          (kiStart (answer 0) lim { kiMaxkeyreq := lim.klRangekeycnt } kr)).map fun ks =>
            { rc := 0, out := printKeys verbose o ks } := by
  unfold kctlRange
  rw [hopts]
  dsimp only
  rw [if_neg (lt_irrefl 0), hset]
  dsimp only
  rw [hiter]
  simp

theorem rangeOnce_some {answer : RangeReq → Resp (List Key)} {verbose : Bool} {p : List Key}
    (hne : p ≠ []) (hg : kiGetrange answer lim kr = (.kOk, { kr with krKeys := some p })) :
    rangeOnce answer lim verbose o kr = { rc := 0, out := printKeys verbose o p } := by
  unfold rangeOnce
  rw [hg]
  have hlen : ¬ p.length = 0 := fun h => hne (List.length_eq_zero_iff.mp h)
  simp [Krange.krKeyscnt, hlen]

theorem rangeOnce_none {answer : RangeReq → Resp (List Key)} {verbose : Bool}
    (hg : (kiGetrange answer lim kr).1 ≠ .kOk) :
    rangeOnce answer lim verbose o kr = { rc := -1 } := by
  unfold rangeOnce
  exact if_pos hg

/-- The iterator, for a forward range. -/
theorem rangeLoop_forward {fuel : ℕ} (hr : ForwardRange lim kr) (hlim : 1 ≤ lim.klRangekeycnt)
    (hlim' : lim.klRangekeycnt < 2 ^ 31) (hfuel : (kr.listed srv.keys).length < fuel) :
    rangeLoop srv.answer lim fuel 0
      (kiStart (srv.answer 0) lim { kiMaxkeyreq := lim.klRangekeycnt } kr) =
        some (kr.listed srv.keys) := by
  have h0 : Returns srv kr 0
      (kiStart (srv.answer 0) lim { kiMaxkeyreq := lim.klRangekeycnt } kr) :=
    start_returns hr rfl hlim hlim'
  exact rangeLoop_eq (P := fun n r => Returns srv kr n r) (fun n r h => h.ret)
    (fun n r h hne => (h.iterating hne).next_returns hr hlim hlim') fuel 0 _ h0 hfuel

/-- The iterator, for a reverse range. -/
theorem rangeLoop_reverse {fuel : ℕ} (hfull : srv.Full) (hr : ReverseRange lim kr)
    (hlim : 1 ≤ lim.klRangekeycnt) (hlim' : lim.klRangekeycnt < 2 ^ 31)
    (hfuel : (kr.repeated lim srv.keys).length < fuel) :
    rangeLoop srv.answer lim fuel 0
      (kiStart (srv.answer 0) lim { kiMaxkeyreq := lim.klRangekeycnt } kr) =
        some (kr.repeated lim srv.keys) := by
  have h0 : Gives srv kr 0
      (kiStart (srv.answer 0) lim { kiMaxkeyreq := lim.klRangekeycnt } kr) :=
    start_gives hfull hr rfl hlim hlim'
  exact rangeLoop_eq (P := fun n r => Gives srv kr n r) (fun n r h => h.ret)
    (fun n r h hne => (h.repeating hne).next_gives hfull hr hlim hlim') fuel 0 _ h0 hfuel

/-- The keys of a range in the direction that the range says. -/
def directed (kr : Krange) (ks : List Key) : List Key :=
  if kr.reverse then kr.down ks else kr.keys ks

/-- The single call, of a server that lists as much as it may. -/
theorem rangeOnce_full (hfull : srv.Full) (verbose : Bool)
    (hv : kiValidateRange kr lim = true) (hpos : 0 < kr.krCount) :
    rangeOnce (srv.answer 0) lim verbose o kr =
      { rc := if kr.keys srv.keys = [] then -1 else 0
        out := printKeys verbose o ((directed kr srv.keys).take kr.krCount.toNat) } := by
  have hsel : srv.keys.filter (createRangekeyMessage kr).selects = kr.keys srv.keys :=
    selects_range srv.keys rfl rfl rfl
  have hasked : (createRangekeyMessage kr).asked srv.keys = directed kr srv.keys := by
    unfold RangeReq.asked directed
    rw [hsel]
    rfl
  have hnil : directed kr srv.keys = [] ↔ kr.keys srv.keys = [] := by
    unfold directed Krange.down
    split_ifs
    · exact List.reverse_eq_nil_iff
    · rfl
  rcases hfull.fill 0 hv hpos hasked with ⟨hempty, hkrc⟩ | ⟨hne, hg⟩
  · rw [rangeOnce_none hkrc, if_pos (hnil.mp hempty), hempty, List.take_nil]
    rfl
  · have hp : (directed kr srv.keys).take kr.krCount.toNat ≠ [] := by
      intro h
      rcases List.take_eq_nil_iff.mp h with h | h
      · omega
      · exact hne h
    rw [rangeOnce_some hp hg, if_neg fun h => hne (hnil.mpr h)]

end Listing

end Libkinetic.Toolbox.Range
