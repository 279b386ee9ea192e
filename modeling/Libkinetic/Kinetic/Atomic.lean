import Libkinetic.Kinetic.Batch

/-! # The counters of a session under concurrency

`b_atom_inc` reads a counter and tries to swap it for its sum with `i`, again after every race that
it loses, up to a number of retries. Here any number of calls run at once, one read or one
compare-and-swap at a time. The retries are tested before they are decremented in the loop and once
more after it: a call that has lost 1000 races and wins the next one reports a failure, and one that
loses 1001 reports a success. Whatever happens, `*v` holds the value that was read last, not the new
one. -/

namespace Libkinetic.Kinetic.Atomic

open Libkinetic.Base.Runs

/-! ### A call -/

/-- Where a call stands: before it reads the counter, before it swaps, or back with its result. -/
inductive IncPc
  | read
  | swap
  | done (rc : ℤ)
deriving DecidableEq

/-- A call of `b_atom_inc` on a counter; `i` is added as the unsigned number it is converted to. -/
structure Inc where
  i : BitVec 32
  retries : ℤ := 1000
  /-- `*v` -/
  v : BitVec 32 := 0
  pc : IncPc := .read
  /-- The races that the call has lost. -/
  lost : ℕ := 0
  /-- The values that the call has put into the counter. -/
  puts : List (BitVec 32) := []
deriving DecidableEq

/-- The test after the loop. -/
def incResult (retries : ℤ) : ℤ := if retries = 0 then -1 else 0

/-- **A step of `b_atom_inc`** on the counter `p`. -/
def incStep (p : BitVec 32) (x : Inc) : Option (BitVec 32 × Inc) :=
  match x.pc with
  | .read => some (p, { x with v := p, pc := .swap })
  | .swap =>
    if p = x.v then
      let new := x.v + x.i
      some (new, { x with puts := x.puts ++ [new], pc := .done (incResult x.retries) })
    else
      -- `retries--`, tested before the decrement
      let y := { x with retries := x.retries - 1, lost := x.lost + 1 }
      if x.retries ≠ 0 then some (p, { y with pc := .read })
      else some (p, { y with pc := .done (incResult y.retries) })
  | .done _ => none

/-! ### A call against given races

The model of a whole call, which takes the values that are put into the counter before its swaps,
is what the steps do when these values arrive. -/

/-- The rest of a call that is to swap and loses a race to each of the values. -/
def incAgainst (x : Inc) (p : BitVec 32) : List (BitVec 32) → Option (BitVec 32 × Inc)
  | [] => incStep p x
  | q :: lost =>
    (incStep q x).bind fun r =>
      if r.2.pc = .read then (incStep r.1 r.2).bind fun t => incAgainst t.2 t.1 lost else some r

theorem uint32_add_toInt (v i : BitVec 32) : uint32 (v.toNat + i.toInt) = (v + i).toNat := by
  have hv := v.isLt
  have hi := i.isLt
  rw [BitVec.toNat_add, BitVec.toInt_eq_toNat_cond]
  unfold uint32
  split <;> omega

/-- **The steps of a call** do what the model of the whole call does. -/
theorem incAgainst_eq {lost : List (BitVec 32)} {n : ℕ} {x : Inc} (hpc : x.pc = .swap)
    (hret : x.retries = n) (hdiff : (x.v :: lost).IsChain (· ≠ ·)) :
    ∃ p y rc, incAgainst x x.v lost = some (p, y) ∧ y.pc = .done rc ∧
      bAtomIncLoop x.i.toInt (lost.map BitVec.toNat) n x.v.toNat = ⟨rc, p.toNat, y.v.toNat⟩ := by
  induction lost generalizing n x with
  | nil =>
    have hs : incStep x.v x = some (x.v + x.i, { x with
        puts := x.puts ++ [x.v + x.i], pc := .done (incResult x.retries) }) := by
      rw [incStep, hpc]
      exact if_pos rfl
    refine ⟨_, _, _, hs, rfl, ?_⟩
    rw [List.map_nil, bAtomIncLoop, uint32_add_toInt, incResult, hret]
    simp
  | cons q lost ih =>
    obtain ⟨hne, hrest⟩ := List.isChain_cons_cons.mp hdiff
    rw [List.map_cons, bAtomIncLoop, incAgainst]
    by_cases hn : n = 0
    · -- the retries are used up
      have hs : incStep q x = some (q, { x with
          retries := x.retries - 1, lost := x.lost + 1, pc := .done 0 }) := by
        rw [incStep, hpc]
        simp [hne.symm, hret, hn, incResult]
      rw [if_pos hn, hs]
      exact ⟨_, _, _, rfl, rfl, rfl⟩
    · have hs : incStep q x = some (q, { x with
          retries := x.retries - 1, lost := x.lost + 1, pc := .read }) := by
        rw [incStep, hpc]
        simp [hne.symm, hret, hn]
      rw [if_neg hn, hs]
      obtain ⟨n, rfl⟩ := Nat.exists_eq_succ_of_ne_zero hn
      have hret' : x.retries - 1 = (n : ℤ) := by
        rw [hret]
        push_cast
        omega
      exact ih (x := { x with retries := x.retries - 1, lost := x.lost + 1, v := q, pc := .swap })
        rfl hret' hrest

/-- A whole call. -/
theorem bAtomInc_steps (p i : BitVec 32) {lost : List (BitVec 32)}
    (hdiff : (p :: lost).IsChain (· ≠ ·)) :
    ∃ p' y rc, ((incStep p { i }).bind fun r => incAgainst r.2 r.1 lost) = some (p', y) ∧
      y.pc = .done rc ∧
      bAtomInc p.toNat i.toInt (lost.map BitVec.toNat) = ⟨rc, p'.toNat, y.v.toNat⟩ :=
  incAgainst_eq (x := { i, v := p, pc := .swap }) rfl rfl hdiff

/-! ### The counter -/

/-- A counter, with the calls on it. -/
structure Counter (τ : Type) where
  val : BitVec 32
  calls : τ → Option Inc := fun _ => none
  /-- The calls that have changed the counter, in order. -/
  swapped : List τ := []

inductive CounterAct (τ : Type)
  | begin (c : τ) (i : BitVec 32)
  | step (c : τ)
deriving DecidableEq

section Counters
variable {τ : Type} [DecidableEq τ]

/-- A call begins, under a name of its own, or makes a step. -/
def counterStep (s : Counter τ) : CounterAct τ → Option (Counter τ)
  | .begin c i =>
    if s.calls c = none then some { s with calls := Function.update s.calls c (some { i }) }
    else none
  | .step c =>
    (s.calls c).bind fun x =>
      (incStep s.val x).map fun r =>
        { val := r.1
          calls := Function.update s.calls c (some r.2)
          swapped := if r.2.puts = x.puts then s.swapped else s.swapped ++ [c] }

/-- No call has begun. -/
def CounterInit (s : Counter τ) : Prop := ∃ val, s = { val }

/-! ### What a call promises -/

/-- **What a call is to do** when it returns `rc`. -/
structure Inc.Correct (x : Inc) (rc : ℤ) : Prop where
  once : rc = 0 ↔ x.puts.length = 1
  new : rc = 0 → x.puts = [x.v]
  unchanged : rc = -1 → x.puts = []

/-- What a call does: the number of races that it lost decides. -/
inductive Inc.Went (x : Inc) : Prop
  | going (hpc : x.pc = .read ∨ x.pc = .swap) (hputs : x.puts = []) (hlost : x.lost ≤ 1000)
  | added (hpc : x.pc = .done 0) (hputs : x.puts = [x.v + x.i]) (hlost : x.lost < 1000)
  | denied (hpc : x.pc = .done (-1)) (hputs : x.puts = [x.v + x.i]) (hlost : x.lost = 1000)
  | gaveUp (hpc : x.pc = .done 0) (hputs : x.puts = []) (hlost : x.lost = 1001)

/-- A call with the retries that its races have left it. -/
structure Inc.Fine (x : Inc) : Prop where
  retries : x.retries = 1000 - x.lost
  went : x.Went

variable {p p' : BitVec 32} {x y : Inc}

theorem Inc.Fine.new (i : BitVec 32) : Inc.Fine { i } where
  retries := rfl
  went := .going (.inl rfl) rfl (Nat.zero_le _)

/-- **A step of a call.** -/
theorem Inc.Fine.step (h : x.Fine) (hs : incStep p x = some (p', y)) : y.Fine := by
  obtain ⟨hret, hwent⟩ := h
  cases hwent with
  | added hpc _ _ | denied hpc _ _ | gaveUp hpc _ _ =>
    rw [incStep, hpc] at hs
    cases hs
  | going hpc hputs hlost =>
    rcases hpc with hpc | hpc
    · rw [incStep, hpc] at hs
      cases hs
      exact ⟨hret, .going (.inr rfl) hputs hlost⟩
    · rw [incStep, hpc] at hs
      dsimp only at hs
      split_ifs at hs with hwin hmore
      · -- the race is won
        cases hs
        refine ⟨hret, ?_⟩
        have hnew : x.puts ++ [x.v + x.i] = [x.v + x.i] := by rw [hputs, List.nil_append]
        by_cases hlast : x.lost = 1000
        · refine .denied ?_ hnew hlast
          have hzero : x.retries = 0 := by rw [hret, hlast]; norm_num
          rw [incResult, if_pos hzero]
        · have hfew : x.lost < 1000 := by omega
          refine .added ?_ hnew hfew
          have hpos : x.retries ≠ 0 := by omega
          rw [incResult, if_neg hpos]
      · -- it is lost, and there is a retry left
        cases hs
        refine ⟨?_, .going (.inl rfl) hputs ?_⟩
        · push_cast
          omega
        · show x.lost + 1 ≤ 1000
          omega
      · -- it is lost, and the retries are used up
        cases hs
        have hzero : x.retries = 0 := not_not.mp hmore
        refine ⟨?_, .gaveUp ?_ hputs ?_⟩
        · push_cast
          omega
        · rw [hzero]
          rfl
        · show x.lost + 1 = 1001
          omega

/-- **A call that is back** is correct exactly if it adds nothing and loses fewer than 1000 races. -/
theorem Inc.Fine.correct_iff (h : x.Fine) {rc : ℤ} (hpc : x.pc = .done rc) :
    x.Correct rc ↔ x.i = 0 ∧ x.lost < 1000 := by
  obtain ⟨-, hwent⟩ := h
  cases hwent with
  | going hpc' _ _ =>
    rw [hpc] at hpc'
    rcases hpc' with hpc' | hpc' <;> cases hpc'
  | added hpc' hputs hlost =>
    obtain rfl : rc = 0 := by simpa [hpc] using hpc'
    constructor
    · intro hc
      have hv : x.v + x.i = x.v := by simpa [hputs] using hc.new rfl
      exact ⟨by simpa using hv, hlost⟩
    · rintro ⟨hi, -⟩
      refine ⟨by simp [hputs], fun _ => ?_, fun h => by cases h⟩
      rw [hputs, hi]
      exact congrArg (fun v => [v]) (BitVec.add_zero x.v)
  | denied hpc' hputs hlost =>
    obtain rfl : rc = -1 := by simpa [hpc] using hpc'
    refine iff_of_false (fun hc => ?_) (by omega)
    have hnil := hc.unchanged rfl
    rw [hputs] at hnil
    cases hnil
  | gaveUp hpc' hputs hlost =>
    obtain rfl : rc = 0 := by simpa [hpc] using hpc'
    refine iff_of_false (fun hc => ?_) (by omega)
    have hone := hc.once.mp rfl
    rw [hputs] at hone
    cases hone

/-- What a step does to the counter. -/
theorem incStep_cases (hs : incStep p x = some (p', y)) :
    y.i = x.i ∧ (p' = p ∧ y.puts = x.puts ∧ (y.lost = x.lost ∨
        x.pc = .swap ∧ p ≠ x.v ∧ y.lost = x.lost + 1) ∨
      x.pc = .swap ∧ p = x.v ∧ p' = x.v + x.i ∧ y.v = x.v ∧ y.puts = x.puts ++ [x.v + x.i] ∧
        y.lost = x.lost) := by
  unfold incStep at hs
  cases hpc : x.pc with
  | read =>
    rw [hpc] at hs
    cases hs
    exact ⟨rfl, .inl ⟨rfl, rfl, .inl rfl⟩⟩
  | swap =>
    rw [hpc] at hs
    dsimp only at hs
    split_ifs at hs with hwin hmore
    · cases hs
      exact ⟨rfl, .inr ⟨rfl, hwin, rfl, rfl, rfl, rfl⟩⟩
    · cases hs
      exact ⟨rfl, .inl ⟨rfl, rfl, .inr ⟨rfl, hwin, rfl⟩⟩⟩
    · cases hs
      exact ⟨rfl, .inl ⟨rfl, rfl, .inr ⟨rfl, hwin, rfl⟩⟩⟩
  | done rc =>
    rw [hpc] at hs
    cases hs

/-- **What a step of a counter does**: one call is put in place. -/
theorem counterStep_cases {s s' : Counter τ} {a : CounterAct τ} (hs : counterStep s a = some s') :
    (∃ c i, a = .begin c i ∧ s.calls c = none ∧
      s' = { s with calls := Function.update s.calls c (some { i }) }) ∨
    ∃ c x y p, a = .step c ∧ s.calls c = some x ∧ incStep s.val x = some (p, y) ∧
      s' = { val := p
             calls := Function.update s.calls c (some y)
             swapped := if y.puts = x.puts then s.swapped else s.swapped ++ [c] } := by
  cases a with
  | begin c i =>
    simp only [counterStep] at hs
    split_ifs at hs with hc
    exact .inl ⟨c, i, rfl, hc, (Option.some.inj hs).symm⟩
  | step c =>
    obtain ⟨x, hx, hs⟩ := Option.bind_eq_some_iff.mp hs
    obtain ⟨⟨p, y⟩, hr, rfl⟩ := Option.map_eq_some_iff.mp hs
    exact .inr ⟨c, x, y, p, rfl, hx, hr, rfl⟩

/-- A call is the one that was put in place, or another one. -/
theorem update_some {f : τ → Option Inc} {c d : τ} {y z : Inc}
    (h : Function.update f c (some y) d = some z) : d = c ∧ z = y ∨ d ≠ c ∧ f d = some z := by
  by_cases hd : d = c
  · subst hd
    rw [Function.update_self] at h
    exact .inl ⟨rfl, (Option.some.inj h).symm⟩
  · rw [Function.update_of_ne hd] at h
    exact .inr ⟨hd, h⟩

/-- **Properties of the calls**: a property that new calls have and that steps keep. -/
theorem calls_of_step {P : Inc → Prop} {s s' : Counter τ} {a : CounterAct τ}
    (hs : counterStep s a = some s') (hnew : ∀ c i, a = .begin c i → P { i })
    (hstep : ∀ c x y p, a = .step c → s.calls c = some x → P x → incStep s.val x = some (p, y) → P y)
    (h : ∀ c x, s.calls c = some x → P x) : ∀ c x, s'.calls c = some x → P x := by
  intro d z hz
  rcases counterStep_cases hs with ⟨c, i, ha, -, rfl⟩ | ⟨c, x, y, p, ha, hx, hr, rfl⟩
  · rcases update_some hz with ⟨-, rfl⟩ | ⟨-, hz⟩
    · exact hnew c i ha
    · exact h d z hz
  · rcases update_some hz with ⟨-, rfl⟩ | ⟨-, hz⟩
    · exact hstep c x z p ha hx (h c x hx) hr
    · exact h d z hz

/-- **Every call** in every run. -/
theorem fine_of_reach {s : Counter τ} (h : Reach counterStep always CounterInit s) :
    ∀ c x, s.calls c = some x → x.Fine := by
  refine h.invariant (I := fun s => ∀ c x, s.calls c = some x → x.Fine) ?_ ?_
  · rintro s ⟨val, rfl⟩ c x hx
    cases hx
  · intro s s' a ih _ hs
    exact calls_of_step hs (fun c i _ => .new i) (fun c x y p _ _ hx hr => hx.step hr) ih

/-! ### Increments by one -/

/-- The result of a call that is back. -/
def Inc.result (x : Inc) : Option ℤ :=
  match x.pc with
  | .done rc => some rc
  | _ => none

/-- The call is back and reports a success, as the callers test it. -/
def Counter.Passed (s : Counter τ) (c : τ) : Prop :=
  ∃ rc ∈ (s.calls c).bind Inc.result, 0 ≤ rc

instance (s : Counter τ) (c : τ) : Decidable (s.Passed c) :=
  inferInstanceAs (Decidable (∃ rc ∈ (s.calls c).bind Inc.result, 0 ≤ rc))

/-- **A step of a race that is not too long**: the call does not lose its race number 1001, and the
counter has not been through all its values. -/
def FewRaces (s : Counter τ) (c : τ) : Prop :=
  s.swapped.length < 2 ^ 32 ∧
    ∀ x, s.calls c = some x → x.pc = .swap → s.val ≠ x.v → x.lost < 1000

/-- **The calls that have changed the counter have read one value after the other.** -/
structure Ranked (first : BitVec 32) (s : Counter τ) : Prop where
  calls : ∀ c x, s.calls c = some x → x.i = 1 ∧ x.Fine ∧ x.lost ≤ 1000
  val : s.val = first + BitVec.ofNat 32 s.swapped.length
  few : s.swapped.length ≤ 2 ^ 32
  rank : ∀ j c, s.swapped[j]? = some c →
    ∃ x, s.calls c = some x ∧ x.puts ≠ [] ∧ x.v = first + BitVec.ofNat 32 j
  swapped : ∀ c x, s.calls c = some x → x.puts ≠ [] → c ∈ s.swapped

section Ranked
variable {first : BitVec 32} {s s' : Counter τ} {a : CounterAct τ} {c c' : τ}

omit [DecidableEq τ] in
theorem Ranked.start : Ranked first ({ val := first } : Counter τ) where
  calls c x hx := by cases hx
  val := by simp
  few := by simp
  rank j c hj := by simp at hj
  swapped c x hx := by cases hx

/-- A call that has changed the counter makes no more steps. -/
theorem Inc.Fine.stopped (h : x.Fine) (hputs : x.puts ≠ []) : incStep p x = none := by
  obtain ⟨-, hwent⟩ := h
  cases hwent with
  | going _ hnil _ => exact absurd hnil hputs
  | added hpc _ _ | denied hpc _ _ | gaveUp hpc _ _ =>
    unfold incStep
    rw [hpc]

theorem Ranked.begin (h : Ranked first s) (hc : s.calls c = none) :
    Ranked first { s with calls := Function.update s.calls c (some { i := 1 }) } := by
  have hother : ∀ d x, s.calls d = some x →
      Function.update s.calls c (some { i := 1 }) d = some x := by
    intro d x hd
    have hne : d ≠ c := by
      rintro rfl
      rw [hc] at hd
      cases hd
    rw [Function.update_of_ne hne, hd]
  refine ⟨?_, h.val, h.few, ?_, ?_⟩
  · intro d x hd
    rcases update_some hd with ⟨-, rfl⟩ | ⟨-, hd⟩
    · exact ⟨rfl, .new 1, Nat.zero_le _⟩
    · exact h.calls d x hd
  · intro j d hj
    obtain ⟨x, hx, hputs, hv⟩ := h.rank j d hj
    exact ⟨x, hother d x hx, hputs, hv⟩
  · intro d x hd hputs
    rcases update_some hd with ⟨-, rfl⟩ | ⟨-, hd⟩
    · exact absurd rfl hputs
    · exact h.swapped d x hd hputs

omit [DecidableEq τ] in
/-- A call that has put nothing has no rank, -/
theorem Ranked.not_swapped {x : Inc} (h : Ranked first s) (hx : s.calls c = some x)
    (hnil : x.puts = []) : c ∉ s.swapped := by
  intro hmem
  obtain ⟨j, hj⟩ := List.getElem?_of_mem hmem
  obtain ⟨z, hz, hputs, -⟩ := h.rank j c hj
  obtain rfl : x = z := by simpa [hx] using hz
  exact hputs hnil

/-- and what it does leaves the ranks of the others. -/
theorem Ranked.rank_update {y : Inc} (h : Ranked first s) (hnot : c ∉ s.swapped) {j : ℕ} {d : τ}
    (hj : s.swapped[j]? = some d) : ∃ z, Function.update s.calls c (some y) d = some z ∧
      z.puts ≠ [] ∧ z.v = first + BitVec.ofNat 32 j := by
  have hd : d ≠ c := fun hd => hnot (hd ▸ List.mem_of_getElem? hj)
  obtain ⟨z, hz, hputs, hv⟩ := h.rank j d hj
  exact ⟨z, (Function.update_of_ne hd _ _).trans hz, hputs, hv⟩

theorem Ranked.step (h : Ranked first s) (hfew : FewRaces s c)
    (hs : counterStep s (.step c) = some s') : Ranked first s' := by
  rcases counterStep_cases hs with ⟨_, _, ha, _⟩ | ⟨d, x, y, p, ha, hx, hr, rfl⟩
  · cases ha
  obtain rfl : c = d := by simpa using ha
  obtain ⟨hi, hfine, hlost⟩ := h.calls c x hx
  have hnil : x.puts = [] := by
    by_contra hputs
    rw [hfine.stopped hputs] at hr
    cases hr
  have hnot : c ∉ s.swapped := h.not_swapped hx hnil
  obtain ⟨hyi, hcase⟩ := incStep_cases hr
  have hcalls : y.lost ≤ 1000 → ∀ d z, Function.update s.calls c (some y) d = some z →
      z.i = 1 ∧ z.Fine ∧ z.lost ≤ 1000 := by
    intro hylost d z hz
    rcases update_some hz with ⟨-, rfl⟩ | ⟨-, hz⟩
    · exact ⟨hyi.trans hi, hfine.step hr, hylost⟩
    · exact h.calls d z hz
  rcases hcase with ⟨rfl, hputs, hl⟩ | ⟨-, hwin, rfl, hv, hputs, hl⟩
  · -- the counter stays
    have hylost : y.lost ≤ 1000 := by
      rcases hl with hl | ⟨hpc, hne, hl⟩
      · omega
      · have hrace := hfew.2 x hx hpc hne
        omega
    rw [if_pos hputs]
    refine ⟨hcalls hylost, h.val, h.few, fun j d => h.rank_update hnot, fun d z hz hzputs => ?_⟩
    rcases update_some hz with ⟨-, rfl⟩ | ⟨-, hz⟩
    · exact absurd (hputs.trans hnil) hzputs
    · exact h.swapped d z hz hzputs
  · -- the call takes the next rank
    have hput : y.puts = [x.v + x.i] := by rw [hputs, hnil, List.nil_append]
    have hne : y.puts ≠ x.puts := by rw [hput, hnil]; simp
    rw [if_neg hne]
    refine ⟨hcalls (hl.trans_le hlost), ?_, ?_, ?_, ?_⟩
    · show x.v + x.i = first + BitVec.ofNat 32 (s.swapped ++ [c]).length
      rw [← hwin, h.val, hi, List.length_append, List.length_singleton, BitVec.ofNat_add,
        BitVec.add_assoc]
      rfl
    · have hlen := hfew.1
      simp only [List.length_append, List.length_singleton]
      omega
    · intro j d hj
      rcases Nat.lt_or_ge j s.swapped.length with hlt | hge
      · rw [List.getElem?_append_left hlt] at hj
        exact h.rank_update hnot hj
      · have hlast : j = s.swapped.length ∧ d = c := by
          obtain ⟨hjlen, -⟩ := List.getElem?_eq_some_iff.mp hj
          rw [List.length_append, List.length_singleton] at hjlen
          obtain rfl : j = s.swapped.length := by omega
          simpa [eq_comm] using hj
        obtain ⟨rfl, rfl⟩ := hlast
        refine ⟨y, Function.update_self .., ?_, ?_⟩
        · rw [hput]
          simp
        · rw [hv, ← hwin, h.val]
    · intro d z hz hzputs
      rcases update_some hz with ⟨rfl, -⟩ | ⟨-, hz⟩
      · exact List.mem_append_right _ (List.mem_singleton_self d)
      · exact List.mem_append_left _ (h.swapped d z hz hzputs)

omit [DecidableEq τ] in
/-- **No two calls that pass read the same value.** -/
theorem Ranked.eq_of_v_eq (h : Ranked first s) {x x' : Inc} (hx : s.calls c = some x)
    (hx' : s.calls c' = some x') (hc : s.Passed c) (hc' : s.Passed c') (hv : x.v = x'.v) :
    c = c' := by
  have hat : ∀ d z, s.calls d = some z → s.Passed d →
      ∃ j, j < 2 ^ 32 ∧ s.swapped[j]? = some d ∧ z.v = first + BitVec.ofNat 32 j := by
    rintro d z hz ⟨rc, hrc, hpass⟩
    rw [hz, Option.bind_some] at hrc
    obtain ⟨-, ⟨-, hwent⟩, hlost⟩ := h.calls d z hz
    have hputs : z.puts ≠ [] := by
      cases hwent with
      | going hpc _ _ => rcases hpc with hpc | hpc <;> simp [Inc.result, hpc] at hrc
      | added _ hputs _ | denied _ hputs _ => simp [hputs]
      | gaveUp _ _ hgone => omega
    obtain ⟨j, hj⟩ := List.getElem?_of_mem (h.swapped d z hz hputs)
    obtain ⟨w, hw, -, hwv⟩ := h.rank j d hj
    obtain rfl : z = w := by simpa [hz] using hw
    obtain ⟨hlt, -⟩ := List.getElem?_eq_some_iff.mp hj
    exact ⟨j, hlt.trans_le h.few, hj, hwv⟩
  obtain ⟨j, hj, hjc, hjv⟩ := hat c x hx hc
  obtain ⟨j', hj', hjc', hjv'⟩ := hat c' x' hx' hc'
  have hsame : BitVec.ofNat 32 j = BitVec.ofNat 32 j' := by
    have hsum := hjv.symm.trans (hv.trans hjv')
    simpa using hsum
  have hnum : j = j' := by
    have hnat := congrArg BitVec.toNat hsame
    rwa [BitVec.toNat_ofNat, BitVec.toNat_ofNat, Nat.mod_eq_of_lt hj, Nat.mod_eq_of_lt hj'] at hnat
  subst hnum
  exact Option.some.inj (hjc.symm.trans hjc')

end Ranked

end Counters

end Libkinetic.Kinetic.Atomic
