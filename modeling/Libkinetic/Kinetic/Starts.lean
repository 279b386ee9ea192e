import Libkinetic.Kinetic.Atomic

/-! # Batches started at once

A session has two counters: `ks_bid`, whose increment gives a start its batch id, and `ks_bats`, the
number of active batches, which starts increment and other requests decrement. Any number of starts
run at once. As long as no call loses 1001 races, the starts that go on have ids of their own. A
start that does lose so many goes on with an id that it has only read. -/

namespace Libkinetic.Kinetic.Atomic

open Libkinetic.Base.Runs

/-- The counters of a session. A start has one call on each; the other calls on `ks_bats` are the
decrements. -/
structure Starts where
  ksBid : Counter ℕ
  ksBats : Counter (ℕ ⊕ ℕ)

inductive StartsAct
  | start (k : ℕ)
  | bid (k : ℕ)
  | count (k : ℕ)
  | bats (c : ℕ ⊕ ℕ)
  | drop (j : ℕ)
deriving DecidableEq

/-- A start asks for its id, and then counts its batch. -/
def startsStep (s : Starts) : StartsAct → Option Starts
  | .start k => (counterStep s.ksBid (.begin k 1)).map fun r => { s with ksBid := r }
  | .bid k => (counterStep s.ksBid (.step k)).map fun r => { s with ksBid := r }
  | .count k =>
    if s.ksBid.Passed k then
      (counterStep s.ksBats (.begin (.inl k) 1)).map fun r => { s with ksBats := r }
    else none
  | .bats c => (counterStep s.ksBats (.step c)).map fun r => { s with ksBats := r }
  | .drop j => (counterStep s.ksBats (.begin (.inr j) (-1))).map fun r => { s with ksBats := r }

/-- A session without batches. -/
def StartsInit (s : Starts) : Prop :=
  s = { ksBid := { val := BitVec.ofNat 32 kfirstbid }, ksBats := { val := 0 } }

/-- The batch id of a start. -/
def kbBid (s : Starts) (k : ℕ) : Option ℕ := (s.ksBid.calls k).map fun x => x.v.toNat

/-- What the start has read from the counter of the active batches. -/
def batcnt (s : Starts) (k : ℕ) : Option ℕ := (s.ksBats.calls (.inl k)).map fun x => x.v.toNat

/-- **The start goes on** to its request: both increments have passed, and there are not too many
batches. -/
def Proceeds (klDevbatcnt : ℕ) (s : Starts) (k : ℕ) : Prop :=
  s.ksBid.Passed k ∧ s.ksBats.Passed (.inl k) ∧
    ¬ (0 < klDevbatcnt ∧ ∃ n ∈ batcnt s k, klDevbatcnt < n)

/-- No start loses its race number 1001 for an id. -/
def NoLongRaces (s : Starts) : StartsAct → Prop
  | .bid k => FewRaces s.ksBid k
  | _ => True

/-! ### The ids -/

theorem ranked_of_reach {s : Starts} (h : Reach startsStep NoLongRaces StartsInit s) :
    Ranked (BitVec.ofNat 32 kfirstbid) s.ksBid := by
  refine h.invariant (I := fun s => Ranked (BitVec.ofNat 32 kfirstbid) s.ksBid) ?_ ?_
  · rintro s rfl
    exact .start
  · intro s s' a ih hok hs
    cases a with
    | start k =>
      obtain ⟨r, hr, rfl⟩ := Option.map_eq_some_iff.mp hs
      rcases counterStep_cases hr with ⟨c, i, ha, hc, rfl⟩ | ⟨c, x, y, p, ha, -⟩
      · obtain ⟨rfl, rfl⟩ : k = c ∧ 1 = i := by simpa using ha
        exact ih.begin hc
      · cases ha
    | bid k =>
      obtain ⟨r, hr, rfl⟩ := Option.map_eq_some_iff.mp hs
      exact ih.step hok hr
    | count k =>
      simp only [startsStep] at hs
      split_ifs at hs
      obtain ⟨r, hr, rfl⟩ := Option.map_eq_some_iff.mp hs
      exact ih
    | bats c | drop c =>
      obtain ⟨r, hr, rfl⟩ := Option.map_eq_some_iff.mp hs
      exact ih

theorem exists_call_of_passed {τ : Type} {s : Counter τ} {c : τ} (h : s.Passed c) :
    ∃ x, s.calls c = some x := by
  obtain ⟨rc, hrc, -⟩ := h
  obtain ⟨x, hx, -⟩ := Option.bind_eq_some_iff.mp hrc
  exact ⟨x, hx⟩

theorem Inc.pc_of_result {x : Inc} {rc : ℤ} (h : x.result = some rc) : x.pc = .done rc := by
  cases hpc : x.pc with
  | read | swap => simp [Inc.result, hpc] at h
  | done r => simpa [Inc.result, hpc] using h

/-! ### Starts one after the other -/

/-- The counter after a call that nothing disturbs. -/
def won {τ : Type} [DecidableEq τ] (s : Counter τ) (c : τ) : Counter τ where
  val := s.val + 1
  calls := Function.update s.calls c
    (some { i := 1, v := s.val, puts := [s.val + 1], pc := .done 0 })
  swapped := s.swapped ++ [c]

section Won
variable {τ : Type} [DecidableEq τ] {s : Counter τ} {c d : τ}

theorem won_calls_self : (won s c).calls c =
    some { i := 1, v := s.val, puts := [s.val + 1], pc := .done 0 } :=
  Function.update_self ..

theorem won_calls_of_ne (h : d ≠ c) : (won s c).calls d = s.calls d :=
  Function.update_of_ne h _ _

theorem won_passed : (won s c).Passed c :=
  ⟨0, by rw [won_calls_self]; rfl, le_refl 0⟩

theorem won_passed_of_ne (h : d ≠ c) (hd : s.Passed d) : (won s c).Passed d := by
  obtain ⟨rc, hrc, hpass⟩ := hd
  exact ⟨rc, by rwa [won_calls_of_ne h], hpass⟩

end Won

section Alone
variable {s : Starts} {k : ℕ}

theorem start_alone (hk : s.ksBid.calls k = none) :
    run startsStep s [.start k, .bid k, .bid k] = some { s with ksBid := won s.ksBid k } := by
  simp [run, startsStep, counterStep, hk, incStep, incResult, won]

/-- No race is lost in it. -/
theorem start_alone_ok (hk : s.ksBid.calls k = none) (hlen : s.ksBid.swapped.length < 2 ^ 32) :
    RunOk startsStep NoLongRaces s [.start k, .bid k, .bid k] := by
  simp [RunOk, startsStep, counterStep, hk, incStep, NoLongRaces, FewRaces]
  omega

/-- The steps on the number of active batches are not restricted. -/
theorem count_alone_ok : RunOk startsStep NoLongRaces s
    [.count k, .bats (.inl k), .bats (.inl k)] :=
  ⟨trivial, fun _ _ => ⟨trivial, fun _ _ => ⟨trivial, fun _ _ => trivial⟩⟩⟩

theorem count_alone (hpass : s.ksBid.Passed k) (hk : s.ksBats.calls (.inl k) = none) :
    run startsStep s [.count k, .bats (.inl k), .bats (.inl k)] =
      some { s with ksBats := won s.ksBats (.inl k) } := by
  simp [run, startsStep, counterStep, hpass, hk, incStep, incResult, won]

/-- A start that is to swap loses its race, and reads the counter if it has a retry left. -/
theorem lose {x : Inc} (hk : s.ksBid.calls k = some x) (hpc : x.pc = .swap)
    (hrace : s.ksBid.val ≠ x.v) (hret : x.retries ≠ 0) :
    run startsStep s [.bid k, .bid k] = some { s with ksBid := { s.ksBid with
      calls := Function.update s.ksBid.calls k (some { x with
        retries := x.retries - 1, lost := x.lost + 1, v := s.ksBid.val }) } } := by
  simp [run, startsStep, counterStep, hk, incStep, hpc, hrace, hret]

end Alone

/-- **A start that loses `j` races** to the starts 1 to `j`. -/
theorem contested (j : ℕ) (hj : j ≤ 1000) : ∃ s, Reach startsStep always StartsInit s ∧
    s.ksBid.val = BitVec.ofNat 32 (1000 + j) ∧
    s.ksBid.calls 0 = some { i := 1, retries := 1000 - j, v := s.ksBid.val, pc := .swap, lost := j } ∧
    (∀ k, j < k → s.ksBid.calls k = none) ∧ s.ksBats = { val := 0 } := by
  induction j with
  | zero =>
    have hreach : Reach startsStep always StartsInit _ := .start rfl
    refine ⟨_, reach_of_run_from [.start 0, .bid 0] hreach (runOk_always _ _) rfl, rfl, ?_, ?_, rfl⟩
    · rfl
    · intro k hk
      simp [Function.update_of_ne hk.ne']
  | succ j ih =>
    obtain ⟨s, hs, hval, h0, hfree, hbats⟩ := ih (by omega)
    have hwon := reach_of_run_from _ hs (runOk_always _ _) (start_alone (hfree (j + 1) (by omega)))
    have hzero : (won s.ksBid (j + 1)).calls 0 = s.ksBid.calls 0 :=
      won_calls_of_ne (Nat.succ_ne_zero j).symm
    have hrace : s.ksBid.val + 1 ≠ s.ksBid.val := by simp
    have hret : (1000 : ℤ) - j ≠ 0 := by omega
    have hlost := reach_of_run_from _ hwon (runOk_always _ _)
      (lose (hzero.trans h0) rfl hrace hret)
    refine ⟨_, hlost, ?_, ?_, ?_, hbats⟩
    · show s.ksBid.val + 1 = _
      rw [hval, ← Nat.add_assoc, BitVec.ofNat_add (1000 + j)]
      rfl
    · simp only [Function.update_self]
      push_cast
      rw [sub_sub]
    · intro k hk
      have hk0 : k ≠ 0 := by omega
      have hkj : k ≠ j + 1 := by omega
      simp [won, Function.update_of_ne hk0, Function.update_of_ne hkj, hfree k (by omega)]

/-- The start goes on with the id of another one. -/
theorem overtaken : ∃ s, Reach startsStep always StartsInit s ∧ s.ksBid.Passed 0 ∧
    s.ksBid.Passed 1001 ∧ kbBid s 0 = some 2000 ∧ kbBid s 1001 = some 2000 ∧
    s.ksBats = { val := 0 } := by
  obtain ⟨s, hs, hval, h0, hfree, hbats⟩ := contested 1000 le_rfl
  have hwon := reach_of_run_from _ hs (runOk_always _ _) (start_alone (hfree 1001 (by omega)))
  -- the retries are used up
  have hgaveUp : startsStep { s with ksBid := won s.ksBid 1001 } (.bid 0) =
      some { s with ksBid := { won s.ksBid 1001 with
        calls := Function.update (won s.ksBid 1001).calls 0 (some
          { i := 1, retries := -1, v := s.ksBid.val, pc := .done 0, lost := 1001 }) } } := by
    simp [startsStep, counterStep, won, h0, incStep, incResult]
  refine ⟨_, .next (.bid 0) hwon trivial hgaveUp, ⟨0, ?_, le_rfl⟩, ⟨0, ?_, le_rfl⟩, ?_, ?_, hbats⟩
  · simp [Inc.result]
  · simp [won_calls_self, Inc.result]
  · simp [kbBid, hval]
  · simp [kbBid, won_calls_self, hval]

/-- Two starts one after the other. -/
theorem two_starts : ∃ s, Reach startsStep NoLongRaces StartsInit s ∧
    Proceeds 5 s 0 ∧ Proceeds 5 s 1 := by
  have hinit : Reach startsStep NoLongRaces StartsInit _ := .start rfl
  have h0 := reach_of_run_from _ hinit (start_alone_ok rfl (by decide)) (start_alone (k := 0) rfl)
  have hne : (1 : ℕ) ≠ 0 := by omega
  have hfree : (won ({ val := BitVec.ofNat 32 kfirstbid } : Counter ℕ) 0).calls 1 = none :=
    won_calls_of_ne hne
  have h1 := reach_of_run_from _ h0 (start_alone_ok hfree (by decide)) (start_alone hfree)
  have hpass0 := won_passed_of_ne (c := 1) hne.symm
    (won_passed (s := ({ val := BitVec.ofNat 32 kfirstbid } : Counter ℕ)) (c := 0))
  have h2 := reach_of_run_from _ h1 count_alone_ok (count_alone hpass0 rfl)
  have hother : (Sum.inl 1 : ℕ ⊕ ℕ) ≠ .inl 0 := by simp
  have h3 := reach_of_run_from _ h2 count_alone_ok
    (count_alone (k := 1) won_passed (won_calls_of_ne hother))
  exact ⟨_, h3, ⟨hpass0, won_passed_of_ne hother.symm won_passed, by decide⟩,
    ⟨won_passed, won_passed, by decide⟩⟩

/-! ### The promise -/

/-- **What the calls promise, and what the ids of starts are.** -/
theorem atomInc_correct_iff {τ : Type} [DecidableEq τ] {s : Counter τ} {b : Starts}
    (klDevbatcnt : ℕ) (hs : Reach counterStep always CounterInit s)
    (hb : Reach startsStep NoLongRaces StartsInit b) :
    (∀ c x rc, s.calls c = some x → x.result = some rc →
      (x.Correct rc ↔ x.i = 0 ∧ x.lost < 1000)) ∧
    ∀ k k', Proceeds klDevbatcnt b k → Proceeds klDevbatcnt b k' → kbBid b k = kbBid b k' →
      k = k' := by
  constructor
  · intro c x rc hx hrc
    exact (fine_of_reach hs c x hx).correct_iff (Inc.pc_of_result hrc)
  · intro k k' hk hk' hbid
    obtain ⟨x, hx⟩ := exists_call_of_passed hk.1
    obtain ⟨x', hx'⟩ := exists_call_of_passed hk'.1
    have hv : x.v = x'.v := by
      simp only [kbBid, hx, hx', Option.map_some, Option.some.injEq] at hbid
      exact BitVec.eq_of_toNat_eq hbid
    exact (ranked_of_reach hb).eq_of_v_eq hx hx' hk.1 hk'.1 hv

theorem two_starts_two_ids : ∃ s, Proceeds 5 s 0 ∧ Proceeds 5 s 1 ∧ kbBid s 0 ≠ kbBid s 1 := by
  obtain ⟨s, hs, h0, h1⟩ := two_starts
  refine ⟨s, h0, h1, fun hbid => ?_⟩
  have hcounter : Reach counterStep always CounterInit ({ val := 1000 } : Counter ℕ) :=
    .start ⟨_, rfl⟩
  have hsame := (atomInc_correct_iff 5 hcounter hs).2 0 1 h0 h1 hbid
  exact absurd hsame (by decide)

/-- A call alone reports a success and leaves the old value; a start that loses 1001 races goes on
with the id of another one. -/
theorem two_starts_one_id :
    (∃ (s : Counter ℕ) (x : Inc), Reach counterStep always CounterInit s ∧ s.calls 0 = some x ∧
      x.result = some 0 ∧ x.puts = [1001] ∧ x.v = 1000 ∧ ¬ x.Correct 0) ∧
    ∃ s, Reach startsStep always StartsInit s ∧ Proceeds 5 s 0 ∧ Proceeds 5 s 1001 ∧
      kbBid s 0 = some 2000 ∧ kbBid s 1001 = some 2000 := by
  constructor
  · have hreach : Reach counterStep always CounterInit ({ val := 1000 } : Counter ℕ) :=
      .start ⟨_, rfl⟩
    refine ⟨_, _, reach_of_run_from [.begin 0 1, .step 0, .step 0] hreach (runOk_always _ _) rfl,
      rfl, rfl, rfl, rfl, fun hc => ?_⟩
    exact absurd (hc.new rfl) (by decide)
  · obtain ⟨s, hs, hpass0, hpass1, hbid0, hbid1, hbats⟩ := overtaken
    have hcount0 := reach_of_run_from _ hs (runOk_always _ _)
      (count_alone hpass0 (by rw [hbats]))
    have hne : (Sum.inl 1001 : ℕ ⊕ ℕ) ≠ .inl 0 := by simp
    have hcount1 := reach_of_run_from _ hcount0 (runOk_always _ _)
      (count_alone (k := 1001) hpass1 (by rw [won_calls_of_ne hne, hbats]))
    refine ⟨_, hcount1, ⟨hpass0, won_passed_of_ne hne.symm won_passed, ?_⟩,
      ⟨hpass1, won_passed, ?_⟩, hbid0, hbid1⟩
    · simp [batcnt, won_calls_of_ne hne.symm, won_calls_self, hbats]
    · simp [batcnt, hbats, won]

end Libkinetic.Kinetic.Atomic
