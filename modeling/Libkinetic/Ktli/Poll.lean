import Libkinetic.Base.Ints
import Libkinetic.Ktli.Session

/-! # Polling for a completed kio

`ktli_poll`: sleep for the poll interval, look at compq, and update the time that is left. The code
writes `timeleft =- …`, which assigns the negated time of the last sleep, where `-=` would have
subtracted it: with a timeout the first turn that finds nothing is the last. -/

namespace Libkinetic.Ktli

open Libkinetic.Base.Ints

/-- `KTLI_POLLINTERVAL`, in nanoseconds. -/
def ktliPollinterval : ℕ := 10 * 1000

/-- A remainder that `nanosleep` can report. -/
abbrev Remain := Fin (ktliPollinterval + 1)

/-- One turn: the remainder, which is written only when a signal ends the sleep, and what the check
finds. -/
structure PollTurn where
  remain : Option Remain
  size : ℕ
  exit : Bool

/-- For how long the turn slept. -/
def PollTurn.slept (t : PollTurn) : ℤ :=
  match t.remain with
  | none => ktliPollinterval
  | some r => ktliPollinterval - r

/-- `errno` after the sleep. -/
def PollTurn.errno (t : PollTurn) (errno : ℤ) : ℤ := if t.remain.isSome then EINTR else errno

/-- What a poll returns, and after how many turns. -/
structure PollEnd where
  rc : ℤ
  errno : ℤ
  turns : ℕ
deriving DecidableEq

def PollEnd.later (e : PollEnd) : PollEnd := { e with turns := e.turns + 1 }

/-- The loop; no result while it goes on. -/
def pollLoop (timeout : ℤ) : ℤ → ℤ → Remain → List PollTurn → Option PollEnd
  | _, _, _, [] => none
  | errno, timeleft, remain, t :: turns =>
    let errno := t.errno errno
    let remain := t.remain.getD remain
    if t.size ≠ 0 then some ⟨0, errno, 1⟩
    else if t.exit then some ⟨-1, ECONNABORTED, 1⟩
    else if timeout ≠ 0 then
      let timeleft := toInt (-(ktliPollinterval - remain))
      if timeleft ≤ 0 then some ⟨-1, ETIMEDOUT, 1⟩
      else (pollLoop timeout errno timeleft remain turns).map .later
    else (pollLoop timeout errno timeleft remain turns).map .later

/-- `ktli_poll`; `valid` is the answer of `kts_isvalid`. -/
def ktliPoll (valid : Bool) (st : SState) (timeout : ℤ) (turns : List PollTurn) : Option PollEnd :=
  if ¬ valid then some ⟨-1, EBADF, 0⟩
  else if st ≠ .connected then some ⟨-1, ENOTCONN, 0⟩
  else pollLoop timeout 0 (toInt (timeout * 1000)) 0 turns

/-! ### The time that is left -/

/-- The updated time is never positive. -/
theorem timeleft_nonpos (r : Remain) : toInt (-(ktliPollinterval - r)) ≤ 0 := by
  have hr := r.isLt
  have hp : ktliPollinterval = 10000 := rfl
  rw [toInt_of_isInt ⟨by omega, by omega⟩]
  omega

/-- **With a timeout** the first turn decides. -/
theorem pollLoop_cons {timeout : ℤ} (h : timeout ≠ 0) (errno timeleft : ℤ) (remain : Remain)
    (t : PollTurn) (turns : List PollTurn) :
    pollLoop timeout errno timeleft remain (t :: turns) =
      if t.size ≠ 0 then some ⟨0, t.errno errno, 1⟩
      else if t.exit then some ⟨-1, ECONNABORTED, 1⟩ else some ⟨-1, ETIMEDOUT, 1⟩ := by
  rw [pollLoop]
  dsimp only
  rw [if_pos h, if_pos (timeleft_nonpos _)]

/-- **Without a timeout** the poll goes on until a turn finds a completed kio, or the exit flag. -/
theorem pollLoop_zero {errno timeleft : ℤ} {remain : Remain} {turns : List PollTurn} {e : PollEnd}
    (h : pollLoop 0 errno timeleft remain turns = some e) :
    ∃ pre t post, turns = pre ++ t :: post ∧ e.turns = pre.length + 1 ∧
      (∀ u ∈ pre, u.size = 0 ∧ u.exit = false) ∧
      ((t.size ≠ 0 ∧ e.rc = 0) ∨
        (t.size = 0 ∧ t.exit = true ∧ e.rc = -1 ∧ e.errno = ECONNABORTED)) := by
  induction turns generalizing errno remain e with
  | nil => simp [pollLoop] at h
  | cons t turns ih =>
    rw [pollLoop] at h
    dsimp only at h
    rw [if_neg (not_not.mpr rfl)] at h
    split_ifs at h with hsize hexit
    · obtain rfl := Option.some.inj h
      exact ⟨[], t, turns, rfl, rfl, by simp, .inl ⟨hsize, rfl⟩⟩
    · obtain rfl := Option.some.inj h
      exact ⟨[], t, turns, rfl, rfl, by simp, .inr ⟨not_not.mp hsize, hexit, rfl, rfl⟩⟩
    · obtain ⟨e', he', rfl⟩ := Option.map_eq_some_iff.mp h
      obtain ⟨pre, u, post, rfl, hturns, hpre, hend⟩ := ih he'
      refine ⟨t :: pre, u, post, rfl, congrArg (· + 1) hturns, ?_, hend⟩
      intro v hv
      rcases List.mem_cons.mp hv with rfl | hv
      · exact ⟨not_not.mp hsize, by simpa using hexit⟩
      · exact hpre v hv

/-! ### What the caller was promised -/

/-- A poll that is made converts its timeout within `int`, and reports a timeout only after the
turns it made have slept that long, with compq empty at each check. -/
def Waits (valid : Bool) (st : SState) (timeout : ℤ) (turns : List PollTurn) : Prop :=
  (valid → st = .connected → IsInt (timeout * 1000)) ∧
    ∀ e, ktliPoll valid st timeout turns = some e → e.rc = -1 → e.errno = ETIMEDOUT →
      timeout * 1000 ≤ ((turns.take e.turns).map PollTurn.slept).sum ∧
        ∀ t ∈ turns.take e.turns, t.size = 0

/-- A session that is not polled does not time out. -/
theorem ktliPoll_refused {valid : Bool} {st : SState} {timeout : ℤ} {turns : List PollTurn}
    {e : PollEnd} (hpoll : ¬ (valid = true ∧ st = .connected))
    (h : ktliPoll valid st timeout turns = some e) : e.errno ≠ ETIMEDOUT := by
  unfold ktliPoll at h
  by_cases hv : valid = true
  · have hst : st ≠ .connected := fun hst => hpoll ⟨hv, hst⟩
    rw [if_neg (not_not.mpr hv), if_pos hst] at h
    obtain rfl := Option.some.inj h
    decide
  · rw [if_pos hv] at h
    obtain rfl := Option.some.inj h
    decide

theorem isInt_mul_iff (timeout : ℤ) :
    IsInt (timeout * 1000) ↔ -2147483 ≤ timeout ∧ timeout ≤ 2147483 := by
  unfold IsInt
  omega

/-- **A poll keeps its promise** just when the timeout is at most 2147483 µs either way, and the
first turn finds a completed kio or the exit flag, or alone sleeps for the whole timeout. -/
theorem waits_iff (valid : Bool) (st : SState) (timeout : ℤ) (turns : List PollTurn)
    (hT : timeout ≠ 0) : Waits valid st timeout turns ↔
      (valid → st = .connected → (-2147483 ≤ timeout ∧ timeout ≤ 2147483) ∧
        ∀ t ∈ turns.head?, t.size = 0 → t.exit = false → timeout * 1000 ≤ t.slept) := by
  unfold Waits
  rw [isInt_mul_iff]
  by_cases hpoll : valid = true ∧ st = .connected
  swap
  · have hnone : ∀ e, ktliPoll valid st timeout turns = some e → e.errno ≠ ETIMEDOUT :=
      fun e he => ktliPoll_refused hpoll he
    constructor
    · intro _ hv hst
      exact absurd ⟨hv, hst⟩ hpoll
    · intro _
      exact ⟨fun hv hst => absurd ⟨hv, hst⟩ hpoll, fun e he _ herr => absurd herr (hnone e he)⟩
  obtain ⟨rfl, rfl⟩ := hpoll
  have hloop : ktliPoll true .connected timeout turns =
      pollLoop timeout 0 (toInt (timeout * 1000)) 0 turns := rfl
  rw [hloop]
  rcases turns with _ | ⟨t, turns⟩
  · simp [pollLoop]
  rw [pollLoop_cons hT]
  have hfirst : ((List.take 1 (t :: turns)).map PollTurn.slept).sum = t.slept := by simp
  constructor
  · rintro ⟨hint, hwait⟩ - -
    refine ⟨hint rfl rfl, ?_⟩
    rintro u hu hsize hexit
    obtain rfl : t = u := Option.some.inj hu
    have hend := hwait ⟨-1, ETIMEDOUT, 1⟩ (by rw [if_neg (by simpa using hsize), hexit]; rfl) rfl rfl
    rw [← hfirst]
    exact hend.1
  · intro hcond
    obtain ⟨hint, hslept⟩ := hcond rfl rfl
    refine ⟨fun _ _ => hint, fun e he hrc herr => ?_⟩
    split_ifs at he with hsize hexit
    · obtain rfl := Option.some.inj he
      have hrc0 : (0 : ℤ) = -1 := hrc
      omega
    · obtain rfl := Option.some.inj he
      exact absurd herr (by decide)
    · obtain rfl := Option.some.inj he
      have hlong := hslept t rfl (by simpa using hsize) (by simpa using hexit)
      exact ⟨hfirst ▸ hlong, by simpa using hsize⟩

/-- A timeout of a millisecond, and compq stays empty. -/
theorem millisecond_waits : Waits true .connected 1000 [⟨none, 0, false⟩] ↔
    (true → SState.connected = .connected → ((-2147483 : ℤ) ≤ 1000 ∧ (1000 : ℤ) ≤ 2147483) ∧
      ∀ t ∈ [(⟨none, 0, false⟩ : PollTurn)].head?, t.size = 0 → t.exit = false →
        1000 * 1000 ≤ t.slept) :=
  waits_iff true .connected 1000 [⟨none, 0, false⟩] (by decide)

/-- It is reported after the first sleep of 10 µs. -/
theorem millisecond_cut_short : ktliPoll true .connected 1000 [⟨none, 0, false⟩] =
      some ⟨-1, ETIMEDOUT, 1⟩ ∧ ¬ Waits true .connected 1000 [⟨none, 0, false⟩] := by
  have hend : ktliPoll true .connected 1000 [⟨none, 0, false⟩] = some ⟨-1, ETIMEDOUT, 1⟩ := by
    decide
  refine ⟨hend, fun h => ?_⟩
  have hslept := (h.2 _ hend rfl rfl).1
  have hshort : ((List.take 1 [(⟨none, 0, false⟩ : PollTurn)]).map PollTurn.slept).sum = 10000 :=
    rfl
  rw [hshort] at hslept
  omega

end Libkinetic.Ktli
