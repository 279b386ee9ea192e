import Libkinetic.Kinetic.Basickv
import Libkinetic.Kinetic.Getlog

/-! # The checks of `bkv_putn`

The length of the key and the number of the pieces are computed in `size_t`, and the number is then
narrowed to 32 bits. A limit that a server does not tell is 0, and a division by it has no
result. -/

namespace Libkinetic.Kinetic.Putn

open Libkinetic.Base.Rounds

/-- The checks behind the limits: nothing comes of a division by zero, `some none` is a refusal, and
otherwise it is the number of the keys. -/
def putnChecks (kil : Klimits) (klen vlen : ℕ) : Option (Option ℕ) :=
  if kil.klKeylen < (klen + 1 + bkvNMaxkeysDigits) % 2 ^ 64 then some none
  else if kil.klVallen = 0 then none
  else
    let n := uint32 (pieces kil.klVallen vlen)
    if bkvNMaxkeys < n then some none else some (some n)

/-- **`bkv_putn`**, unless it divides by zero. -/
def bkvPutn (c : BkvEnv) (ses : Ksession) (st : Store) (key val : List Byte) :
    Option BkvOutcome :=
  let kil := kiLimits c.config ses
  if key = [] ∨ val = [] then some { rc := some (-1), store := st }
  else if kil.klKeylen = 0 then some { rc := some (-1), store := st }
  else
    match putnChecks kil key.length val.length with
    | none => none
    | some none => some { rc := some (-1), store := st }
    | some (some n) =>
      if ¬ c.create then some { rc := some (-1), store := st }
      else
        match rounds (putnRound c ses n val.length) n
          { kv := putnKv key, store := st, pval := val, pvlen := kil.klVallen } with
        | .ok s => some { rc := some n, store := s.store }
        | .error (krc, store) => some { rc := krc.map fun _ => -1, store }

/-- The value is in the store, in its pieces. -/
def WhollyStored (kil : Klimits) (st0 st : Store) (key val : List Byte) : Prop :=
  Stored kil st0 st key val (val.length ⌈/⌉ kil.klVallen)

/-- **No division by zero, no key and no number of pieces out of range**, and no success with a part
of the value. -/
structure PutnSafe (kil : Klimits) (klen vlen : ℕ) : Prop where
  checks : ∃ r, putnChecks kil klen vlen = some r ∧
    (r.isSome → klen + 4 ≤ kil.klKeylen ∧ vlen ⌈/⌉ kil.klVallen ≤ bkvNMaxkeys)
  whole : ∀ (c : BkvEnv) (ses : Ksession) (st : Store) (key val : List Byte),
    ses.ksL = kil → key.length = klen → val.length = vlen →
      ∃ out, bkvPutn c ses st key val = some out ∧
        ∀ rc ∈ out.rc, rc ≠ -1 → WhollyStored kil st out.store key val

/-- The key is refused; or the limit for the values is there, and what is not refused for the number
of the pieces is in range as it is. -/
def PutnMeets (kil : Klimits) (klen vlen : ℕ) : Prop :=
  kil.klKeylen < (klen + 4) % 2 ^ 64 ∨
    kil.klVallen ≠ 0 ∧ (bkvNMaxkeys < vlen ⌈/⌉ kil.klVallen % 2 ^ 32 ∨
      klen + 4 < 2 ^ 64 ∧ vlen ⌈/⌉ kil.klVallen ≤ bkvNMaxkeys)

section Checks
variable {kil : Klimits} {klen vlen : ℕ}

theorem uint32_natCast (n : ℕ) : uint32 n = n % 2 ^ 32 := by
  unfold uint32
  omega

theorem putnChecks_key (h : kil.klKeylen < (klen + 4) % 2 ^ 64) :
    putnChecks kil klen vlen = some none := if_pos h

theorem putnChecks_zero (h : ¬ kil.klKeylen < (klen + 4) % 2 ^ 64) (hv : kil.klVallen = 0) :
    putnChecks kil klen vlen = none := (if_neg h).trans (if_pos hv)

theorem putnChecks_count (h : ¬ kil.klKeylen < (klen + 4) % 2 ^ 64) (hv : kil.klVallen ≠ 0) :
    putnChecks kil klen vlen =
      some (if bkvNMaxkeys < vlen ⌈/⌉ kil.klVallen % 2 ^ 32 then none
        else some (vlen ⌈/⌉ kil.klVallen % 2 ^ 32)) := by
  have hn : uint32 (pieces kil.klVallen vlen) = vlen ⌈/⌉ kil.klVallen % 2 ^ 32 := by
    rw [uint32_natCast, pieces_eq_ceilDiv vlen (Nat.pos_of_ne_zero hv)]
  refine (if_neg h).trans ((if_neg hv).trans ?_)
  dsimp only
  rw [hn]
  split_ifs <;> rfl

/-- The checks do what they should just there. -/
theorem putnChecks_iff (hkeylen : kil.klKeylen < 2 ^ 32) :
    (∃ r, putnChecks kil klen vlen = some r ∧
      (r.isSome → klen + 4 ≤ kil.klKeylen ∧ vlen ⌈/⌉ kil.klVallen ≤ bkvNMaxkeys)) ↔
      PutnMeets kil klen vlen := by
  unfold PutnMeets
  by_cases hkey : kil.klKeylen < (klen + 4) % 2 ^ 64
  · exact iff_of_true ⟨none, putnChecks_key hkey, nofun⟩ (.inl hkey)
  rw [or_iff_right hkey]
  by_cases hv : kil.klVallen = 0
  · refine iff_of_false ?_ fun h => h.1 hv
    rintro ⟨r, hr, -⟩
    rw [putnChecks_zero hkey hv] at hr
    cases hr
  rw [putnChecks_count hkey hv, and_iff_right hv]
  by_cases hcount : bkvNMaxkeys < vlen ⌈/⌉ kil.klVallen % 2 ^ 32
  · rw [if_pos hcount]
    exact iff_of_true ⟨none, rfl, nofun⟩ (.inl hcount)
  rw [if_neg hcount, or_iff_right hcount]
  constructor
  · rintro ⟨r, hr, hok⟩
    rw [← Option.some.inj hr] at hok
    have hrange := hok rfl
    exact ⟨by omega, hrange.2⟩
  · rintro ⟨hwrap, hle⟩
    rw [Nat.mod_eq_of_lt hwrap, not_lt] at hkey
    exact ⟨_, rfl, fun _ => ⟨hkey, hle⟩⟩

variable {c : BkvEnv} {ses : Ksession} {st : Store} {key val : List Byte}

/-- A refusal leaves the store as it is. -/
theorem bkvPutn_refused (h : putnChecks (kiLimits c.config ses) key.length val.length = some none) :
    bkvPutn c ses st key val = some { rc := some (-1), store := st } := by
  unfold bkvPutn
  dsimp only
  rw [h]
  simp only [ite_self]

/-- Without a session there are no limits, and the call fails. -/
theorem bkvPutn_nosession (h : c.config = false) :
    bkvPutn c ses st key val = some { rc := some (-1), store := st } := by
  have hkeylen : (kiLimits c.config ses).klKeylen = 0 := by rw [h]; rfl
  unfold bkvPutn
  dsimp only
  rw [if_pos hkeylen, ite_self]

/-- Where nothing wraps and the limit for the values is there, the call is the one of the model that
does not narrow the length of the key. -/
theorem bkvPutn_eq (hwrap : key.length + 4 < 2 ^ 64)
    (hv : (kiLimits c.config ses).klVallen ≠ 0) :
    bkvPutn c ses st key val = some (Kinetic.bkvPutn c ses st key val) := by
  have hlen : (key.length + 1 + bkvNMaxkeysDigits) % 2 ^ 64 = key.length + 1 + bkvNMaxkeysDigits :=
    Nat.mod_eq_of_lt hwrap
  unfold bkvPutn Kinetic.bkvPutn putnChecks
  dsimp only
  rw [hlen, if_neg hv]
  split_ifs with hempty hkeylen hkey hcount hcreate
  all_goals try rfl
  dsimp only
  generalize rounds _ _ _ = r
  cases r with
  | error e => rfl
  | ok s => rfl

/-- What is returned and is not -1 is a number of keys. -/
theorem rc_natural {rc : ℤ} (h : (Kinetic.bkvPutn c ses st key val).rc = some rc) (hne : rc ≠ -1) :
    ∃ n : ℕ, rc = n := by
  have hfails : some (-1 : ℤ) ≠ some rc := fun heq => hne (Option.some.inj heq).symm
  unfold Kinetic.bkvPutn at h
  dsimp only at h
  split_ifs at h
  all_goals try exact absurd h hfails
  split at h
  · exact ⟨_, (Option.some.inj h).symm⟩
  · rename_i krc store hr
    cases krc with
    | none => cases h
    | some krc => exact absurd h hfails

/-- A number that is returned is that of a request that passed the checks. -/
theorem bkvPutn_safe (hkeylen : kil.klKeylen < 2 ^ 32) (h : PutnMeets kil klen vlen) :
    PutnSafe kil klen vlen := by
  have hchecks := (putnChecks_iff hkeylen).mpr h
  refine ⟨hchecks, ?_⟩
  rintro c ses st key val rfl rfl rfl
  have hfails : bkvPutn c ses st key val = some { rc := some (-1), store := st } →
      ∃ out, bkvPutn c ses st key val = some out ∧
        ∀ rc ∈ out.rc, rc ≠ -1 → WhollyStored ses.ksL st out.store key val := by
    intro hret
    refine ⟨_, hret, fun rc hrc hne => ?_⟩
    exact absurd (Option.some.inj hrc).symm hne
  cases hconfig : c.config with
  | false => exact hfails (bkvPutn_nosession hconfig)
  | true =>
    have hkil : kiLimits c.config ses = ses.ksL := by rw [hconfig]; rfl
    obtain ⟨r, hr, hrange⟩ := hchecks
    cases r with
    | none => exact hfails (bkvPutn_refused (by rw [hkil, hr]))
    | some n =>
      obtain ⟨hkey, hcount⟩ := hrange rfl
      have hv : ses.ksL.klVallen ≠ 0 := by
        intro hzero
        have hkey' : ¬ ses.ksL.klKeylen < (key.length + 4) % 2 ^ 64 := by omega
        rw [putnChecks_zero hkey' hzero] at hr
        cases hr
      have hpos := Nat.pos_of_ne_zero hv
      refine ⟨_, bkvPutn_eq (by omega) (by rwa [hkil]), fun rc hrc hne => ?_⟩
      have hmax := (ceilDiv_le_iff_le_mul hpos).mp hcount
      obtain ⟨m, rfl⟩ := rc_natural hrc hne
      obtain ⟨-, -, -, -, hm, hst⟩ := bkvPutn_ok hpos hmax hrc
      rw [WhollyStored, ← pieces_eq_ceilDiv _ hpos, ← hm]
      exact hst

/-- **When `bkv_putn` is safe**: the key is refused; or the limit for the values is not 0, and the
number of the pieces is refused, or the key does not wrap around and the pieces are at most 256. -/
theorem putn_safe_iff (kil : Klimits) (klen vlen : ℕ) (hkeylen : kil.klKeylen < 2 ^ 32) :
    PutnSafe kil klen vlen ↔ PutnMeets kil klen vlen :=
  ⟨fun h => (putnChecks_iff hkeylen).mp h.checks, bkvPutn_safe hkeylen⟩

theorem smallLimits_safe : PutnSafe smallLimits 3 100 :=
  (putn_safe_iff smallLimits 3 100 (by decide)).mpr (.inr ⟨by decide, .inr ⟨by decide, by decide⟩⟩)

/-- A server that does not tell its limit for the values: every key that passes is followed by a
division by zero. -/
theorem omitted_not_safe (g : Kgetlog) {limits : KprotoLimits} (h : limits.maxvaluesize = none)
    (hkeylen : (extractLimits g (some limits)).kglLimits.klKeylen < 2 ^ 32)
    (hkey : klen + 4 ≤ (extractLimits g (some limits)).kglLimits.klKeylen) :
    ¬ PutnSafe (extractLimits g (some limits)).kglLimits.toKlimits klen vlen := by
  have hv : (extractLimits g (some limits)).kglLimits.klVallen = 0 := by
    simp [extractLimits, fillLimits, extractPrimitiveOptional, h, zeroLimits]
  intro hsafe
  rcases (putnChecks_iff hkeylen).mp hsafe.checks with hrefused | ⟨hne, -⟩
  · rw [Nat.mod_eq_of_lt (by omega)] at hrefused
    omega
  · exact hne hv

/-- A small server with a limit of its own for the values. -/
def valuesOf (v : ℕ) : Klimits := { smallLimits with klVallen := v }

/-- **No limit for the values**, a value of 4 GiB and 5 bytes in pieces of one, and a key that wraps
around. -/
theorem putn_not_safe :
    ¬ PutnSafe (valuesOf 0) 3 100 ∧ ¬ PutnSafe (valuesOf 1) 3 (2 ^ 32 + 5) ∧
      ¬ PutnSafe (valuesOf 64) (2 ^ 64 - 1) 100 := by
  have hkeylen : ∀ v, (valuesOf v).klKeylen < 2 ^ 32 := fun _ => (by decide : 16 < 2 ^ 32)
  refine ⟨fun h => ?_, fun h => ?_, fun h => ?_⟩
  · exact absurd ((putnChecks_iff (hkeylen 0)).mp h.checks) (by unfold PutnMeets; decide)
  · exact absurd ((putnChecks_iff (hkeylen 1)).mp h.checks) (by unfold PutnMeets; decide)
  · exact absurd ((putnChecks_iff (hkeylen 64)).mp h.checks) (by unfold PutnMeets; decide)

end Checks

end Libkinetic.Kinetic.Putn
