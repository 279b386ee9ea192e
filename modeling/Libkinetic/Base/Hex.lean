import Libkinetic.Base.Cstrings

/-! # Hexadecimal digits

`strtol` to the base 16 in the C locale: white space, a sign that may be left out, `0x` in front of
a digit, and the digits. Without a digit nothing is taken. The strings of at most two bytes that it
takes to their end are those with a digit at the end, and a digit, a blank or a sign before it. -/

namespace Libkinetic.Base.Hex

open Cstrings

variable {a b : Byte}

/-- `isxdigit` -/
def isXdigit (b : Byte) : Bool := isDigit b || (65 ≤ b && b ≤ 70) || (97 ≤ b && b ≤ 102)

def xdigitVal (b : Byte) : ℕ :=
  if isDigit b then b.val - 48 else if b ≤ 70 then b.val - 55 else b.val - 87

/-- The number that some digits stand for. -/
def hexVal (ds : List Byte) : ℕ := ds.foldl (fun v b => 16 * v + xdigitVal b) 0

/-- The digit that `%X` prints. -/
def upperDigit (n : ℕ) : Byte := Fin.ofNat 256 (if n < 10 then 48 + n else 55 + n)

/-- What follows `0x`, if that is a digit. -/
def skip0x : List Byte → List Byte
  | z :: x :: d :: s =>
    if z = 48 ∧ (x = 120 ∨ x = 88) ∧ isXdigit d then d :: s else z :: x :: d :: s
  | s => s

/-- `strtol` to the base 16: the number, and what follows it. -/
def strtol16 (s : List Byte) : ℤ × List Byte :=
  let (neg, u) := takeSign (s.dropWhile isSpace)
  let u := skip0x u
  let ds := u.takeWhile isXdigit
  if ds = [] then (0, s)
  else (clampLong (if neg then -(hexVal ds : ℤ) else hexVal ds), u.dropWhile isXdigit)

/-- A blank or a sign, which may stand before a number. -/
def isLead (b : Byte) : Bool := isSpace b || b = plus || b = minus

/-! ### Bytes -/

theorem isLead_false_of_isXdigit : ∀ b, isXdigit b = true → isLead b = false := by
  decide +kernel

theorem xdigitVal_lt : ∀ b, isXdigit b = true → xdigitVal b < 16 := by decide +kernel

theorem isXdigit_upperDigit : ∀ n < 16, isXdigit (upperDigit n) = true := by decide

theorem xdigitVal_upperDigit : ∀ n < 16, xdigitVal (upperDigit n) = n := by decide

theorem notSpace_of_isXdigit (hb : isXdigit b = true) : isSpace b = false := by
  have hlead := isLead_false_of_isXdigit b hb
  simp only [isLead, Bool.or_eq_false_iff] at hlead
  exact hlead.1.1

theorem takeSign_of_isXdigit (hb : isXdigit b = true) (s : List Byte) :
    takeSign (b :: s) = (false, b :: s) := by
  have hlead := isLead_false_of_isXdigit b hb
  simp only [isLead, Bool.or_eq_false_iff, decide_eq_false_iff_not] at hlead
  rw [takeSign, if_neg hlead.2, if_neg hlead.1.2]

theorem skip0x_short {u : List Byte} (hu : u.length ≤ 2) : skip0x u = u := by
  rcases u with _ | ⟨c, _ | ⟨d, _ | ⟨e, s⟩⟩⟩
  · rfl
  · rfl
  · rfl
  · simp at hu

/-! ### One byte -/

theorem strtol16_digit (hb : isXdigit b = true) : strtol16 [b] = ((xdigitVal b : ℤ), []) := by
  have hval := xdigitVal_lt b hb
  have hclamp : clampLong (xdigitVal b : ℤ) = xdigitVal b := by
    unfold clampLong
    omega
  have hdrop : [b].dropWhile isSpace = [b] :=
    List.dropWhile_cons_of_neg (by simp [notSpace_of_isXdigit hb])
  have hhex : hexVal [b] = xdigitVal b := by simp [hexVal]
  unfold strtol16
  rw [hdrop, takeSign_of_isXdigit hb]
  simp [skip0x, hb, hhex, hclamp]

theorem strtol16_nodigit (hb : isXdigit b = false) : strtol16 [b] = (0, [b]) := by
  have hnil : (skip0x (takeSign ([b].dropWhile isSpace)).2).takeWhile isXdigit = [] := by
    by_cases hspace : isSpace b = true
    · simp [List.dropWhile_cons_of_pos hspace, takeSign, skip0x]
    · rw [List.dropWhile_cons_of_neg hspace, takeSign]
      split_ifs <;> simp [skip0x, hb]
  unfold strtol16
  dsimp only
  rw [if_pos hnil]

/-! ### Two bytes -/

theorem strtol16_digits (ha : isXdigit a = true) (hb : isXdigit b = true) :
    strtol16 [a, b] = (((16 * xdigitVal a + xdigitVal b : ℕ) : ℤ), []) := by
  have hva := xdigitVal_lt a ha
  have hvb := xdigitVal_lt b hb
  have hhex : hexVal [a, b] = 16 * xdigitVal a + xdigitVal b := by simp [hexVal]
  have hclamp : clampLong ((16 * xdigitVal a + xdigitVal b : ℕ) : ℤ) =
      (16 * xdigitVal a + xdigitVal b : ℕ) := by
    unfold clampLong
    omega
  have hdrop : [a, b].dropWhile isSpace = [a, b] :=
    List.dropWhile_cons_of_neg (by simp [notSpace_of_isXdigit ha])
  unfold strtol16
  rw [hdrop, takeSign_of_isXdigit ha]
  simp only [skip0x, List.takeWhile_cons_of_pos ha, List.takeWhile_cons_of_pos hb,
    List.dropWhile_cons_of_pos ha, List.dropWhile_cons_of_pos hb, List.takeWhile_nil,
    List.dropWhile_nil, reduceCtorEq, if_false, hhex, Bool.false_eq_true, hclamp]

/-- A blank or a sign and a digit. -/
theorem strtol16_lead (ha : isLead a = true) (hb : isXdigit b = true) :
    (strtol16 [a, b]).2 = [] := by
  have hrest : takeSign ([a, b].dropWhile isSpace) = (false, [b]) ∨
      takeSign ([a, b].dropWhile isSpace) = (true, [b]) := by
    by_cases hspace : isSpace a = true
    · rw [List.dropWhile_cons_of_pos hspace,
        List.dropWhile_cons_of_neg (by simp [notSpace_of_isXdigit hb]), takeSign_of_isXdigit hb]
      exact .inl rfl
    · rw [List.dropWhile_cons_of_neg hspace, takeSign]
      simp only [isLead, hspace, Bool.false_or, Bool.or_eq_true, decide_eq_true_eq] at ha
      split_ifs with hminus hplus
      · exact .inr rfl
      · exact .inl rfl
      · exact absurd ha (by simp [hminus, hplus])
  unfold strtol16
  rcases hrest with hrest | hrest <;> rw [hrest] <;> simp [skip0x, hb]

/-- The last byte is left if it is no digit. -/
theorem strtol16_rest (hb : isXdigit b = false) : (strtol16 [a, b]).2 ≠ [] := by
  have hlast : ∀ u : List Byte, u <:+ [a, b] → u.takeWhile isXdigit ≠ [] →
      u.dropWhile isXdigit ≠ [] := by
    intro u hu hne
    have hu' : u = [a, b] ∨ u = [b] ∨ u = [] := by
      simpa [List.suffix_cons_iff] using hu
    rcases hu' with rfl | rfl | rfl
    · by_cases ha : isXdigit a = true
      · simp [List.dropWhile_cons_of_pos ha, hb]
      · simp [List.takeWhile_cons_of_neg ha] at hne
    · simp [hb] at hne
    · simp at hne
  have hsuffix : skip0x (takeSign ([a, b].dropWhile isSpace)).2 <:+ [a, b] := by
    have hdrop : [a, b].dropWhile isSpace <:+ [a, b] := List.dropWhile_suffix _
    have hsign : (takeSign ([a, b].dropWhile isSpace)).2 <:+ [a, b].dropWhile isSpace := by
      rcases [a, b].dropWhile isSpace with _ | ⟨c, s⟩
      · exact List.suffix_rfl
      · rw [takeSign]
        split_ifs
        · exact List.suffix_cons c s
        · exact List.suffix_cons c s
        · exact List.suffix_rfl
    have hskip := skip0x_short (hsign.trans hdrop).length_le
    rw [hskip]
    exact hsign.trans hdrop
  unfold strtol16
  dsimp only
  by_cases hnil : (skip0x (takeSign ([a, b].dropWhile isSpace)).2).takeWhile isXdigit = []
  · rw [if_pos hnil]
    simp
  · rw [if_neg hnil]
    exact hlast _ hsuffix hnil

theorem strtol16_other (ha : isXdigit a = false) (hlead : isLead a = false) :
    (strtol16 [a, b]).2 ≠ [] := by
  have hne : a ≠ minus ∧ a ≠ plus ∧ isSpace a = false := by
    simp only [isLead, Bool.or_eq_false_iff, decide_eq_false_iff_not] at hlead
    exact ⟨hlead.2, hlead.1.2, hlead.1.1⟩
  have hrest : takeSign ([a, b].dropWhile isSpace) = (false, [a, b]) := by
    rw [List.dropWhile_cons_of_neg (by simp [hne.2.2]), takeSign, if_neg hne.1, if_neg hne.2.1]
  unfold strtol16
  rw [hrest]
  simp [skip0x, ha]

/-- **The strings of two bytes that are taken.** -/
theorem strtol16_two_iff :
    (strtol16 [a, b]).2 = [] ↔ isXdigit b = true ∧ (isXdigit a = true ∨ isLead a = true) := by
  by_cases hb : isXdigit b = true
  swap
  · rw [Bool.not_eq_true] at hb
    exact iff_of_false (strtol16_rest hb) fun h => by simp [hb] at h
  rw [and_iff_right hb]
  by_cases ha : isXdigit a = true
  · exact iff_of_true (by rw [strtol16_digits ha hb]) (.inl ha)
  by_cases hlead : isLead a = true
  · exact iff_of_true (strtol16_lead hlead hb) (.inr hlead)
  · refine iff_of_false ?_ (not_or.mpr ⟨ha, hlead⟩)
    rw [Bool.not_eq_true] at ha hlead
    exact strtol16_other ha hlead

theorem strtol16_one_iff : (strtol16 [b]).2 = [] ↔ isXdigit b = true := by
  by_cases hb : isXdigit b = true
  · exact iff_of_true (by rw [strtol16_digit hb]) hb
  · refine iff_of_false ?_ hb
    rw [strtol16_nodigit (Bool.eq_false_of_not_eq_true hb)]
    simp

/-- What `%02X` prints of a byte is read as the byte. -/
theorem strtol16_upperDigits (c : Byte) :
    strtol16 [upperDigit (c.val / 16), upperDigit (c.val % 16)] = ((c.val : ℤ), []) := by
  have hdiv : c.val / 16 < 16 := by omega
  have hmod : c.val % 16 < 16 := by omega
  rw [strtol16_digits (isXdigit_upperDigit _ hdiv) (isXdigit_upperDigit _ hmod),
    xdigitVal_upperDigit _ hdiv, xdigitVal_upperDigit _ hmod, Nat.div_add_mod]

/-! ### Numbers of a fixed length -/

/-- The digit that `%x` prints. -/
def lowerDigit (n : ℕ) : Byte := Fin.ofNat 256 (if n < 10 then 48 + n else 87 + n)

/-- The last `k` digits of a number. -/
def hexDigits : ℕ → ℕ → List Byte
  | 0, _ => []
  | k + 1, n => hexDigits k (n / 16) ++ [lowerDigit (n % 16)]

/-- `strtoul` to the base 16: the number, which is the largest one if it is too large, and wraps
around under a minus sign. -/
def strtoul16 (s : List Byte) : ℕ :=
  let (neg, u) := takeSign (s.dropWhile isSpace)
  let v := hexVal ((skip0x u).takeWhile isXdigit)
  if 2 ^ 64 ≤ v then 2 ^ 64 - 1 else if neg then (2 ^ 64 - v) % 2 ^ 64 else v

theorem isXdigit_lowerDigit : ∀ n < 16, isXdigit (lowerDigit n) = true := by decide

theorem xdigitVal_lowerDigit : ∀ n < 16, xdigitVal (lowerDigit n) = n := by decide

theorem hexVal_concat (ds : List Byte) (b : Byte) :
    hexVal (ds ++ [b]) = 16 * hexVal ds + xdigitVal b := by
  unfold hexVal
  rw [List.foldl_append]
  rfl

@[simp] theorem length_hexDigits (k n : ℕ) : (hexDigits k n).length = k := by
  induction k generalizing n with
  | zero => rfl
  | succ k ih => rw [hexDigits, List.length_append, ih, List.length_singleton]

theorem isXdigit_of_mem_hexDigits {k n : ℕ} (h : b ∈ hexDigits k n) : isXdigit b = true := by
  induction k generalizing n with
  | zero => cases h
  | succ k ih =>
    rw [hexDigits, List.mem_append, List.mem_singleton] at h
    rcases h with h | rfl
    · exact ih h
    · exact isXdigit_lowerDigit _ (Nat.mod_lt _ (by decide))

/-- **The digits of a number** stand for it. -/
theorem hexVal_hexDigits {k n : ℕ} (h : n < 16 ^ k) : hexVal (hexDigits k n) = n := by
  induction k generalizing n with
  | zero =>
    rw [pow_zero, Nat.lt_one_iff] at h
    rw [h]
    rfl
  | succ k ih =>
    have hdiv : n / 16 < 16 ^ k := Nat.div_lt_of_lt_mul (by rwa [pow_succ'] at h)
    rw [hexDigits, hexVal_concat, ih hdiv, xdigitVal_lowerDigit _ (Nat.mod_lt _ (by decide)),
      Nat.div_add_mod]

/-- **Digits after `0x`** are read as what they stand for. -/
theorem strtoul16_prefixed {ds : List Byte} (hds : ∀ b ∈ ds, isXdigit b = true) (hne : ds ≠ [])
    (hlt : hexVal ds < 2 ^ 64) : strtoul16 (48 :: 120 :: ds) = hexVal ds := by
  rcases ds with _ | ⟨d, ds⟩
  · exact absurd rfl hne
  have hskip : skip0x (48 :: 120 :: d :: ds) = d :: ds :=
    if_pos ⟨rfl, .inl rfl, hds d (List.mem_cons_self ..)⟩
  have hall : (d :: ds).takeWhile isXdigit = d :: ds := List.takeWhile_eq_self_iff.mpr hds
  have hsign : takeSign ((48 :: 120 :: d :: ds).dropWhile isSpace) =
      (false, 48 :: 120 :: d :: ds) := rfl
  unfold strtoul16
  rw [hsign]
  dsimp only
  rw [hskip, hall, if_neg (by omega), if_neg Bool.false_ne_true]

end Libkinetic.Base.Hex
