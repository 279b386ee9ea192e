import Libkinetic.Base.Ints
import Mathlib.Data.List.TakeWhile

/-! # Strings of C

A string is the bytes of a piece of memory up to the first zero; without a zero there is no string,
and a program that looks for its end leaves the memory. Pointers into a string are what follows
them. `scanInt` is the conversion `%d` in the C locale, of a library that reads the number as a
`long`, takes the nearest one if it is out of range, and stores what an `int` holds of it. -/

namespace Libkinetic.Base.Cstrings

open Ints

abbrev Byte := Fin 256

variable {c b : Byte} {s l r w n sgn ds : List Byte} {z : ℤ} {neg : Bool}

/-- The string at the start of some memory. -/
def cstr (mem : List Byte) : Option (List Byte) :=
  if 0 ∈ mem then some (mem.takeWhile (· ≠ 0)) else none

/-- `strchr`: the string from the first `c` on, or the null pointer. -/
def strchr (c : Byte) : List Byte → Option (List Byte)
  | [] => none
  | b :: s => if b = c then some (b :: s) else strchr c s

/-- What stands in front of a byte that ends a span. -/
theorem takeWhile_append_of_head {α : Type*} {p : α → Bool} {l r : List α} (hl : ∀ x ∈ l, p x = true)
    (hr : ∀ x ∈ r.head?, p x = false) : (l ++ r).takeWhile p = l := by
  rw [List.takeWhile_append_of_pos hl]
  cases r with
  | nil => rw [List.takeWhile_nil, List.append_nil]
  | cons x r => rw [List.takeWhile_cons_of_neg (by simp [hr x rfl]), List.append_nil]

theorem dropWhile_append_of_head {α : Type*} {p : α → Bool} {l r : List α} (hl : ∀ x ∈ l, p x = true)
    (hr : ∀ x ∈ r.head?, p x = false) : (l ++ r).dropWhile p = r := by
  rw [List.dropWhile_append_of_pos hl]
  cases r with
  | nil => rfl
  | cons x r => rw [List.dropWhile_cons_of_neg (by simp [hr x rfl])]

/-! ### Ends -/

theorem cstr_append_zero (h : 0 ∉ l) (r : List Byte) : cstr (l ++ 0 :: r) = some l := by
  rw [cstr, if_pos (by simp), takeWhile_append_of_head]
  · intro x hx
    have hne : x ≠ 0 := fun h0 => h (h0 ▸ hx)
    simpa using hne
  · intro x hx
    obtain rfl := Option.some.inj hx
    rfl

/-- What follows a zero is not looked at. -/
theorem cstr_append_of_mem (h : 0 ∈ l) (r : List Byte) : cstr (l ++ r) = cstr l := by
  obtain ⟨x, y, rfl, hx⟩ := List.eq_append_cons_of_mem h
  rw [List.append_assoc, List.cons_append, cstr_append_zero hx, cstr_append_zero hx]

/-- **A string that goes on** into what follows. -/
theorem cstr_append (h : 0 ∉ l) (r : List Byte) : cstr (l ++ r) = (cstr r).map (l ++ ·) := by
  by_cases hr : 0 ∈ r
  · obtain ⟨x, y, rfl, hx⟩ := List.eq_append_cons_of_mem hr
    have hlx : 0 ∉ l ++ x := by
      rw [List.mem_append, not_or]
      exact ⟨h, hx⟩
    rw [cstr_append_zero hx, ← List.append_assoc, cstr_append_zero hlx]
    rfl
  · rw [cstr, cstr, if_neg hr, if_neg (by rw [List.mem_append, not_or]; exact ⟨h, hr⟩)]
    rfl

/-- The empty string is a zero. -/
theorem cstr_eq_nil_iff : cstr l = some [] ↔ l.head? = some 0 := by
  cases l with
  | nil => exact iff_of_false (by decide) (by decide)
  | cons b l =>
    rw [List.head?_cons, Option.some.injEq]
    constructor
    · intro h
      by_contra hb
      unfold cstr at h
      split_ifs at h
      rw [List.takeWhile_cons_of_pos (by simpa using hb)] at h
      cases h
    · rintro rfl
      exact cstr_append_zero (l := []) (by simp) l

theorem cstr_eq_none (h : 0 ∉ l) : cstr l = none := if_neg h

/-! ### Searching -/

theorem strchr_append (h : c ∉ l) (r : List Byte) : strchr c (l ++ c :: r) = some (c :: r) := by
  induction l with
  | nil => exact if_pos rfl
  | cons b l ih =>
    rw [List.mem_cons, not_or] at h
    rw [List.cons_append, strchr, if_neg (Ne.symm h.1)]
    exact ih h.2

theorem strchr_eq_none (h : c ∉ s) : strchr c s = none := by
  induction s with
  | nil => rfl
  | cons b s ih =>
    rw [List.mem_cons, not_or] at h
    rw [strchr, if_neg (Ne.symm h.1)]
    exact ih h.2

/-! ### Numbers -/

/-- `isspace` -/
def isSpace (b : Byte) : Bool := b = 32 || (9 ≤ b && b ≤ 13)

/-- `isdigit` -/
def isDigit (b : Byte) : Bool := 48 ≤ b && b ≤ 57

def minus : Byte := 45
def plus : Byte := 43

/-- The number that some digits stand for. -/
def digitsVal (ds : List Byte) : ℕ := ds.foldl (fun v b => 10 * v + (b.val - 48)) 0

/-- A sign that may be left out, and what follows. -/
def takeSign : List Byte → Bool × List Byte
  | [] => (false, [])
  | b :: s => if b = minus then (true, s) else if b = plus then (false, s) else (false, b :: s)

/-- The nearest number of 64 bits. -/
def clampLong (z : ℤ) : ℤ := max (-2 ^ 63) (min (2 ^ 63 - 1) z)

/-- What is stored for a sign and some digits. -/
def scanned (neg : Bool) (ds : List Byte) : ℤ :=
  toInt (clampLong (if neg then -(digitsVal ds : ℤ) else digitsVal ds))

/-- `%d`: the number that is stored, and what follows it. -/
def scanInt (s : List Byte) : Option (ℤ × List Byte) :=
  let (neg, s) := takeSign (s.dropWhile isSpace)
  let ds := s.takeWhile isDigit
  if ds = [] then none else some (scanned neg ds, s.dropWhile isDigit)

/-- A sign, or nothing. -/
inductive Sign : Bool → List Byte → Prop
  | none : Sign false []
  | plus : Sign false [plus]
  | minus : Sign true [minus]

/-- One digit or more. -/
def Digits (ds : List Byte) : Prop := ds ≠ [] ∧ ∀ b ∈ ds, isDigit b = true

/-- **A number** for `%d`: white space, a sign that may be left out, and digits. -/
def IsNumber (n : List Byte) : Prop :=
  ∃ w neg sgn ds, n = w ++ (sgn ++ ds) ∧ (∀ b ∈ w, isSpace b = true) ∧ Sign neg sgn ∧ Digits ds

/-- **A decimal number** of an `int`. -/
def IsDecimal (n : List Byte) (z : ℤ) : Prop :=
  ∃ (neg : Bool) (sgn ds : List Byte), n = sgn ++ ds ∧ sgn = (if neg then [minus] else []) ∧
    Digits ds ∧ z = (if neg then -(digitsVal ds : ℤ) else digitsVal ds) ∧ IsInt z

theorem isSpace_of_isDigit (h : isDigit b = true) : isSpace b = false := by
  simp only [isDigit, isSpace, Bool.and_eq_true, decide_eq_true_eq, Bool.or_eq_false_iff,
    decide_eq_false_iff_not, Bool.and_eq_false_iff, Fin.le_def, Fin.ext_iff] at h ⊢
  omega

theorem isDigit_ne_sign (h : isDigit b = true) : b ≠ minus ∧ b ≠ plus := by
  constructor <;> rintro rfl <;> exact absurd h (by decide)

theorem takeSign_append (hs : Sign neg sgn) (hd : Digits ds) (r : List Byte) :
    takeSign (sgn ++ (ds ++ r)) = (neg, ds ++ r) := by
  cases hs with
  | none =>
    obtain ⟨hne, hall⟩ := hd
    cases ds with
    | nil => exact absurd rfl hne
    | cons b ds =>
      obtain ⟨hm, hp⟩ := isDigit_ne_sign (hall b List.mem_cons_self)
      simp only [List.nil_append, List.cons_append, takeSign, if_neg hm, if_neg hp]
  | plus => rfl
  | minus => rfl

/-- The sign and the digits do not start with white space. -/
theorem head_not_space (hs : Sign neg sgn) (hd : Digits ds) (r : List Byte) :
    ∀ x ∈ (sgn ++ (ds ++ r)).head?, isSpace x = false := by
  intro x hx
  cases hs with
  | none =>
    obtain ⟨hne, hall⟩ := hd
    cases ds with
    | nil => exact absurd rfl hne
    | cons b ds =>
      obtain rfl : b = x := Option.some.inj hx
      exact isSpace_of_isDigit (hall b List.mem_cons_self)
  | plus =>
    obtain rfl := Option.some.inj hx
    decide
  | minus =>
    obtain rfl := Option.some.inj hx
    decide

/-- **Scanning a number** up to its end. -/
theorem scanInt_append (hw : ∀ b ∈ w, isSpace b = true) (hs : Sign neg sgn) (hd : Digits ds)
    (hr : ∀ b ∈ r.head?, isDigit b = false) :
    scanInt (w ++ (sgn ++ (ds ++ r))) = some (scanned neg ds, r) := by
  simp only [scanInt, dropWhile_append_of_head hw (head_not_space hs hd r),
    takeSign_append hs hd r, takeWhile_append_of_head hd.2 hr, dropWhile_append_of_head hd.2 hr,
    if_neg hd.1]

/-- What a sign is taken from. -/
theorem takeSign_eq (s : List Byte) :
    ∃ sgn, Sign (takeSign s).1 sgn ∧ s = sgn ++ (takeSign s).2 := by
  cases s with
  | nil => exact ⟨[], .none, rfl⟩
  | cons b s =>
    simp only [takeSign]
    split_ifs with hm hp
    · exact ⟨[minus], .minus, by rw [hm]; rfl⟩
    · exact ⟨[plus], .plus, by rw [hp]; rfl⟩
    · exact ⟨[], .none, rfl⟩

/-- **What was scanned** is a number. -/
theorem scanInt_some (h : scanInt s = some (z, r)) : ∃ n, IsNumber n ∧ s = n ++ r := by
  obtain ⟨sgn, hsgn, hsplit⟩ := takeSign_eq (s.dropWhile isSpace)
  simp only [scanInt] at h
  split_ifs at h with hds
  obtain rfl : (takeSign (s.dropWhile isSpace)).2.dropWhile isDigit = r := by
    have hpair := Option.some.inj h
    exact congrArg Prod.snd hpair
  refine ⟨s.takeWhile isSpace ++ (sgn ++ (takeSign (s.dropWhile isSpace)).2.takeWhile isDigit),
    ⟨_, _, sgn, _, rfl, fun b hb => List.mem_takeWhile_imp hb, hsgn, hds,
      fun b hb => List.mem_takeWhile_imp hb⟩, ?_⟩
  rw [List.append_assoc, List.append_assoc, List.takeWhile_append_dropWhile, ← hsplit,
    List.takeWhile_append_dropWhile]

/-- Where a number starts, one is scanned, of all the digits that follow. -/
theorem scanInt_isSome (hn : IsNumber n) (r : List Byte) : (scanInt (n ++ r)).isSome = true := by
  obtain ⟨w, neg, sgn, ds, rfl, hw, hs, hd⟩ := hn
  have hmore : Digits (ds ++ r.takeWhile isDigit) := by
    refine ⟨fun h => hd.1 (List.append_eq_nil_iff.mp h).1, fun b hb => ?_⟩
    rcases List.mem_append.mp hb with hb | hb
    · exact hd.2 b hb
    · exact List.mem_takeWhile_imp hb
  have hend : ∀ b ∈ (r.dropWhile isDigit).head?, isDigit b = false := by
    intro b hb
    have hneg := List.head?_dropWhile_not isDigit r
    rw [Option.mem_def.mp hb] at hneg
    simpa using hneg
  have hsplit : w ++ (sgn ++ ds) ++ r =
      w ++ (sgn ++ ((ds ++ r.takeWhile isDigit) ++ r.dropWhile isDigit)) := by
    simp only [List.append_assoc, List.takeWhile_append_dropWhile]
  rw [hsplit, scanInt_append hw hs hmore hend]
  rfl

/-- Up to a byte that ends it, a number is scanned. -/
theorem scanInt_number (hn : IsNumber n) (hr : ∀ b ∈ r.head?, isDigit b = false) :
    ∃ z, scanInt (n ++ r) = some (z, r) := by
  obtain ⟨w, neg, sgn, ds, rfl, hw, hs, hd⟩ := hn
  have hassoc : w ++ (sgn ++ ds) ++ r = w ++ (sgn ++ (ds ++ r)) := by
    simp only [List.append_assoc]
  exact ⟨scanned neg ds, by rw [hassoc, scanInt_append hw hs hd hr]⟩

/-- A decimal number is stored as it is. -/
theorem scanInt_decimal (hn : IsDecimal n z) (hr : ∀ b ∈ r.head?, isDigit b = false) :
    scanInt (n ++ r) = some (z, r) := by
  obtain ⟨neg, sgn, ds, rfl, rfl, hd, rfl, hz⟩ := hn
  have hs : Sign neg (if neg then [minus] else []) := by
    cases neg with
    | false => exact .none
    | true => exact .minus
  have hval : scanned neg ds = if neg then -(digitsVal ds : ℤ) else digitsVal ds := by
    have hclamp : clampLong (if neg then -(digitsVal ds : ℤ) else digitsVal ds) =
        if neg then -(digitsVal ds : ℤ) else digitsVal ds := by
      unfold clampLong
      have := hz.1
      have := hz.2
      omega
    rw [scanned, hclamp, toInt_of_isInt hz]
  have hscan := scanInt_append (w := []) (by simp) hs hd hr
  rw [hval] at hscan
  rwa [List.nil_append, ← List.append_assoc] at hscan

/-- The bytes of a decimal number. -/
theorem IsDecimal.mem (hn : IsDecimal n z) (hb : b ∈ n) : b = minus ∨ isDigit b = true := by
  obtain ⟨neg, sgn, ds, rfl, rfl, hd, -, -⟩ := hn
  rcases List.mem_append.mp hb with hb | hb
  · cases neg with
    | false => cases hb
    | true => exact .inl (List.mem_singleton.mp hb)
  · exact .inr (hd.2 b hb)

end Libkinetic.Base.Cstrings
