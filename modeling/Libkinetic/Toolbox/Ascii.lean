import Libkinetic.Base.Hex

/-! # Bytes as text

`asciidump` prints a byte that is not printable as `\x` and two digits, and `asciidecode`, of which
`kctl` and `bkv` have the same copy, reads such text. The decoder looks for `\x` and hands the two
bytes behind it to `strtol`; the memory that it may read ends with the zero behind the text, and a
read past that has no result. Both are described by the pieces of the text (`scan`): the bytes, and
the escapes with what follows them. -/

namespace Libkinetic.Toolbox.Ascii

open Libkinetic.Base.Cstrings Libkinetic.Base.Hex

/-! ### The functions -/

def backslash : Byte := 92
def letterX : Byte := 120

/-- `isprint` -/
def isPrint (c : Byte) : Bool := 32 ≤ c && c ≤ 126

/-- What is printed for a byte. -/
def dumpByte (c : Byte) : List Byte :=
  if isPrint c then [c] else [backslash, letterX, upperDigit (c.val / 16), upperDigit (c.val % 16)]

/-- **`asciidump`** -/
def asciidump (data : List Byte) : List Byte := data.flatMap dumpByte

/-- The conversion to `char`. -/
def toChar (z : ℤ) : Byte := Fin.ofNat 256 (z % 256).toNat

/-- The string in `s`, which has a zero behind its two bytes. -/
def stringOf (s0 s1 : Byte) : List Byte := [s0, s1].takeWhile (· ≠ 0)

/-- The loop of `asciidecode`: the memory from `i` on, how much of the size is left, and what was
decoded. The index goes on by two, one and one for an escape, past the size if that is less. -/
def decodeLoop : List Byte → ℕ → List Byte → Option (Option (List Byte))
  | _, 0, raw => some (some raw)
  | a :: x :: s0 :: s1 :: mem, n + 1, raw =>
    if a = backslash ∧ x = letterX then
      let (value, cp) := strtol16 (stringOf s0 s1)
      if cp = [] then decodeLoop mem (n - 3) (raw ++ [toChar value]) else some none
    else decodeLoop (x :: s0 :: s1 :: mem) n (raw ++ [a])
  | [a, x, s0], n + 1, raw =>
    if a = backslash ∧ x = letterX then none else decodeLoop [x, s0] n (raw ++ [a])
  | [a, x], n + 1, raw =>
    if a = backslash ∧ x = letterX then none else decodeLoop [x] n (raw ++ [a])
  | [a], n + 1, raw => if a = backslash then none else decodeLoop [] n (raw ++ [a])
  | [], _ + 1, _ => none

/-- **`asciidecode`**: what is in the buffer, with its length, unless it fails; `alloc` says whether
`malloc` gets the buffer. -/
def asciidecode (alloc : Bool) (mem : List Byte) (size : ℕ) :
    Option (Option (List Byte × ℕ)) :=
  if ¬ alloc then some none
  else (decodeLoop mem size []).map fun raw => raw.map fun raw => (raw, raw.length)

/-! ### Pieces -/

/-- A piece of a text: a byte, or `\x` with as many as two bytes that follow it. -/
inductive Piece
  | byte (b : Byte)
  | escape (e : List Byte)
deriving DecidableEq

/-- The pieces, from left to right. -/
def scan : List Byte → List Piece
  | a :: x :: s0 :: s1 :: b =>
    if a = backslash ∧ x = letterX then .escape [s0, s1] :: scan b
    else .byte a :: scan (x :: s0 :: s1 :: b)
  | [a, x, s0] => if a = backslash ∧ x = letterX then [.escape [s0]] else .byte a :: scan [x, s0]
  | [a, x] => if a = backslash ∧ x = letterX then [.escape []] else .byte a :: scan [x]
  | [a] => [.byte a]
  | [] => []

/-- Two digits. -/
def TwoDigits : List Byte → Prop
  | [h, l] => isXdigit h = true ∧ isXdigit l = true
  | _ => False

instance : DecidablePred TwoDigits := fun e => by
  unfold TwoDigits; split <;> infer_instance

/-- What a piece stands for. -/
def Piece.denotes : Piece → Option Byte
  | .byte b => some b
  | .escape e => if TwoDigits e then some (Fin.ofNat 256 (hexVal e)) else none

/-- **The text with its escapes replaced**, if each of them has its two digits. -/
def replaced (b : List Byte) : Option (List Byte) := (scan b).mapM Piece.denotes

/-- What the decoder makes of the pieces. -/
def runPieces : List Piece → List Byte → Option (Option (List Byte))
  | [], raw => some (some raw)
  | .byte b :: ps, raw => runPieces ps (raw ++ [b])
  | .escape [] :: _, _ => none
  | .escape (s :: e) :: ps, raw =>
    if (strtol16 (s :: e)).2 = [] then runPieces ps (raw ++ [toChar (strtol16 (s :: e)).1])
    else some none

section Scan
variable {a s0 s1 c : Byte} {b raw : List Byte} {n : ℕ}

theorem scan_plain (h : ¬ (a = backslash ∧ b.head? = some letterX)) :
    scan (a :: b) = .byte a :: scan b := by
  rcases b with _ | ⟨x, _ | ⟨s0, _ | ⟨s1, b⟩⟩⟩
  · rfl
  · rw [scan, if_neg (by simpa using h)]
  · rw [scan, if_neg (by simpa using h)]
  · rw [scan, if_neg (by simpa using h)]

theorem scan_escape (s0 s1 : Byte) (b : List Byte) :
    scan (backslash :: letterX :: s0 :: s1 :: b) = .escape [s0, s1] :: scan b :=
  if_pos ⟨rfl, rfl⟩

/-- **Induction over the pieces.** -/
theorem scan_induction {P : List Byte → Prop} (nil : P [])
    (plain : ∀ a b, ¬ (a = backslash ∧ b.head? = some letterX) → P b → P (a :: b))
    (escape : ∀ s0 s1 b, P b → P (backslash :: letterX :: s0 :: s1 :: b))
    (short : ∀ s0, P [backslash, letterX, s0]) (none : P [backslash, letterX]) (b : List Byte) :
    P b := by
  induction hn : b.length using Nat.strong_induction_on generalizing b with
  | h n ih =>
    rcases b with _ | ⟨a, b⟩
    · exact nil
    by_cases h : a = backslash ∧ b.head? = some letterX
    swap
    · refine plain a b h (ih b.length ?_ b rfl)
      simp [← hn]
    obtain ⟨rfl, hx⟩ := h
    rcases b with _ | ⟨x, _ | ⟨s0, _ | ⟨s1, b⟩⟩⟩
    · cases hx
    · obtain rfl := Option.some.inj hx
      exact none
    · obtain rfl := Option.some.inj hx
      exact short s0
    · obtain rfl := Option.some.inj hx
      refine escape s0 s1 b (ih b.length ?_ b rfl)
      simp only [← hn, List.length_cons]
      omega

/-! ### The loop -/

theorem decodeLoop_plain {mem : List Byte} (hmem : mem ≠ [])
    (h : ¬ (a = backslash ∧ mem.head? = some letterX)) :
    decodeLoop (a :: mem) (n + 1) raw = decodeLoop mem n (raw ++ [a]) := by
  rcases mem with _ | ⟨x, _ | ⟨s0, _ | ⟨s1, mem⟩⟩⟩
  · exact absurd rfl hmem
  · rw [decodeLoop, if_neg (by simpa using h)]
  · rw [decodeLoop, if_neg (by simpa using h)]
  · rw [decodeLoop, if_neg (by simpa using h)]

theorem stringOf_two (h0 : s0 ≠ 0) (h1 : s1 ≠ 0) : stringOf s0 s1 = [s0, s1] := by
  simp [stringOf, h0, h1]

theorem stringOf_one (h0 : s0 ≠ 0) : stringOf s0 0 = [s0] := by
  simp [stringOf, h0]

/-- **The decoder reads the pieces** of a text with a zero behind it. -/
theorem decodeLoop_eq (hb : 0 ∉ b) :
    decodeLoop (b ++ [0]) b.length raw = runPieces (scan b) raw := by
  induction b using scan_induction generalizing raw with
  | nil => rfl
  | plain a b h ih =>
    have hb' : 0 ∉ b := fun hmem => hb (List.mem_cons_of_mem a hmem)
    have hhead : ¬ (a = backslash ∧ (b ++ [0]).head? = some letterX) := by
      rcases b with _ | ⟨x, b⟩
      · rintro ⟨-, hx⟩
        exact absurd hx (by decide)
      · exact h
    rw [List.cons_append, List.length_cons, decodeLoop_plain (by simp) hhead, ih hb',
      scan_plain h, runPieces]
  | escape s0 s1 b ih =>
    simp only [List.mem_cons, not_or] at hb
    obtain ⟨-, -, h0, h1, hb⟩ := hb
    have hlen : (backslash :: letterX :: s0 :: s1 :: b).length = (b.length + 3) + 1 := rfl
    rw [hlen, scan_escape, runPieces]
    simp only [List.cons_append, decodeLoop, and_self, if_true, Nat.add_sub_cancel,
      stringOf_two (Ne.symm h0) (Ne.symm h1), ih hb]
  | short s0 =>
    simp only [List.mem_cons, not_or] at hb
    have hscan : scan [backslash, letterX, s0] = [.escape [s0]] := if_pos ⟨rfl, rfl⟩
    rw [hscan, runPieces]
    simp only [List.cons_append, List.nil_append, List.length_cons, List.length_nil, decodeLoop,
      and_self, if_true, stringOf_one (Ne.symm hb.2.2.1), runPieces]
    rfl
  | none => rfl

/-- The buffer, which has room for the size, is never overrun. -/
theorem runPieces_length {ps : List Piece} {r : List Byte}
    (hrun : runPieces ps raw = some (some r)) : r.length = raw.length + ps.length := by
  induction ps generalizing raw with
  | nil =>
    obtain rfl := Option.some.inj (Option.some.inj hrun)
    rfl
  | cons p ps ih =>
    rcases p with c | (_ | ⟨s, e⟩)
    · have hlen := ih hrun
      rw [List.length_append, List.length_singleton] at hlen
      rw [List.length_cons, hlen]
      omega
    · cases hrun
    · rw [runPieces] at hrun
      split_ifs at hrun
      · have hlen := ih hrun
        rw [List.length_append, List.length_singleton] at hlen
        rw [List.length_cons, hlen]
        omega
      · cases hrun

theorem notMem_dropLast_cons {α : Type*} {p q : α} {ps : List α} (hne : q ≠ p)
    (hps : q ∉ ps.dropLast) : q ∉ (p :: ps).dropLast := by
  rcases ps with _ | ⟨p', ps⟩
  · simp
  · rw [List.dropLast_cons_cons, List.mem_cons, not_or]
    exact ⟨hne, hps⟩

/-- Fewer than two bytes follow the last escape only. -/
theorem empty_last (b : List Byte) : Piece.escape [] ∉ (scan b).dropLast := by
  induction b using scan_induction with
  | nil => simp [scan]
  | plain a b h ih =>
    rw [scan_plain h]
    exact notMem_dropLast_cons nofun ih
  | escape s0 s1 b ih =>
    rw [scan_escape]
    exact notMem_dropLast_cons nofun ih
  | short s0 =>
    rw [show scan [backslash, letterX, s0] = [.escape [s0]] from if_pos ⟨rfl, rfl⟩]
    simp
  | none => decide

theorem length_escape_le {e : List Byte} (he : Piece.escape e ∈ scan b) : e.length ≤ 2 := by
  induction b using scan_induction with
  | nil => cases he
  | plain a b h ih =>
    rw [scan_plain h, List.mem_cons] at he
    rcases he with heq | he
    · cases heq
    · exact ih he
  | escape s0 s1 b ih =>
    rw [scan_escape, List.mem_cons] at he
    rcases he with heq | he
    · obtain rfl := Piece.escape.inj heq
      exact le_rfl
    · exact ih he
  | short s0 =>
    rw [show scan [backslash, letterX, s0] = [.escape [s0]] from if_pos ⟨rfl, rfl⟩,
      List.mem_singleton] at he
    obtain rfl := Piece.escape.inj he
    exact one_le_two
  | none =>
    rw [show scan [backslash, letterX] = [.escape []] from rfl, List.mem_singleton] at he
    obtain rfl := Piece.escape.inj he
    exact Nat.zero_le 2

end Scan

/-! ### What is decoded -/

/-- What `strtol` takes to its end: two digits; a digit at the end of the text; and a blank or a
sign with a digit behind it. -/
def Taken : List Byte → Prop
  | [d] => isXdigit d = true
  | [c, d] => isXdigit d = true ∧ (isXdigit c = true ∨ isLead c = true)
  | _ => False

/-- Every escape has its two digits. -/
def WellFormed (b : List Byte) : Prop := ∀ e, .escape e ∈ scan b → TwoDigits e

/-- There is an escape with something behind it that `strtol` does not take. -/
def Rejected (b : List Byte) : Prop := ∃ e, .escape e ∈ scan b ∧ e ≠ [] ∧ ¬ Taken e

/-- **`asciidecode` returns**, without a read past the zero: the text with its escapes replaced, and
the length of that; or a failure, if there is an escape without its digits. -/
def Decodes (alloc : Bool) (b : List Byte) : Prop :=
  asciidecode alloc (b ++ [0]) b.length = some ((replaced b).map fun raw => (raw, raw.length))

section Decode
variable {b raw r e : List Byte} {ps : List Piece} {alloc : Bool}

theorem taken_iff (hlen : e.length ≤ 2) : Taken e ↔ e ≠ [] ∧ (strtol16 e).2 = [] := by
  rcases e with _ | ⟨c, _ | ⟨d, _ | ⟨x, e⟩⟩⟩
  · exact iff_of_false id fun h => h.1 rfl
  · rw [strtol16_one_iff, and_iff_right (List.cons_ne_nil c [])]
    rfl
  · rw [strtol16_two_iff, and_iff_right (List.cons_ne_nil c [d])]
    rfl
  · simp at hlen

theorem toChar_natCast (n : ℕ) : toChar n = Fin.ofNat 256 n := by
  unfold toChar
  ext
  simp only [Fin.val_ofNat]
  omega

/-- What stands for a byte is decoded as that byte. -/
theorem run_denotes (hps : ps.mapM Piece.denotes = some r) :
    runPieces ps raw = some (some (raw ++ r)) := by
  induction ps generalizing raw r with
  | nil =>
    rw [List.mapM_nil] at hps
    obtain rfl := Option.some.inj hps
    rw [List.append_nil]
    rfl
  | cons p ps ih =>
    rw [List.mapM_cons] at hps
    obtain ⟨c, hc, hps⟩ := Option.bind_eq_some_iff.mp hps
    obtain ⟨r', hr', hr⟩ := Option.bind_eq_some_iff.mp hps
    obtain rfl := Option.some.inj hr
    rcases p with d | e
    · obtain rfl := Option.some.inj hc
      rw [runPieces, ih hr', List.append_assoc]
      rfl
    · rw [Piece.denotes] at hc
      split_ifs at hc with htwo
      obtain rfl := Option.some.inj hc
      rcases e with _ | ⟨h, _ | ⟨l, _ | ⟨x, e⟩⟩⟩
      · exact htwo.elim
      · exact htwo.elim
      · have hval := strtol16_digits htwo.1 htwo.2
        have hhex : hexVal [h, l] = 16 * xdigitVal h + xdigitVal l := by simp [hexVal]
        rw [runPieces, hval, if_pos rfl, ih hr', toChar_natCast, hhex, List.append_assoc]
        rfl
      · exact htwo.elim

/-- An escape that is not taken makes the decoder fail. -/
theorem run_rejects (hrej : ∃ e, .escape e ∈ ps ∧ e ≠ [] ∧ (strtol16 e).2 ≠ [])
    (hlast : Piece.escape [] ∉ ps.dropLast) : runPieces ps raw = some none := by
  induction ps generalizing raw with
  | nil =>
    obtain ⟨e, he, -⟩ := hrej
    cases he
  | cons p ps ih =>
    obtain ⟨e, he, hne, hrest⟩ := hrej
    have hps : p ≠ .escape e → (∃ e, .escape e ∈ ps ∧ e ≠ [] ∧ (strtol16 e).2 ≠ []) ∧
        Piece.escape [] ∉ ps.dropLast ∧ p ≠ .escape [] := by
      intro hp
      have hmem : Piece.escape e ∈ ps := (List.mem_cons.mp he).resolve_left (Ne.symm hp)
      obtain ⟨q, qs, rfl⟩ := List.exists_cons_of_ne_nil (List.ne_nil_of_mem hmem)
      rw [List.dropLast_cons_cons, List.mem_cons, not_or] at hlast
      exact ⟨⟨e, hmem, hne, hrest⟩, hlast.2, Ne.symm hlast.1⟩
    rcases p with c | (_ | ⟨s, e'⟩)
    · have hnext := hps nofun
      exact ih hnext.1 hnext.2.1
    · exact absurd rfl (hps fun heq => hne (Piece.escape.inj heq).symm).2.2
    · rw [runPieces]
      by_cases htaken : (strtol16 (s :: e')).2 = []
      · have hnext := hps fun heq => hrest (Piece.escape.inj heq ▸ htaken)
        rw [if_pos htaken]
        exact ih hnext.1 hnext.2.1
      · rw [if_neg htaken]

/-- Otherwise it does not fail. -/
theorem run_accepts (hacc : ∀ e, .escape e ∈ ps → e ≠ [] → (strtol16 e).2 = []) :
    runPieces ps raw ≠ some none := by
  induction ps generalizing raw with
  | nil => nofun
  | cons p ps ih =>
    have hps : ∀ e, .escape e ∈ ps → e ≠ [] → (strtol16 e).2 = [] :=
      fun e he => hacc e (List.mem_cons_of_mem p he)
    rcases p with c | (_ | ⟨s, e⟩)
    · exact ih hps
    · nofun
    · have htaken := hacc (s :: e) List.mem_cons_self (List.cons_ne_nil s e)
      rw [runPieces, if_pos htaken]
      exact ih hps

theorem mapM_denotes_none (hbad : ∃ e, .escape e ∈ ps ∧ ¬ TwoDigits e) :
    ps.mapM Piece.denotes = none := by
  induction ps with
  | nil =>
    obtain ⟨e, he, -⟩ := hbad
    cases he
  | cons p ps ih =>
    rw [List.mapM_cons]
    obtain ⟨e, he, hne⟩ := hbad
    rcases List.mem_cons.mp he with rfl | he
    · rw [Piece.denotes, if_neg hne]
      rfl
    · rw [ih ⟨e, he, hne⟩]
      rcases p.denotes with _ | c <;> rfl

theorem mapM_denotes_some (hwell : ∀ e, .escape e ∈ ps → TwoDigits e) :
    ∃ r, ps.mapM Piece.denotes = some r := by
  induction ps with
  | nil => exact ⟨[], rfl⟩
  | cons p ps ih =>
    obtain ⟨r, hr⟩ := ih fun e he => hwell e (List.mem_cons_of_mem p he)
    obtain ⟨c, hc⟩ : ∃ c, p.denotes = some c := by
      rcases p with c | e
      · exact ⟨c, rfl⟩
      · exact ⟨_, if_pos (hwell e List.mem_cons_self)⟩
    refine ⟨c :: r, ?_⟩
    rw [List.mapM_cons, hc, hr]
    rfl

theorem rejected_iff : Rejected b ↔ ∃ e, .escape e ∈ scan b ∧ e ≠ [] ∧ (strtol16 e).2 ≠ [] := by
  refine exists_congr fun e => and_congr_right fun he => and_congr_right fun hne => ?_
  rw [taken_iff (length_escape_le he), and_iff_right hne]

/-- A text with an escape that is not taken is not well formed. -/
theorem Rejected.not_wellFormed (h : Rejected b) : ¬ WellFormed b := by
  obtain ⟨e, he, -, hnot⟩ := h
  intro hwell
  have htwo := hwell e he
  rcases e with _ | ⟨c, _ | ⟨d, _ | ⟨x, e⟩⟩⟩
  · exact htwo
  · exact htwo
  · exact hnot ⟨htwo.2, .inl htwo.1⟩
  · exact htwo

/-- **When a text is decoded as it should be**: there is memory, and every escape has its digits or
there is one that `strtol` turns down; or there is none, and the text is not well formed. -/
theorem decodes_iff (alloc : Bool) (b : List Byte) (hb : 0 ∉ b) : Decodes alloc b ↔
    (if alloc then WellFormed b ∨ Rejected b else ¬ WellFormed b) := by
  have hreplaced : WellFormed b → ∃ r, replaced b = some r := fun h => mapM_denotes_some h
  have hnone : ¬ WellFormed b → replaced b = none := by
    intro h
    unfold WellFormed at h
    push Not at h
    exact mapM_denotes_none h
  unfold Decodes asciidecode
  rcases alloc with _ | _
  · rw [if_pos Bool.false_ne_true, if_neg Bool.false_ne_true]
    constructor
    · intro hdec hwell
      obtain ⟨r, hr⟩ := hreplaced hwell
      rw [hr] at hdec
      cases hdec
    · intro h
      rw [hnone h]
      rfl
  · rw [if_neg (by decide), if_pos rfl, decodeLoop_eq hb]
    by_cases hwell : WellFormed b
    · obtain ⟨r, hr⟩ := hreplaced hwell
      refine iff_of_true ?_ (.inl hwell)
      rw [run_denotes hr, hr]
      rfl
    rw [or_iff_right hwell, hnone hwell]
    by_cases hrej : Rejected b
    · refine iff_of_true ?_ hrej
      rw [run_rejects (rejected_iff.mp hrej) (empty_last b)]
      rfl
    · refine iff_of_false ?_ hrej
      intro hdec
      have hacc : runPieces (scan b) [] ≠ some none := by
        refine run_accepts fun e he hne => ?_
        by_contra hrest
        exact hrej (rejected_iff.mpr ⟨e, he, hne, hrest⟩)
      rcases hrun : runPieces (scan b) [] with _ | (_ | r)
      · rw [hrun] at hdec
        cases hdec
      · exact hacc hrun
      · rw [hrun] at hdec
        cases hdec

/-- A text with an escape. -/
theorem escaped_text_decodes : Decodes true [backslash, letterX, 52, 49, 32] := by
  refine (decodes_iff true _ (by decide)).mpr (.inl fun e he => ?_)
  have hscan : scan [backslash, letterX, 52, 49, 32] = [.escape [52, 49], .byte 32] := by decide
  rw [hscan] at he
  obtain rfl : e = [52, 49] := by simpa using he
  decide

/-- **A `\x` at the end** is followed past the zero; with one digit, or with a blank or a sign and a
digit, it is taken. -/
theorem odd_escapes_not_decoded :
    asciidecode true [backslash, letterX, 0] 2 = none ∧ ¬ Decodes true [backslash, letterX] ∧
      ¬ Decodes true [backslash, letterX, 52] ∧ ¬ Decodes true [backslash, letterX, 32, 52] ∧
        ¬ Decodes true [backslash, letterX, 45, 52] := by
  unfold Decodes
  decide

end Decode

/-! ### There and back -/

section Dump
variable {b raw r : List Byte} {c : Byte}

theorem asciidump_cons (c : Byte) (b : List Byte) :
    asciidump (c :: b) = dumpByte c ++ asciidump b := List.flatMap_cons

theorem notMem_asciidump (b : List Byte) : 0 ∉ asciidump b := by
  have hdigit : ∀ n < 16, upperDigit n ≠ 0 := by decide
  intro hmem
  obtain ⟨c, -, hc⟩ := List.mem_flatMap.mp hmem
  unfold dumpByte at hc
  split_ifs at hc with hprint
  · rw [List.mem_singleton] at hc
    subst hc
    exact absurd hprint (by decide)
  · have hdiv : c.val / 16 < 16 := by omega
    have hmod : c.val % 16 < 16 := by omega
    simp only [List.mem_cons, List.not_mem_nil, or_false] at hc
    rcases hc with hc | hc | hc | hc
    · exact absurd hc (by decide)
    · exact absurd hc (by decide)
    · exact hdigit _ hdiv hc.symm
    · exact hdigit _ hmod hc.symm

/-- A dump begins with an `x` just if the bytes do. -/
theorem head_asciidump (b : List Byte) :
    (asciidump b).head? = some letterX ↔ b.head? = some letterX := by
  rcases b with _ | ⟨c, b⟩
  · rfl
  rw [asciidump_cons, dumpByte, List.head?_cons]
  split_ifs with hprint
  · rfl
  · refine iff_of_false (fun hx => absurd (Option.some.inj hx) (by decide)) fun hc => ?_
    obtain rfl := Option.some.inj hc
    exact hprint (by decide)

theorem scan_dump_unprintable (hc : ¬ isPrint c = true) (b : List Byte) :
    scan (asciidump (c :: b)) =
      .escape [upperDigit (c.val / 16), upperDigit (c.val % 16)] :: scan (asciidump b) := by
  rw [asciidump_cons, dumpByte, if_neg hc]
  exact scan_escape _ _ _

theorem scan_dump_plain (hc : isPrint c = true)
    (h : ¬ (c = backslash ∧ b.head? = some letterX)) :
    scan (asciidump (c :: b)) = .byte c :: scan (asciidump b) := by
  rw [asciidump_cons, dumpByte, if_pos hc, List.singleton_append]
  refine scan_plain ?_
  rwa [head_asciidump]

/-- What is printed for a byte that is not printable is decoded as the byte. -/
theorem run_unprintable (hc : ¬ isPrint c = true) (b : List Byte) :
    runPieces (scan (asciidump (c :: b))) raw = runPieces (scan (asciidump b)) (raw ++ [c]) := by
  have hchar : toChar (c.val : ℤ) = c := by
    rw [toChar_natCast]
    ext
    simp
  rw [scan_dump_unprintable hc, runPieces, strtol16_upperDigits, if_pos rfl, hchar]

/-- **Bytes without `\x`** come back as they were. -/
theorem run_dump (h : ¬ [backslash, letterX] <:+: b) :
    runPieces (scan (asciidump b)) raw = some (some (raw ++ b)) := by
  induction b generalizing raw with
  | nil =>
    rw [List.append_nil]
    rfl
  | cons c b ih =>
    have hb : ¬ [backslash, letterX] <:+: b :=
      fun hinf => h (hinf.trans (List.suffix_cons c b).isInfix)
    have hih : runPieces (scan (asciidump b)) (raw ++ [c]) = some (some (raw ++ c :: b)) := by
      rw [ih hb, List.append_assoc, List.singleton_append]
    by_cases hc : isPrint c = true
    · have hplain : ¬ (c = backslash ∧ b.head? = some letterX) := by
        rintro ⟨rfl, hx⟩
        rcases b with _ | ⟨x, b⟩
        · cases hx
        · obtain rfl := Option.some.inj hx
          exact h (List.prefix_append [backslash, letterX] b).isInfix
      rw [scan_dump_plain hc hplain, runPieces, hih]
    · rw [run_unprintable hc, hih]

/-- Behind a `\x` that is not the decoder's own two printable bytes are taken, or one at the end. -/
theorem run_fake (hrun : runPieces (scan (asciidump (backslash :: letterX :: b))) raw =
    some (some r)) : (∃ s0, b = [s0] ∧ r.length = raw.length + 1) ∨
      ∃ s0 s1 b' raw', b = s0 :: s1 :: b' ∧ raw'.length = raw.length + 1 ∧
        runPieces (scan (asciidump b')) raw' = some (some r) := by
  have hdump : asciidump (backslash :: letterX :: b) = backslash :: letterX :: asciidump b := rfl
  rw [hdump] at hrun
  rcases b with _ | ⟨s0, b⟩
  · cases hrun
  by_cases h0 : isPrint s0 = true
  swap
  · rw [asciidump_cons, dumpByte, if_neg h0] at hrun
    simp only [List.cons_append] at hrun
    rw [scan_escape, runPieces, if_neg (by rw [strtol16_two_iff]; decide)] at hrun
    cases hrun
  rw [asciidump_cons, dumpByte, if_pos h0, List.singleton_append] at hrun
  rcases b with _ | ⟨s1, b⟩
  · have hscan : scan [backslash, letterX, s0] = [.escape [s0]] := if_pos ⟨rfl, rfl⟩
    refine .inl ⟨s0, rfl, ?_⟩
    have hnil : asciidump [] = [] := rfl
    rw [hnil, hscan] at hrun
    exact runPieces_length hrun
  by_cases h1 : isPrint s1 = true
  swap
  · rw [asciidump_cons, dumpByte, if_neg h1] at hrun
    simp only [List.cons_append] at hrun
    have hrest : ¬ (strtol16 [s0, backslash]).2 = [] := by
      rw [strtol16_two_iff]
      exact fun hdigit => absurd hdigit.1 (by decide)
    rw [scan_escape, runPieces, if_neg hrest] at hrun
    cases hrun
  rw [asciidump_cons, dumpByte, if_pos h1, List.singleton_append, scan_escape, runPieces] at hrun
  split_ifs at hrun
  · exact .inr ⟨s0, s1, b, _, rfl, by simp, hrun⟩
  · cases hrun

/-- **Nothing is gained by decoding a dump**, and where there is a `\x` something is lost. -/
theorem run_dump_length (hrun : runPieces (scan (asciidump b)) raw = some (some r)) :
    r.length ≤ raw.length + b.length ∧
      ([backslash, letterX] <:+: b → r.length < raw.length + b.length) := by
  induction hn : b.length using Nat.strong_induction_on generalizing b raw with
  | h n ih =>
    rcases b with _ | ⟨c, b⟩
    · obtain rfl := Option.some.inj (Option.some.inj hrun)
      refine ⟨by simp, fun hinf => ?_⟩
      simp at hinf
    rw [List.length_cons] at hn
    by_cases h : c = backslash ∧ b.head? = some letterX
    · obtain ⟨rfl, hx⟩ := h
      rcases b with _ | ⟨x, b⟩
      · cases hx
      obtain rfl := Option.some.inj hx
      have hshort : r.length < raw.length + (b.length + 2) := by
        rcases run_fake hrun with ⟨s0, rfl, hlen⟩ | ⟨s0, s1, b', raw', rfl, hraw, hrest⟩
        · rw [List.length_singleton]
          omega
        · simp only [List.length_cons] at hn
          have hle := (ih b'.length (by omega) hrest rfl).1
          simp only [List.length_cons]
          omega
      simp only [List.length_cons] at hn
      exact ⟨by omega, fun _ => by omega⟩
    · have hstep : runPieces (scan (asciidump b)) (raw ++ [c]) = some (some r) := by
        by_cases hc : isPrint c = true
        · rw [scan_dump_plain hc h] at hrun
          exact hrun
        · rwa [run_unprintable hc] at hrun
      obtain ⟨hle, hlt⟩ := ih b.length (by omega) hstep rfl
      rw [List.length_append, List.length_singleton] at hle hlt
      refine ⟨by omega, fun hinf => ?_⟩
      rcases List.infix_cons_iff.mp hinf with hpre | hinf
      · rcases b with _ | ⟨x, b⟩
        · simp at hpre
        · rw [List.cons_prefix_cons, List.cons_prefix_cons] at hpre
          exact absurd ⟨hpre.1.symm, by rw [← hpre.2.1]; rfl⟩ h
      · have := hlt hinf
        omega

/-- **When a dump is decoded as what was dumped**: just if there is memory and no `\x` among the
bytes. -/
theorem dump_decodes_iff (alloc : Bool) (b : List Byte) :
    asciidecode alloc (asciidump b ++ [0]) (asciidump b).length = some (some (b, b.length)) ↔
      alloc = true ∧ ¬ [backslash, letterX] <:+: b := by
  unfold asciidecode
  rcases alloc with _ | _
  · rw [if_pos Bool.false_ne_true]
    exact iff_of_false nofun fun h => Bool.false_ne_true h.1
  rw [if_neg (by decide), decodeLoop_eq (notMem_asciidump b), and_iff_right rfl]
  by_cases hinf : [backslash, letterX] <:+: b
  · refine iff_of_false (fun hdec => ?_) (not_not.mpr hinf)
    rcases hrun : runPieces (scan (asciidump b)) [] with _ | (_ | r)
    · rw [hrun] at hdec
      cases hdec
    · rw [hrun] at hdec
      cases hdec
    · rw [hrun] at hdec
      have hr : r = b := congrArg Prod.fst (Option.some.inj (Option.some.inj hdec))
      have hlen := (run_dump_length hrun).2 hinf
      rw [hr, List.length_nil] at hlen
      omega
  · refine iff_of_true ?_ hinf
    rw [run_dump hinf]
    rfl

/-- Bytes that are not printable come back, and so does a backslash. -/
theorem hidden_bytes_return :
    asciidecode true (asciidump [0, 92, 200] ++ [0]) (asciidump [0, 92, 200]).length =
      some (some ([0, 92, 200], [0, 92, 200].length)) :=
  (dump_decodes_iff true [0, 92, 200]).mpr ⟨rfl, by decide⟩

/-- **The four bytes `\x41`** are printed as they are, and decoded as the one byte 65. -/
theorem escape_like_lost :
    asciidump [backslash, letterX, 52, 49] = [backslash, letterX, 52, 49] ∧
      asciidecode true (asciidump [backslash, letterX, 52, 49] ++ [0])
        (asciidump [backslash, letterX, 52, 49]).length = some (some ([65], 1)) ∧
      asciidecode true (asciidump [backslash, letterX, 52, 49] ++ [0])
        (asciidump [backslash, letterX, 52, 49]).length ≠
          some (some ([backslash, letterX, 52, 49], 4)) := by
  decide

end Dump

end Libkinetic.Toolbox.Ascii
