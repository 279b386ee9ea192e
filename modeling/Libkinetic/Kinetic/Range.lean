import Libkinetic.Base.Windows
import Libkinetic.Kinetic.Types

/-! # Key ranges

`krange_t`, its validation and copies, and `ki_getrange`: the request that goes out and what is made
of the response. The typed-buffer header in front of a range is taken to be valid. -/

namespace Libkinetic.Kinetic

open Libkinetic.Base.Windows

/-! ### The structure -/

/-- `KVR_COUNT_INF` -/
def kvrCountInf : ℤ := -1

/-- `krange_flags_t` -/
def krfIstart : BitVec 32 := 0x0001
def krfIend : BitVec 32 := 0x0002
def krfReverse : BitVec 32 := 0x0100
def krfValidmask : BitVec 32 := 0x0103

/-- `krange_t`: a vector and its count are one list, `none` for a null pointer. -/
structure Krange where
  krFlags : BitVec 32 := 0
  krStart : Option Keyvec := none
  krEnd : Option Keyvec := none
  krCount : ℤ := 0
  krKeys : Option Keyvec := none
deriving DecidableEq

namespace Krange

def krKeyscnt (kr : Krange) : ℕ := (kr.krKeys.getD []).length

/-- `KR_ISTART`, `KR_IEND`, `KR_REVERSE` -/
def istart (kr : Krange) : Bool := kr.krFlags &&& krfIstart != 0#32
def iend (kr : Krange) : Bool := kr.krFlags &&& krfIend != 0#32
def reverse (kr : Krange) : Bool := kr.krFlags &&& krfReverse != 0#32

/-- `KR_FLAG_CLR` -/
def flagClr (kr : Krange) (f : BitVec 32) : Krange := { kr with krFlags := kr.krFlags &&& ~~~f }

/-- The keys of a server that are in the range, in order. -/
def keys (kr : Krange) (ks : List Key) : List Key :=
  ks.filter (between (kr.krStart.map List.flatten) (kr.krEnd.map List.flatten) kr.istart kr.iend)

/-- The keys that an iteration over the range is to give. -/
def listed (kr : Krange) (ks : List Key) : List Key :=
  if kr.krCount = kvrCountInf then kr.keys ks else (kr.keys ks).take kr.krCount.toNat

end Krange

/-! ### Copies -/

/-- `ki_keydup` -/
def kiKeydup : Option Keyvec → Option Keyvec
  | some [] => none
  | key => key

/-- `ki_keydupf`: the copy has one element. -/
def kiKeydupf (key : Keyvec) : Option Keyvec := if key = [] then none else some [key.flatten]

/-- `i_rangeclean`: the vectors are freed, and the structure is zero-filled. -/
def iRangeclean (_ : Krange) : Krange := {}

/-- `ki_rangecpy`, and whether it does not return null. -/
def kiRangecpy (dst src : Krange) : Bool × Krange :=
  let dst := { dst with krStart := kiKeydup src.krStart }
  if src.krStart ≠ none ∧ dst.krStart = none then (false, dst)
  else
    let dst := { dst with krEnd := kiKeydup src.krEnd }
    if src.krEnd ≠ none ∧ dst.krEnd = none then (false, dst)
    else
      let dst := { dst with krKeys := kiKeydup src.krKeys }
      if src.krKeys ≠ none ∧ dst.krKeys = none then (false, dst)
      else (true, { dst with krFlags := src.krFlags, krCount := src.krCount })

/-! ### Validation -/

/-- The total length of a key, added up in an `int` and compared as an unsigned number. -/
def keylen (key : Keyvec) : ℕ := uint32 ((key.map List.length).sum : ℕ)

/-- What is checked of a start or an end key. -/
def keyFits (lim : Klimits) (key : Keyvec) : Bool :=
  decide (keylen key ≠ 0 ∧ keylen key ≤ lim.klKeylen)

/-- `ki_validate_range` does not fail. -/
def kiValidateRange (kr : Krange) (lim : Klimits) : Bool :=
  kr.krStart.all (keyFits lim) && kr.krEnd.all (keyFits lim) &&
    (kr.krFlags &&& ~~~krfValidmask == 0#32) &&
    (kr.krCount == kvrCountInf ||
      decide (kr.krCount ≠ 0 ∧ uint32 kr.krCount ≤ lim.klRangekeycnt))

/-! ### The request and the response -/

/-- The body of a key range command. -/
structure RangeReq where
  startkey : Option Key
  endkey : Option Key
  startkeyinclusive : Bool
  endkeyinclusive : Bool
  reverse : Bool
  maxreturned : ℤ
deriving DecidableEq

/-- `create_rangekey_message` -/
def createRangekeyMessage (kr : Krange) : RangeReq where
  startkey := keynameToProto true kr.krStart
  endkey := keynameToProto true kr.krEnd
  startkeyinclusive := kr.istart
  endkeyinclusive := kr.iend
  reverse := kr.reverse
  maxreturned := kr.krCount

/-- `extract_keyrange` -/
def extractKeyrange (m : RespMsg (List Key)) (kr : Krange) : KStatus × Krange :=
  match m with
  | .nocmd => (.kEinternal, kr)
  | .badcmd => (.kEinternal, kr)
  | .cmd c =>
    if extractCmdstatusCode c ≠ .kOk then (extractCmdstatusCode c, kr)
    else
      match c.body with
      | none => (.kEinternal, kr)
      | some keys => (.kOk, { kr with krKeys := some keys })

/-- What is made of the kio that comes back. -/
def rangeResult (resp : Resp (List Key)) (kr : Krange) : KStatus × Krange :=
  match resp with
  | .lost => (.kEinternal, kr)
  | .timedout => (.kEtimedout, kr)
  | .failed => (.kEnomsg, kr)
  | .badpdu => (.kEinternal, kr)
  | .badmsg => (.kEinternal, kr)
  | .msg m => extractKeyrange m kr

/-- If the count is set to infinity, fix it. -/
def fixCount (lim : Klimits) (kr : Krange) : Krange :=
  if kr.krCount = kvrCountInf then { kr with krCount := int32 lim.klRangekeycnt } else kr

/-- **`ki_getrange`**; `answer` is what becomes of the kio of a request. -/
def kiGetrange (answer : RangeReq → Resp (List Key)) (lim : Klimits) (kr : Krange) :
    KStatus × Krange :=
  if ¬ kiValidateRange kr lim then (.kEinval, kr)
  else rangeResult (answer (createRangekeyMessage (fixCount lim kr))) (fixCount lim kr)

/-! ### What a successful request leaves -/

/-- The response lists these keys. -/
def Lists (resp : Resp (List Key)) (keys : List Key) : Prop :=
  resp = .msg (.cmd ⟨some .kOk, some keys⟩)

section GetRange
variable {answer : RangeReq → Resp (List Key)} {lim : Klimits} {resp : Resp (List Key)}
  {kr kr' : Krange} {keys : List Key} {krc : KStatus}

theorem rangeResult_ok (h : rangeResult resp kr = (.kOk, kr')) :
    ∃ keys, Lists resp keys ∧ kr' = { kr with krKeys := some keys } := by
  cases resp with
  | lost | timedout | failed | badpdu | badmsg => cases h
  | msg m =>
    cases m with
    | nocmd | badcmd => cases h
    | cmd c =>
      simp only [rangeResult, extractKeyrange] at h
      split_ifs at h with hst
      · exact absurd (congrArg Prod.fst h) hst
      · have hok := not_not.mp hst
        obtain ⟨status, body⟩ := c
        cases status with
        | none => cases hok
        | some st =>
          obtain rfl : st = .kOk := hok
          cases body with
          | none => cases h
          | some keys =>
            obtain ⟨-, rfl⟩ := Prod.mk.inj h
            exact ⟨keys, rfl, rfl⟩

theorem rangeResult_lists (h : Lists resp keys) :
    rangeResult resp kr = (.kOk, { kr with krKeys := some keys }) := by
  rw [h]
  rfl

/-- **A window that is filled** has the keys of the response, and is otherwise as it was asked
for. -/
theorem kiGetrange_ok (h : kiGetrange answer lim kr = (.kOk, kr')) :
    kiValidateRange kr lim = true ∧
      ∃ keys, Lists (answer (createRangekeyMessage (fixCount lim kr))) keys ∧
        kr' = { fixCount lim kr with krKeys := some keys } := by
  unfold kiGetrange at h
  by_cases hv : kiValidateRange kr lim = true
  · rw [if_neg (not_not.mpr hv)] at h
    exact ⟨hv, rangeResult_ok h⟩
  · rw [if_pos hv] at h
    cases h

theorem kiGetrange_lists (hv : kiValidateRange kr lim = true)
    (h : Lists (answer (createRangekeyMessage (fixCount lim kr))) keys) :
    kiGetrange answer lim kr = (.kOk, { fixCount lim kr with krKeys := some keys }) := by
  unfold kiGetrange
  rw [if_neg (not_not.mpr hv), rangeResult_lists h]

theorem fixCount_of_ne (h : kr.krCount ≠ kvrCountInf) : fixCount lim kr = kr := if_neg h

end GetRange

end Libkinetic.Kinetic
