import Libkinetic.Base.Stairs
import Libkinetic.Kinetic.Iteration

/-! # Iterating in reverse

The iterator was not made for a reverse range, but it does not refuse one. The server lists a
reverse range from its end. `ki_next` puts the last key of a window, the smallest one, in the place
of the start key, so that the next window begins at the end of the range again and stops one key
earlier: the highest keys of the range are given in stairs, those that one window can have first,
and the keys below them never (`reverse_iteration`). -/

namespace Libkinetic.Kinetic

open Libkinetic.Base.Windows Libkinetic.Base.Stairs

/-! ### The server and the range -/

/-- The response has as many of the keys as the request allows, or a status that says that there is
none. -/
def AnswersAll (sel : List Key) (req : RangeReq) (resp : Resp (List Key)) : Prop :=
  if sel = [] then ∃ status body, status ≠ .kOk ∧ resp = .msg (.cmd ⟨some status, body⟩)
  else Lists resp (sel.take req.maxreturned.toNat)

/-- The keys that a request asks for, in the order that it asks for. -/
def RangeReq.asked (req : RangeReq) (keys : List Key) : List Key :=
  if req.reverse then (keys.filter req.selects).reverse else keys.filter req.selects

/-- The server never lists fewer keys than it may. -/
def RangeServer.Full {lim : Klimits} (srv : RangeServer lim) : Prop :=
  ∀ n req, 0 < req.maxreturned → AnswersAll (req.asked srv.keys) req (srv.answer n req)

/-- A reverse range that the limits allow. -/
structure ReverseRange (lim : Klimits) (kr : Krange) : Prop where
  startKey : ∀ key ∈ kr.krStart, keyFits lim key = true
  endKey : ∀ key ∈ kr.krEnd, keyFits lim key = true
  flags : kr.krFlags &&& ~~~krfValidmask = 0#32
  reverse : kr.reverse = true
  count : kr.krCount = kvrCountInf ∨ 0 < kr.krCount ∧ kr.krCount < 2 ^ 31
  keys : kr.krKeys ≠ some []

/-- The count, if there is one. -/
def Krange.limit (kr : Krange) : Option ℕ :=
  if kr.krCount = kvrCountInf then none else some kr.krCount.toNat

/-- The keys of a server that are in the range, from the end. -/
def Krange.down (kr : Krange) (ks : List Key) : List Key := (kr.keys ks).reverse

/-- As many keys as a window can have. -/
def Krange.top (kr : Krange) (lim : Klimits) (ks : List Key) : ℕ :=
  min lim.klRangekeycnt (kr.down ks).length

/-- **What a reverse iteration gives.** -/
def Krange.repeated (kr : Krange) (lim : Klimits) (ks : List Key) : List Key :=
  match kr.limit with
  | none => stairs (kr.down ks) (kr.top lim ks)
  | some count => (stairs (kr.down ks) (kr.top lim ks)).take count

/-! ### Flags and counts -/

section Basic
variable {lim : Klimits} {kr w : Krange} {ks : List Key} {n : ℕ}

theorem repeated_getElem? : (kr.repeated lim ks)[n]? =
    if kr.krCount = kvrCountInf ∨ (n : ℤ) < kr.krCount then
      (stairs (kr.down ks) (kr.top lim ks))[n]? else none := by
  unfold Krange.repeated Krange.limit
  by_cases hinf : kr.krCount = kvrCountInf
  · rw [if_pos hinf, if_pos (Or.inl hinf)]
  · rw [if_neg hinf]
    dsimp only
    rw [List.getElem?_take]
    by_cases hn : (n : ℤ) < kr.krCount
    · rw [if_pos (by omega), if_pos (Or.inr hn)]
    · rw [if_neg (by omega), if_neg (not_or.mpr ⟨hinf, hn⟩)]

/-- **How much is given** of a reverse range without a count: with `m` keys in the first window,
`m * (m + 1) / 2` keys, and none but these `m`. -/
theorem repeated_unlimited (hinf : kr.krCount = kvrCountInf) :
    2 * (kr.repeated lim ks).length = kr.top lim ks * (kr.top lim ks + 1) ∧
      kr.repeated lim ks ⊆ (kr.down ks).take lim.klRangekeycnt := by
  have hrep : kr.repeated lim ks = stairs (kr.down ks) (kr.top lim ks) := by
    unfold Krange.repeated Krange.limit
    rw [if_pos hinf]
  rw [hrep]
  refine ⟨length_stairs (Nat.min_le_right _ _), fun x hx => ?_⟩
  exact List.take_subset_take_left _ (Nat.min_le_left _ _) (stairs_subset _ _ hx)

theorem reverse_flagClr : (kr.flagClr krfIstart).reverse = kr.reverse := by
  have : kr.krFlags &&& ~~~krfIstart &&& krfReverse = kr.krFlags &&& krfReverse := by
    rw [BitVec.and_assoc, show ~~~krfIstart &&& krfReverse = krfReverse by decide]
  simp [Krange.reverse, Krange.flagClr, this]

theorem flagClr_valid (h : kr.krFlags &&& ~~~krfValidmask = 0#32) (f : BitVec 32) :
    (kr.flagClr f).krFlags &&& ~~~krfValidmask = 0#32 := by
  unfold Krange.flagClr
  rw [BitVec.and_assoc, BitVec.and_comm (~~~f), ← BitVec.and_assoc, h, BitVec.zero_and]

/-- What `ki_validate_range` asks of a window. -/
theorem kiValidateRange_valid (hs : ∀ key ∈ kr.krStart, keyFits lim key = true)
    (he : ∀ key ∈ kr.krEnd, keyFits lim key = true)
    (hf : kr.krFlags &&& ~~~krfValidmask = 0#32) (h0 : 0 < kr.krCount)
    (hc : kr.krCount ≤ lim.klRangekeycnt) (hlim : lim.klRangekeycnt < 2 ^ 31) :
    kiValidateRange kr lim = true := by
  have hstart : kr.krStart.all (keyFits lim) = true := by
    rw [Option.all_eq_true]
    exact hs
  have hend : kr.krEnd.all (keyFits lim) = true := by
    rw [Option.all_eq_true]
    exact he
  have hflags : (kr.krFlags &&& ~~~krfValidmask == 0#32) = true := beq_iff_eq.mpr hf
  have hcount : uint32 kr.krCount ≤ lim.klRangekeycnt := by
    unfold uint32
    omega
  have hne : kr.krCount ≠ 0 := by omega
  rw [kiValidateRange, hstart, hend, hflags]
  simp [hcount, hne]

/-- **A window is filled** with as many of the keys it asks for as it may have. -/
theorem RangeServer.Full.fill {srv : RangeServer lim} (hfull : srv.Full) (n : ℕ) {sel : List Key}
    (hv : kiValidateRange w lim = true) (h0 : 0 < w.krCount)
    (hsel : (createRangekeyMessage w).asked srv.keys = sel) :
    (sel = [] ∧ (kiGetrange (srv.answer n) lim w).1 ≠ .kOk) ∨
      (sel ≠ [] ∧ kiGetrange (srv.answer n) lim w =
        (.kOk, { w with krKeys := some (sel.take w.krCount.toNat) })) := by
  have hfix : fixCount lim w = w := by
    refine fixCount_of_ne ?_
    unfold kvrCountInf
    omega
  have hans := hfull n (createRangekeyMessage w) h0
  unfold AnswersAll at hans
  rw [hsel] at hans
  split_ifs at hans with hempty
  · left
    obtain ⟨status, body, hst, hresp⟩ := hans
    unfold kiGetrange
    rw [if_neg (not_not.mpr hv), hfix, hresp]
    have hcode : extractCmdstatusCode (⟨some status, body⟩ : RespCmd (List Key)) ≠ .kOk := hst
    simp only [rangeResult, extractKeyrange]
    rw [if_pos hcode]
    exact ⟨hempty, hcode⟩
  · right
    have := kiGetrange_lists hv (by rw [hfix]; exact hans)
    rw [hfix] at this
    exact ⟨hempty, this⟩

end Basic

/-! ### The invariant -/

/-- **Between two calls**: element `n` of the stairs was returned last. -/
structure Repeating {lim : Klimits} (srv : RangeServer lim) (kr : Krange) (n : ℕ) (kit : Kiter) :
    Prop where
  rreq : kit.kiRreq.krCount = kr.krCount
  maxkeyreq : kit.kiMaxkeyreq = lim.klRangekeycnt
  seen : kr.krCount ≠ kvrCountInf → kit.kiSeenkeys = n + 1
  winEnd : kit.kiRwin1.krEnd = kr.krEnd
  winIend : kit.kiRwin1.iend = kr.iend
  winFlags : kit.kiRwin1.krFlags &&& ~~~krfValidmask = 0#32
  winReverse : kit.kiRwin1.reverse = true
  window : ∃ w q, kit.kiRwin1.krKeys = some w ∧ q ≤ lim.klRangekeycnt ∧
    Stair (kr.down srv.keys) (kr.top lim srv.keys) kr.limit w kit.kiCurkey n q

/-- What a call returned: the key of its number, or null if there is none. -/
structure Gives {lim : Klimits} (srv : RangeServer lim) (kr : Krange) (n : ℕ)
    (r : Kiter × Option ℕ) : Prop where
  ret : r.2.map r.1.keyAt = ((kr.repeated lim srv.keys)[n]?).map some
  repeating : r.2 ≠ none → Repeating srv kr n r.1

section Repeating
variable {lim : Klimits} {srv : RangeServer lim} {kr : Krange} {kit : Kiter} {n : ℕ}

theorem Repeating.gives (h : Repeating srv kr n kit)
    (hn : kr.krCount = kvrCountInf ∨ (n : ℤ) < kr.krCount) :
    Gives srv kr n (kit, some kit.kiCurkey) := by
  refine ⟨?_, fun _ => h⟩
  obtain ⟨w, q, hw, -, hstair⟩ := h.window
  rw [repeated_getElem?, if_pos hn, hstair.getElem?, List.getElem?_eq_getElem hstair.lt]
  simp [Kiter.keyAt, hw, hstair.lt]

theorem gives_none (h : (kr.repeated lim srv.keys)[n]? = none) : Gives srv kr n (kit, none) :=
  ⟨by rw [h]; rfl, fun hne => absurd rfl hne⟩

/-- What is asked for is all of the step, or ends with the count. -/
theorem window_cut {l : List Key} {q : ℕ} (hq : q ≤ l.length) (hlim : q ≤ lim.klRangekeycnt)
    (hlim' : lim.klRangekeycnt < 2 ^ 31) {left c : ℤ} (hleft : kr.krCount = kvrCountInf ∨ 0 < left)
    (hc : c = if kr.krCount = kvrCountInf ∨ lim.klRangekeycnt < uint32 left then
      int32 lim.klRangekeycnt else left) :
    (l.take q).take c.toNat = l.take q ∨
      (kr.krCount ≠ kvrCountInf ∧ (((l.take q).take c.toNat).length : ℤ) = left) := by
  have hlen : (l.take q).length = q := by rw [List.length_take, Nat.min_eq_left hq]
  rw [int32_of_lt hlim'] at hc
  by_cases hall : q ≤ c.toNat
  · exact Or.inl (List.take_of_length_le (by omega))
  · right
    have hif : ¬ (kr.krCount = kvrCountInf ∨ lim.klRangekeycnt < uint32 left) := by
      intro hif
      rw [if_pos hif] at hc
      omega
    rw [if_neg hif] at hc
    have hpos := hleft.resolve_left (not_or.mp hif).1
    refine ⟨(not_or.mp hif).1, ?_⟩
    rw [List.length_take, hlen]
    omega

/-! ### The calls -/

theorem startWindow_of (h0 : kr.krCount ≠ 0) (hs : kr.krStart ≠ some []) (he : kr.krEnd ≠ some [])
    (hk : kr.krKeys ≠ some []) : startWindow kit kr = (true, { kit with
      kiRreq := kr
      kiRwin1 := { kr with
        krCount := if kr.krCount = kvrCountInf ∨ kit.kiMaxkeyreq < uint32 kr.krCount then
          int32 kit.kiMaxkeyreq else kr.krCount } }) := by
  have hcpy : ∀ dst, kiRangecpy dst kr = (true, kr) := fun dst => kiRangecpy_eq hs he hk
  unfold startWindow
  rw [if_neg h0]
  simp only [hcpy, not_true_eq_false, if_false]
  split_ifs <;> rfl

/-- **The first call.** -/
theorem start_gives (hfull : srv.Full) (hr : ReverseRange lim kr)
    (hm : kit.kiMaxkeyreq = lim.klRangekeycnt) (hlim : 0 < lim.klRangekeycnt)
    (hlim' : lim.klRangekeycnt < 2 ^ 31) : Gives srv kr 0 (kiStart (srv.answer 0) lim kit kr) := by
  obtain ⟨c, hc⟩ : ∃ c, c = if kr.krCount = kvrCountInf ∨ kit.kiMaxkeyreq < uint32 kr.krCount then
    int32 kit.kiMaxkeyreq else kr.krCount := ⟨_, rfl⟩
  have hcount := hr.count
  have hstart : startWindow kit kr = _ := startWindow_of (by unfold kvrCountInf at hcount; omega)
    (fun hs => keyFits_ne (hr.startKey [] hs) rfl) (fun he => keyFits_ne (hr.endKey [] he) rfl)
    hr.keys
  rw [← hc] at hstart
  rw [hm] at hc
  obtain ⟨h0, hle⟩ := askCount hlim hlim' hcount hc
  have hv : kiValidateRange { kr with krCount := c } lim = true :=
    kiValidateRange_valid hr.startKey hr.endKey hr.flags h0 hle hlim'
  have hasked : (createRangekeyMessage { kr with krCount := c }).asked srv.keys =
      kr.down srv.keys := by
    have hsel : srv.keys.filter (createRangekeyMessage { kr with krCount := c }).selects =
        kr.keys srv.keys := selects_range srv.keys rfl rfl rfl
    unfold RangeReq.asked
    rw [hsel]
    exact if_pos hr.reverse
  unfold kiStart
  rw [hstart]
  simp only [not_true_eq_false, if_false]
  rcases hfull.fill 0 hv h0 hasked with ⟨hempty, hkrc⟩ | ⟨hne, hg⟩
  · rw [if_pos (Or.inl hkrc)]
    refine gives_none ?_
    have hstairs : stairs (kr.down srv.keys) (kr.top lim srv.keys) = [] := by
      rw [Krange.top, hempty, List.length_nil, Nat.min_zero]
      rfl
    rw [repeated_getElem?, hstairs, List.getElem?_nil, ite_self]
  · rw [hg, if_neg (not_failed h0)]
    have htop : kr.top lim srv.keys ≤ (kr.down srv.keys).length := Nat.min_le_right _ _
    have htop' : kr.top lim srv.keys ≤ lim.klRangekeycnt := Nat.min_le_left _ _
    have hwin : (kr.down srv.keys).take c.toNat =
        ((kr.down srv.keys).take (kr.top lim srv.keys)).take c.toNat := by
      rw [List.take_take, Krange.top, List.take_eq_take_iff]
      omega
    have hrep : Repeating srv kr 0 { kit with
        kiRreq := kr
        kiRwin1 := { kr with krCount := c, krKeys := some ((kr.down srv.keys).take c.toNat) }
        kiCurkey := 0
        kiSeenkeys := 1 } := by
      refine ⟨rfl, hm, fun _ => rfl, rfl, rfl, hr.flags, hr.reverse, _, _, rfl, htop',
        .first htop ?_ ?_ ?_⟩
      · rw [hwin]
        exact List.take_prefix _ _
      · intro hnil
        rcases List.take_eq_nil_iff.mp hnil with h | h
        · omega
        · exact hne h
      · rw [hwin]
        rcases window_cut htop htop' hlim' (hcount.imp_right And.left) hc with hall | ⟨hinf, hlen⟩
        · exact Or.inl hall
        · right
          rw [Krange.limit, if_neg hinf, Option.some.injEq]
          omega
    exact hrep.gives (hcount.imp_right fun h => h.1)

theorem Repeating.nextKey_eq (h : Repeating srv kr n kit) (hlim' : lim.klRangekeycnt < 2 ^ 31) :
    nextKey kit = kit.kiCurkey + 1 := by
  obtain ⟨w, q, -, hq, hstair⟩ := h.window
  have hlt := hstair.lt
  have hlen := hstair.length_le
  unfold nextKey
  omega

/-- The number of keys seen after one more. -/
theorem Repeating.seen_next (h : Repeating srv kr n kit) (hr : ReverseRange lim kr)
    (hn : kr.krCount = kvrCountInf ∨ ((n + 1 : ℕ) : ℤ) < kr.krCount)
    (hinf : kr.krCount ≠ kvrCountInf) :
    int32 (kit.kiSeenkeys + 1) = ((n + 1 : ℕ) : ℤ) + 1 := by
  have hseen := h.seen hinf
  have h1 := hn.resolve_left hinf
  have h2 := hr.count.resolve_left hinf
  have hint : int32 ((n + 1 + 1 : ℕ) : ℤ) = ((n + 1 + 1 : ℕ) : ℤ) := int32_of_lt (by omega)
  rw [hseen]
  push_cast at hint ⊢
  exact hint

/-- The count does not end with the key that was returned last. -/
theorem limit_ne (hn : kr.krCount = kvrCountInf ∨ ((n + 1 : ℕ) : ℤ) < kr.krCount) :
    kr.limit ≠ some (n + 1) := by
  unfold Krange.limit
  split_ifs with hinf
  · intro h
    cases h
  · intro h
    have h1 := hn.resolve_left hinf
    have h2 := Option.some.inj h
    omega

/-- The next call inside the window. -/
theorem Repeating.inside (h : Repeating srv kr n kit) (hr : ReverseRange lim kr)
    (hlim' : lim.klRangekeycnt < 2 ^ 31)
    (hn : kr.krCount = kvrCountInf ∨ ((n + 1 : ℕ) : ℤ) < kr.krCount)
    (hin : nextKey kit < kit.kiRwin1.krKeyscnt) :
    Gives srv kr (n + 1) ({ kit with
      kiCurkey := nextKey kit, kiSeenkeys := int32 (kit.kiSeenkeys + 1) }, some (nextKey kit)) := by
  have hnext := h.nextKey_eq hlim'
  obtain ⟨w, q, hw, hq, hstair⟩ := h.window
  have hcnt : kit.kiRwin1.krKeyscnt = w.length := by
    rw [Krange.krKeyscnt, hw, Option.getD_some]
  have hrep : Repeating srv kr (n + 1) { kit with
      kiCurkey := nextKey kit, kiSeenkeys := int32 (kit.kiSeenkeys + 1) } := by
    refine ⟨h.rreq, h.maxkeyreq, h.seen_next hr hn, h.winEnd, h.winIend, h.winFlags, h.winReverse,
      w, q, hw, hq, ?_⟩
    dsimp only
    rw [hnext] at hin ⊢
    exact hstair.next (by omega)
  exact hrep.gives hn

/-- The window for the next request, behind the last key of the one that is used up. -/
theorem nextWindow_of (hrreq : kit.kiRreq.krCount = kr.krCount)
    (hmax : kit.kiMaxkeyreq = lim.klRangekeycnt) {last : Key}
    (hlast : (kit.kiRwin1.krKeys.getD []).getLast? = some last) :
    nextWindow kit = some { kit.kiRwin1.flagClr krfIstart with
      krStart := some [last]
      krKeys := none
      krCount := if kr.krCount = kvrCountInf ∨
          lim.klRangekeycnt < uint32 (kr.krCount - kit.kiSeenkeys) then int32 lim.klRangekeycnt
        else int32 (uint32 (kr.krCount - kit.kiSeenkeys)) } := by
  have hdup : kiKeydupf [last] = some [last] := by
    simp [kiKeydupf]
  unfold nextWindow
  rw [hlast, hrreq, hmax]
  simp only [Option.map_some, hdup, Option.some.injEq]
  split_ifs <;> rfl

/-- The window that `ki_next` asks for begins at the end of the range again. -/
structure AsksAgain {lim : Klimits} (srv : RangeServer lim) (kr : Krange) (left : ℤ) (q : ℕ)
    (win : Krange) : Prop where
  count : win.krCount = if kr.krCount = kvrCountInf ∨ lim.klRangekeycnt < uint32 left then
    int32 lim.klRangekeycnt else left
  pos : 0 < win.krCount
  valid : kiValidateRange win lim = true
  flags : win.krFlags &&& ~~~krfValidmask = 0#32
  reverse : win.reverse = true
  winEnd : win.krEnd = kr.krEnd
  winIend : win.iend = kr.iend
  asked : (createRangekeyMessage win).asked srv.keys = (kr.down srv.keys).take q

/-- What is left of the count, as `ki_next` computes it. -/
theorem Repeating.left (h : Repeating srv kr n kit) (hr : ReverseRange lim kr)
    (hn : kr.krCount = kvrCountInf ∨ ((n + 1 : ℕ) : ℤ) < kr.krCount) :
    kr.krCount = kvrCountInf ∨
      0 < kr.krCount - kit.kiSeenkeys ∧ kr.krCount - kit.kiSeenkeys < 2 ^ 31 := by
  by_cases hinf : kr.krCount = kvrCountInf
  · exact Or.inl hinf
  · right
    have h1 := h.seen hinf
    have h2 := hn.resolve_left hinf
    have h3 := hr.count.resolve_left hinf
    omega

/-- **The request for the next window**: the last key of a window is the smallest one, and what is
above it was given before. -/
theorem Repeating.asks (h : Repeating srv kr n kit) (hr : ReverseRange lim kr)
    (hlim : 0 < lim.klRangekeycnt) (hlim' : lim.klRangekeycnt < 2 ^ 31)
    (hn : kr.krCount = kvrCountInf ∨ ((n + 1 : ℕ) : ℤ) < kr.krCount) {w : List Key} {q : ℕ}
    (hw : kit.kiRwin1.krKeys = some w)
    (hstair : Stair (kr.down srv.keys) (kr.top lim srv.keys) kr.limit w kit.kiCurkey n q)
    (hend : w.length ≤ kit.kiCurkey + 1) :
    ∃ win, nextWindow kit = some win ∧
      AsksAgain srv kr (kr.krCount - kit.kiSeenkeys) (q - 1) win := by
  obtain ⟨hq, hwq, -⟩ := hstair.below hend (limit_ne hn)
  have hle := hstair.le
  have hin : q - 1 < (kr.down srv.keys).length := by omega
  obtain ⟨last, hlast⟩ : ∃ last, (kr.down srv.keys)[q - 1]? = some last :=
    ⟨_, List.getElem?_eq_getElem hin⟩
  have hgetLast : (kit.kiRwin1.krKeys.getD []).getLast? = some last := by
    rw [hw, Option.getD_some, hwq, List.getLast?_take, if_neg (by omega), hlast, Option.some_or]
  have hmem : last ∈ kr.keys srv.keys := List.mem_reverse.mp (List.mem_of_getElem? hlast)
  have hleft := h.left hr hn
  obtain ⟨c, hc⟩ : ∃ c, c = if kr.krCount = kvrCountInf ∨
      lim.klRangekeycnt < uint32 (kr.krCount - kit.kiSeenkeys) then int32 lim.klRangekeycnt
      else kr.krCount - kit.kiSeenkeys := ⟨_, rfl⟩
  obtain ⟨h0, hclim⟩ := askCount hlim hlim' hleft hc
  have hcw : (if kr.krCount = kvrCountInf ∨ lim.klRangekeycnt <
      uint32 (kr.krCount - kit.kiSeenkeys) then int32 lim.klRangekeycnt
      else int32 (uint32 (kr.krCount - kit.kiSeenkeys))) = c := by
    rw [hc]
    split_ifs with hif
    · rfl
    · obtain ⟨hpos, hlt⟩ := hleft.resolve_left (not_or.mp hif).1
      unfold uint32
      rw [int32_of_lt (by omega)]
      omega
  have hstart : keyFits lim [last] = true := srv.keyFits_of_mem (List.mem_of_mem_filter hmem)
  have hendKey : ∀ key ∈ kit.kiRwin1.krEnd, keyFits lim key = true := by
    intro key hkey
    exact hr.endKey key (h.winEnd ▸ hkey)
  have hflags := flagClr_valid h.winFlags krfIstart
  have hrev : (kit.kiRwin1.flagClr krfIstart).reverse = true := reverse_flagClr.trans h.winReverse
  have hiend : (kit.kiRwin1.flagClr krfIstart).iend = kr.iend := iend_flagClr.trans h.winIend
  obtain ⟨win, hwin⟩ : ∃ win : Krange, win = { kit.kiRwin1.flagClr krfIstart with
      krStart := some [last]
      krKeys := none
      krCount := c } := ⟨_, rfl⟩
  have hnext : nextWindow kit = some win := by
    rw [nextWindow_of h.rreq h.maxkeyreq hgetLast, hcw, hwin]
  have hselects : srv.keys.filter (createRangekeyMessage win).selects =
      above last (kr.keys srv.keys) := by
    rw [hwin]
    exact selects_behind srv.keys hmem rfl istart_flagClr h.winEnd hiend
  have hwinRev : win.reverse = true := by
    rw [hwin]
    exact hrev
  refine ⟨win, hnext, ?_, ?_, ?_, ?_, hwinRev, ?_, ?_, ?_⟩
  · rw [hwin]
    exact hc
  · rw [hwin]
    exact h0
  · rw [hwin]
    refine kiValidateRange_valid ?_ hendKey hflags h0 hclim hlim'
    rintro key ⟨⟩
    exact hstart
  · rw [hwin]
    exact hflags
  · rw [hwin]
    exact h.winEnd
  · rw [hwin]
    exact hiend
  · unfold RangeReq.asked
    rw [hselects]
    exact (if_pos hwinRev).trans (above_reverse keys_sorted hlast)

/-- The next call at the end of the window. -/
theorem Repeating.atEnd (h : Repeating srv kr n kit) (hfull : srv.Full) (hr : ReverseRange lim kr)
    (hlim : 0 < lim.klRangekeycnt) (hlim' : lim.klRangekeycnt < 2 ^ 31)
    (hn : kr.krCount = kvrCountInf ∨ ((n + 1 : ℕ) : ℤ) < kr.krCount)
    (hex : exhausted kit = false) (hin : kit.kiRwin1.krKeyscnt ≤ nextKey kit) :
    ∃ r, kiNext (srv.answer (n + 1)) lim kit = some r ∧ Gives srv kr (n + 1) r := by
  have hnext := h.nextKey_eq hlim'
  obtain ⟨w, q, hw, hq, hstair⟩ := h.window
  have hend : w.length ≤ kit.kiCurkey + 1 := by
    rw [Krange.krKeyscnt, hw, Option.getD_some, hnext] at hin
    exact hin
  obtain ⟨win, hnw, ha⟩ := h.asks hr hlim hlim' hn hw hstair hend
  obtain ⟨hqi, -, hbelow⟩ := hstair.below hend (limit_ne hn)
  have hle := hstair.le
  have hleft := h.left hr hn
  unfold kiNext
  simp only [hex, hin, hnw, Bool.false_eq_true, if_false, if_true, Option.map_some]
  refine ⟨_, rfl, ?_⟩
  rcases hfull.fill (n + 1) ha.valid ha.pos ha.asked with ⟨hempty, hkrc⟩ | ⟨hne, hg⟩
  · rw [if_pos (Or.inl hkrc)]
    refine gives_none ?_
    have hq1 : q - 1 = 0 := by
      rcases List.take_eq_nil_iff.mp hempty with h | h
      · exact h
      · rw [h, List.length_nil] at hle
        omega
    have hnone : (stairs (kr.down srv.keys) (kr.top lim srv.keys))[n + 1]? = none := by
      refine List.getElem?_eq_none (List.drop_eq_nil_iff.mp ?_)
      rw [hbelow, hq1]
      rfl
    rw [repeated_getElem?, hnone, ite_self]
  · rw [hg, if_neg (not_failed ha.pos)]
    have hrep : Repeating srv kr (n + 1) { kit with
        kiRwin1 := { win with
          krKeys := some (((kr.down srv.keys).take (q - 1)).take win.krCount.toNat) }
        kiCurkey := 0
        kiSeenkeys := int32 (kit.kiSeenkeys + 1) } := by
      refine ⟨h.rreq, h.maxkeyreq, h.seen_next hr hn, ha.winEnd, ha.winIend, ha.flags, ha.reverse,
        _, q - 1, rfl, by omega, hstair.refill hend (limit_ne hn) (List.take_prefix _ _) ?_ ?_⟩
      · intro hnil
        have hpos := ha.pos
        rcases List.take_eq_nil_iff.mp hnil with h | h
        · omega
        · exact hne h
      · rcases window_cut (l := kr.down srv.keys) (q := q - 1) (by omega) (by omega) hlim'
          (hleft.imp_right And.left) ha.count with hall | ⟨hinf, hlen⟩
        · exact Or.inl hall
        · right
          have hseen := h.seen hinf
          rw [Krange.limit, if_neg hinf, Option.some.injEq]
          omega
    exact hrep.gives hn

/-- An iteration that goes on has not given as many keys as the count says. -/
theorem Repeating.more (h : Repeating srv kr n kit) (hex : exhausted kit = false) :
    kr.krCount = kvrCountInf ∨ ((n + 1 : ℕ) : ℤ) < kr.krCount := by
  by_cases hinf : kr.krCount = kvrCountInf
  · exact Or.inl hinf
  · right
    have := of_decide_eq_false hex
    rw [h.rreq, h.seen hinf, not_and, not_le] at this
    exact_mod_cast this hinf

/-- **The next call.** -/
theorem Repeating.next_gives (h : Repeating srv kr n kit) (hfull : srv.Full)
    (hr : ReverseRange lim kr) (hlim : 0 < lim.klRangekeycnt)
    (hlim' : lim.klRangekeycnt < 2 ^ 31) :
    ∃ r, kiNext (srv.answer (n + 1)) lim kit = some r ∧ Gives srv kr (n + 1) r := by
  cases hex : exhausted kit with
  | true =>
    obtain ⟨hinf, hle⟩ := of_decide_eq_true hex
    rw [h.rreq] at hinf hle
    rw [h.seen hinf] at hle
    refine ⟨(kit, none), by simp [kiNext, hex], gives_none ?_⟩
    rw [repeated_getElem?, if_neg]
    rintro (h1 | h1)
    · exact hinf h1
    · push_cast at h1
      omega
  | false =>
    have hn := h.more hex
    by_cases hin : kit.kiRwin1.krKeyscnt ≤ nextKey kit
    · exact h.atEnd hfull hr hlim hlim' hn hex hin
    · refine ⟨_, ?_, h.inside hr hlim' hn (not_le.mp hin)⟩
      simp [kiNext, hex, hin]

/-- **A reverse iteration gives the stairs**, whatever the iterator was used for before: the
highest keys of the range, as many as a window can have, then all of these but the last, and so on,
up to the range's count. -/
theorem reverse_iteration (srv : RangeServer lim) (hfull : srv.Full) (kit : Kiter) (kr : Krange)
    (hm : kit.kiMaxkeyreq = lim.klRangekeycnt) (hlim : 1 ≤ lim.klRangekeycnt)
    (hlim' : lim.klRangekeycnt < 2 ^ 31) (hr : ReverseRange lim kr) (n : ℕ)
    (hn : n ≤ (kr.repeated lim srv.keys).length) :
    ∃ kit' ret, iterCall srv kit kr n = some (kit', ret) ∧
      ret.map kit'.keyAt = ((kr.repeated lim srv.keys)[n]?).map some := by
  suffices h : ∃ r, iterCall srv kit kr n = some r ∧ Gives srv kr n r by
    obtain ⟨⟨kit', ret⟩, hcall, hgives⟩ := h
    exact ⟨kit', ret, hcall, hgives.ret⟩
  induction n with
  | zero => exact ⟨_, rfl, start_gives hfull hr hm hlim hlim'⟩
  | succ n ih =>
    obtain ⟨⟨kit', ret⟩, hcall, hgives⟩ := ih (by omega)
    have hne : ret ≠ none := by
      rintro rfl
      have := hgives.ret
      rw [List.getElem?_eq_getElem (by omega)] at this
      cases this
    obtain ⟨r, hnext, hr'⟩ := (hgives.repeating hne).next_gives hfull hr hlim hlim'
    refine ⟨r, ?_, hr'⟩
    rw [iterCall, hcall]
    exact hnext

end Repeating

/-! ### A server that lists all that is asked for -/

def allOf (keys : List Key) (_ : ℕ) (req : RangeReq) : Resp (List Key) :=
  if req.asked keys = [] then notFound req
  else lists ((req.asked keys).take req.maxreturned.toNat) req

theorem allOf_answers (keys : List Key) (n : ℕ) (req : RangeReq) :
    AnswersAll (req.asked keys) req (allOf keys n req) := by
  unfold AnswersAll allOf
  split_ifs
  · exact ⟨.kEnotfound, none, by decide, rfl⟩
  · rfl

/-- A window has two keys. -/
def twoKeyLimits : Klimits := { smallLimits with klRangekeycnt := 2 }

/-- The keys `[1]`, `[2]` and `[3]`. -/
def wholeServer : RangeServer twoKeyLimits where
  keys := [[1], [2], [3]]
  sorted := by decide
  nonempty := by decide
  fits := by decide
  keylen_lt := by decide
  answer := allOf [[1], [2], [3]]
  answers n req hfwd h0 := by
    have hans := allOf_answers [[1], [2], [3]] n req
    have hasked : req.asked [[1], [2], [3]] = [[1], [2], [3]].filter req.selects :=
      if_neg (by rw [hfwd]; decide)
    unfold AnswersAll at hans
    unfold Answers
    rw [hasked] at hans
    split_ifs at hans ⊢ with hempty
    · exact hans
    · refine ⟨_, ?_, List.take_prefix _ _, ?_, hans⟩
      · intro h
        rcases List.take_eq_nil_iff.mp h with h | h
        · omega
        · exact hempty h
      · rw [List.length_take]
        omega

theorem wholeServer_full : wholeServer.Full := fun n req _ => allOf_answers _ n req

/-- All keys, from the end. -/
def allDown : Krange := { krFlags := krfReverse, krCount := kvrCountInf }

/-- **`[3]` comes twice**, and `[1]` never. -/
theorem wholeServer_repeats : ∃ kit' ret,
    iterCall wholeServer { kiMaxkeyreq := 2 } allDown 2 = some (kit', ret) ∧
      ret.map kit'.keyAt = some (some [3]) := by
  have hr : ReverseRange twoKeyLimits allDown :=
    ⟨by decide, by decide, by decide, by decide, by decide, by decide⟩
  have hlisted : allDown.repeated twoKeyLimits wholeServer.keys = [[3], [2], [3]] := by decide
  have h := reverse_iteration wholeServer wholeServer_full { kiMaxkeyreq := 2 } allDown rfl
    (by decide) (by decide) hr 2 (by rw [hlisted]; decide)
  rw [hlisted] at h
  exact h

end Libkinetic.Kinetic
