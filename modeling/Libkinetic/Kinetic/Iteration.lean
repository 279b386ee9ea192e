import Libkinetic.Kinetic.Iter

/-! # An iteration gives the keys of its range

Against a server that holds a fixed set of keys and answers each request with some of the keys asked
for, `ki_start` and the calls of `ki_next` after it return the keys of the range in order, each once
and as many as the range's count allows, and then null. Between two calls the window is a segment of
the keys of the range and the index stands at the key returned last (`Iterating`). -/

namespace Libkinetic.Kinetic

open Libkinetic.Base.Windows

/-! ### The server and the range -/

def RangeReq.selects (req : RangeReq) : Key → Bool :=
  between req.startkey req.endkey req.startkeyinclusive req.endkeyinclusive

/-- The response has the first of the keys asked for, at most as many as the request allows, or a
status that says that there is none. -/
def Answers (keys : List Key) (req : RangeReq) (resp : Resp (List Key)) : Prop :=
  if keys.filter req.selects = [] then
    ∃ status body, status ≠ .kOk ∧ resp = .msg (.cmd ⟨some status, body⟩)
  else
    ∃ p, p ≠ [] ∧ p <+: keys.filter req.selects ∧ (p.length : ℤ) ≤ req.maxreturned ∧ Lists resp p

/-- A server with these limits: its keys in order, and its answer to the request of each call. -/
structure RangeServer (lim : Klimits) where
  keys : List Key
  sorted : keys.Pairwise (· < ·)
  nonempty : ∀ k ∈ keys, k ≠ []
  fits : ∀ k ∈ keys, k.length ≤ lim.klKeylen
  /-- `uint32_t` -/
  keylen_lt : lim.klKeylen < 2 ^ 32
  answer : ℕ → RangeReq → Resp (List Key)
  answers : ∀ n req, req.reverse = false → 0 < req.maxreturned → Answers keys req (answer n req)

/-- A forward range that the limits allow; the key list, unused before a request, is null or not
empty. -/
structure ForwardRange (lim : Klimits) (kr : Krange) : Prop where
  startKey : ∀ key ∈ kr.krStart, keyFits lim key = true
  endKey : ∀ key ∈ kr.krEnd, keyFits lim key = true
  flags : kr.krFlags &&& ~~~(krfIstart ||| krfIend) = 0#32
  count : kr.krCount = kvrCountInf ∨ 0 < kr.krCount ∧ kr.krCount < 2 ^ 31
  keys : kr.krKeys ≠ some []

/-- The key at an index of the window. -/
def Kiter.keyAt (kit : Kiter) (i : ℕ) : Option Key := (kit.kiRwin1.krKeys.getD [])[i]?

/-- `for (k = ki_start(kit, kr); k; k = ki_next(kit))`, the n-th call. -/
def iterCall {lim : Klimits} (srv : RangeServer lim) (kit : Kiter) (ckr : Krange) :
    ℕ → Option (Kiter × Option ℕ)
  | 0 => some (kiStart (srv.answer 0) lim kit ckr)
  | n + 1 => (iterCall srv kit ckr n).bind fun r => kiNext (srv.answer (n + 1)) lim r.1

/-! ### Flags, keys and counts -/

section Basic
variable {lim : Klimits} {kr : Krange} {ks : List Key} {f : BitVec 32}

theorem and_eq_zero_of_mask {f m g : BitVec 32} (h : f &&& ~~~m = 0#32) (hg : g &&& ~~~m = g) :
    f &&& g = 0#32 := by
  rw [← hg, BitVec.and_comm g, ← BitVec.and_assoc, h, BitVec.zero_and]

theorem reverse_of_mask (h : kr.krFlags &&& ~~~(krfIstart ||| krfIend) = 0#32) :
    kr.reverse = false := by
  have : kr.krFlags &&& krfReverse = 0#32 := and_eq_zero_of_mask h (by decide)
  simp [Krange.reverse, this]

theorem valid_of_mask (h : kr.krFlags &&& ~~~(krfIstart ||| krfIend) = 0#32) :
    kr.krFlags &&& ~~~krfValidmask = 0#32 :=
  and_eq_zero_of_mask h (by decide)

theorem flagClr_mask (h : kr.krFlags &&& ~~~(krfIstart ||| krfIend) = 0#32) :
    (kr.flagClr f).krFlags &&& ~~~(krfIstart ||| krfIend) = 0#32 := by
  unfold Krange.flagClr
  rw [BitVec.and_assoc, BitVec.and_comm (~~~f), ← BitVec.and_assoc, h, BitVec.zero_and]

@[simp] theorem istart_flagClr : (kr.flagClr krfIstart).istart = false := by
  have : kr.krFlags &&& ~~~krfIstart &&& krfIstart = 0#32 := by
    rw [BitVec.and_assoc, show ~~~krfIstart &&& krfIstart = 0#32 by decide, BitVec.and_zero]
  simp [Krange.istart, Krange.flagClr, this]

@[simp] theorem iend_flagClr : (kr.flagClr krfIstart).iend = kr.iend := by
  have : kr.krFlags &&& ~~~krfIstart &&& krfIend = kr.krFlags &&& krfIend := by
    rw [BitVec.and_assoc, show ~~~krfIstart &&& krfIend = krfIend by decide]
  simp [Krange.iend, Krange.flagClr, this]

/-- Which keys an iteration gives. -/
theorem listed_getElem? (n : ℕ) : (kr.listed ks)[n]? =
    if kr.krCount = kvrCountInf ∨ (n : ℤ) < kr.krCount then (kr.keys ks)[n]? else none := by
  unfold Krange.listed
  by_cases hinf : kr.krCount = kvrCountInf
  · rw [if_pos hinf, if_pos (Or.inl hinf)]
  · rw [if_neg hinf, List.getElem?_take]
    by_cases hn : (n : ℤ) < kr.krCount
    · rw [if_pos (by omega), if_pos (Or.inr hn)]
    · rw [if_neg (by omega), if_neg (not_or.mpr ⟨hinf, hn⟩)]

theorem kiKeydup_eq {key : Option Keyvec} (h : key ≠ some []) : kiKeydup key = key := by
  unfold kiKeydup
  split
  · exact absurd rfl h
  · rfl

/-- A range without empty vectors is copied as it is. -/
theorem kiRangecpy_eq {dst : Krange} (hs : kr.krStart ≠ some []) (he : kr.krEnd ≠ some [])
    (hk : kr.krKeys ≠ some []) : kiRangecpy dst kr = (true, kr) := by
  unfold kiRangecpy
  simp only [kiKeydup_eq hs, kiKeydup_eq he, kiKeydup_eq hk]
  rw [if_neg, if_neg, if_neg]
  · rintro ⟨h1, h2⟩
    exact h1 h2
  · rintro ⟨h1, h2⟩
    exact h1 h2
  · rintro ⟨h1, h2⟩
    exact h1 h2

theorem keyFits_ne {key : Keyvec} (h : keyFits lim key = true) : key ≠ [] := by
  rintro rfl
  exact absurd (of_decide_eq_true h).1 (by decide)

/-- What `ki_validate_range` asks of a window. -/
theorem kiValidateRange_of (hs : ∀ key ∈ kr.krStart, keyFits lim key = true)
    (he : ∀ key ∈ kr.krEnd, keyFits lim key = true)
    (hf : kr.krFlags &&& ~~~(krfIstart ||| krfIend) = 0#32) (h0 : 0 < kr.krCount)
    (hc : kr.krCount ≤ lim.klRangekeycnt) (hlim : lim.klRangekeycnt < 2 ^ 31) :
    kiValidateRange kr lim = true := by
  have hstart : kr.krStart.all (keyFits lim) = true := by
    rw [Option.all_eq_true]
    exact hs
  have hend : kr.krEnd.all (keyFits lim) = true := by
    rw [Option.all_eq_true]
    exact he
  have hflags : (kr.krFlags &&& ~~~krfValidmask == 0#32) = true := beq_iff_eq.mpr (valid_of_mask hf)
  have hcount : uint32 kr.krCount ≤ lim.klRangekeycnt := by
    unfold uint32
    omega
  have hne : kr.krCount ≠ 0 := by omega
  rw [kiValidateRange, hstart, hend, hflags]
  simp [hcount, hne]

end Basic

/-! ### Filling a window -/

section Fill
variable {lim : Klimits} {kr w : Krange}

/-- The window asks for the keys of a list: its request succeeds if there are any. -/
theorem RangeServer.fill (srv : RangeServer lim) (n : ℕ) {sel : List Key}
    (hv : kiValidateRange w lim = true) (hr : w.reverse = false) (h0 : 0 < w.krCount)
    (hsel : srv.keys.filter (createRangekeyMessage w).selects = sel) :
    (sel = [] ∧ (kiGetrange (srv.answer n) lim w).1 ≠ .kOk ∧
        (kiGetrange (srv.answer n) lim w).2 = w) ∨
      ∃ p, p ≠ [] ∧ p <+: sel ∧ (p.length : ℤ) ≤ w.krCount ∧
        kiGetrange (srv.answer n) lim w = (.kOk, { w with krKeys := some p }) := by
  have hfix : fixCount lim w = w := by
    refine fixCount_of_ne ?_
    unfold kvrCountInf
    omega
  have hans := srv.answers n (createRangekeyMessage w) hr h0
  unfold Answers at hans
  rw [hsel] at hans
  split_ifs at hans with hempty
  · left
    obtain ⟨status, body, hst, hresp⟩ := hans
    unfold kiGetrange
    rw [if_neg (not_not.mpr hv), hfix, hresp]
    have hcode : extractCmdstatusCode (⟨some status, body⟩ : RespCmd (List Key)) ≠ .kOk := hst
    simp only [rangeResult, extractKeyrange]
    rw [if_pos hcode]
    exact ⟨hempty, hcode, rfl⟩
  · right
    obtain ⟨p, hne, hp, hlen, hlists⟩ := hans
    refine ⟨p, hne, hp, hlen, ?_⟩
    have := kiGetrange_lists hv (by rw [hfix]; exact hlists)
    rwa [hfix] at this

/-- The keys that the first window asks for. -/
theorem selects_range (ks : List Key) (hs : w.krStart = kr.krStart) (he : w.krEnd = kr.krEnd)
    (hf : w.krFlags = kr.krFlags) :
    ks.filter (createRangekeyMessage w).selects = kr.keys ks := by
  unfold RangeReq.selects createRangekeyMessage Krange.keys
  simp only [keynameToProto_true, hs, he, Krange.istart, Krange.iend, hf]

/-- The keys that a window asks for which starts behind a key of the range. -/
theorem selects_behind (ks : List Key) {last : Key} (hlast : last ∈ kr.keys ks)
    (hs : w.krStart = some [last]) (hi : w.istart = false) (he : w.krEnd = kr.krEnd)
    (hie : w.iend = kr.iend) :
    ks.filter (createRangekeyMessage w).selects = above last (kr.keys ks) := by
  have hin := (List.mem_filter.mp hlast).2
  rw [Krange.keys, ← filter_between_some ks hin]
  unfold RangeReq.selects createRangekeyMessage
  simp only [keynameToProto_true, hs, he, hi, hie, Option.map_some, List.flatten_cons,
    List.flatten_nil, List.append_nil]

end Fill

/-! ### The invariant -/

/-- **Between two calls**: key `n` of the range was returned last. -/
structure Iterating {lim : Klimits} (srv : RangeServer lim) (kr : Krange) (n : ℕ) (kit : Kiter) :
    Prop where
  rreq : kit.kiRreq.krCount = kr.krCount
  maxkeyreq : kit.kiMaxkeyreq = lim.klRangekeycnt
  seen : kr.krCount ≠ kvrCountInf → kit.kiSeenkeys = n + 1
  winEnd : kit.kiRwin1.krEnd = kr.krEnd
  winIend : kit.kiRwin1.iend = kr.iend
  winFlags : kit.kiRwin1.krFlags &&& ~~~(krfIstart ||| krfIend) = 0#32
  window : ∃ w, kit.kiRwin1.krKeys = some w ∧ w.length ≤ lim.klRangekeycnt ∧
    Window (kr.keys srv.keys) w kit.kiCurkey n

section Iterating
variable {lim : Klimits} {srv : RangeServer lim} {kr w : Krange} {kit : Kiter} {n : ℕ}

theorem keys_sorted : (kr.keys srv.keys).Pairwise (· < ·) := srv.sorted.filter _

/-- A key of the server can be the start key of a request. -/
theorem RangeServer.keyFits_of_mem {k : Key} (hk : k ∈ srv.keys) : keyFits lim [k] = true := by
  have h1 := List.length_pos_iff.mpr (srv.nonempty k hk)
  have h2 := srv.fits k hk
  have h3 := srv.keylen_lt
  have hlen : keylen [k] = k.length := by
    have : uint32 (k.length : ℕ) = k.length := uint32_of_lt (by omega)
    simpa [keylen] using this
  unfold keyFits
  rw [hlen]
  exact decide_eq_true (by omega)

/-- The count that a window asks for: what is left of the range's count, at most the limit. -/
theorem askCount (hlim : 0 < lim.klRangekeycnt) (hlim' : lim.klRangekeycnt < 2 ^ 31) {left : ℤ}
    (hleft : kr.krCount = kvrCountInf ∨ 0 < left ∧ left < 2 ^ 31) {c : ℤ}
    (hc : c = if kr.krCount = kvrCountInf ∨ lim.klRangekeycnt < uint32 left then
      int32 lim.klRangekeycnt else left) : 0 < c ∧ c ≤ lim.klRangekeycnt := by
  rw [int32_of_lt hlim'] at hc
  split_ifs at hc with h
  · omega
  · rw [not_or, not_lt] at h
    have := hleft.resolve_left h.1
    have hu : (uint32 left : ℤ) = left := by
      unfold uint32
      omega
    omega

/-- What a call returned: the key of its number, or null if there is none. -/
structure Returns {lim : Klimits} (srv : RangeServer lim) (kr : Krange) (n : ℕ)
    (r : Kiter × Option ℕ) : Prop where
  ret : r.2.map r.1.keyAt = ((kr.listed srv.keys)[n]?).map some
  iterating : r.2 ≠ none → Iterating srv kr n r.1

/-- The key that the reader of a window stands at is returned. -/
theorem Iterating.returns (h : Iterating srv kr n kit)
    (hn : kr.krCount = kvrCountInf ∨ (n : ℤ) < kr.krCount) :
    Returns srv kr n (kit, some kit.kiCurkey) := by
  refine ⟨?_, fun _ => h⟩
  obtain ⟨w, hw, -, hwin⟩ := h.window
  rw [listed_getElem?, if_pos hn, hwin.getElem?, List.getElem?_eq_getElem hwin.lt]
  simp [Kiter.keyAt, hw, hwin.lt]

/-- Nothing is returned when the range has no key of this number. -/
theorem returns_none (h : (kr.listed srv.keys)[n]? = none) : Returns srv kr n (kit, none) :=
  ⟨by rw [h]; rfl, fun hne => absurd rfl hne⟩

/-- The number of keys seen after one more. -/
theorem Iterating.seen_next (h : Iterating srv kr n kit)
    (hn : kr.krCount = kvrCountInf ∨ ((n + 1 : ℕ) : ℤ) < kr.krCount)
    (hcount : kr.krCount = kvrCountInf ∨ kr.krCount < 2 ^ 31) (hinf : kr.krCount ≠ kvrCountInf) :
    int32 (kit.kiSeenkeys + 1) = ((n + 1 : ℕ) : ℤ) + 1 := by
  have hseen := h.seen hinf
  have h1 := hn.resolve_left hinf
  have h2 := hcount.resolve_left hinf
  have hint : int32 ((n + 1 + 1 : ℕ) : ℤ) = ((n + 1 + 1 : ℕ) : ℤ) := int32_of_lt (by omega)
  rw [hseen]
  push_cast at hint ⊢
  exact hint

/-- The index of the next key does not wrap. -/
theorem Iterating.nextKey_eq (h : Iterating srv kr n kit) (hlim' : lim.klRangekeycnt < 2 ^ 31) :
    nextKey kit = kit.kiCurkey + 1 := by
  obtain ⟨w, -, hlen, hwin⟩ := h.window
  have hlt := hwin.lt
  unfold nextKey
  omega

/-- A request that succeeded for a positive count. -/
theorem not_failed {c : ℤ} (h0 : 0 < c) : ¬ (KStatus.kOk ≠ .kOk ∨ c = 0) := by
  rintro (h | h)
  · exact h rfl
  · omega

/-! ### The calls -/

theorem startWindow_eq (hr : ForwardRange lim kr) : startWindow kit kr = (true, { kit with
    kiRreq := kr
    kiRwin1 := { kr with
      krCount := if kr.krCount = kvrCountInf ∨ kit.kiMaxkeyreq < uint32 kr.krCount then
        int32 kit.kiMaxkeyreq else kr.krCount } }) := by
  have h0 : kr.krCount ≠ 0 := by
    have := hr.count
    unfold kvrCountInf at this
    omega
  have hcpy : ∀ dst, kiRangecpy dst kr = (true, kr) := by
    intro dst
    refine kiRangecpy_eq ?_ ?_ hr.keys
    · intro hs
      exact keyFits_ne (hr.startKey [] hs) rfl
    · intro he
      exact keyFits_ne (hr.endKey [] he) rfl
  unfold startWindow
  rw [if_neg h0]
  simp only [hcpy, not_true_eq_false, if_false]
  split_ifs <;> rfl

/-- **The first call.** -/
theorem start_returns (hr : ForwardRange lim kr) (hm : kit.kiMaxkeyreq = lim.klRangekeycnt)
    (hlim : 0 < lim.klRangekeycnt) (hlim' : lim.klRangekeycnt < 2 ^ 31) :
    Returns srv kr 0 (kiStart (srv.answer 0) lim kit kr) := by
  obtain ⟨c, hc⟩ : ∃ c, c = if kr.krCount = kvrCountInf ∨ kit.kiMaxkeyreq < uint32 kr.krCount then
    int32 kit.kiMaxkeyreq else kr.krCount := ⟨_, rfl⟩
  have hstart : startWindow kit kr = _ := startWindow_eq hr
  rw [← hc] at hstart
  rw [hm] at hc
  obtain ⟨h0, hle⟩ := askCount hlim hlim' hr.count hc
  have hv : kiValidateRange { kr with krCount := c } lim = true :=
    kiValidateRange_of hr.startKey hr.endKey hr.flags h0 hle hlim'
  have hsel : srv.keys.filter (createRangekeyMessage { kr with krCount := c }).selects =
      kr.keys srv.keys := selects_range srv.keys rfl rfl rfl
  unfold kiStart
  rw [hstart]
  simp only [not_true_eq_false, if_false]
  rcases srv.fill 0 hv (reverse_of_mask hr.flags) h0 hsel with ⟨hempty, hkrc, -⟩ |
    ⟨p, hne, hp, hlen, hg⟩
  · rw [if_pos (Or.inl hkrc)]
    refine returns_none ?_
    rw [listed_getElem?, hempty]
    split_ifs <;> rfl
  · rw [hg, if_neg (not_failed h0)]
    have hit : Iterating srv kr 0 { kit with
        kiRreq := kr
        kiRwin1 := { kr with krCount := c, krKeys := some p }
        kiCurkey := 0
        kiSeenkeys := 1 } := by
      refine ⟨rfl, hm, fun _ => rfl, rfl, rfl, hr.flags, p, rfl, ?_, Window.first hp hne⟩
      dsimp only at hlen
      omega
    refine hit.returns ?_
    exact hr.count.imp_right fun h => h.1

/-- The next call inside the window. -/
theorem Iterating.inside (h : Iterating srv kr n kit) (hlim' : lim.klRangekeycnt < 2 ^ 31)
    (hn : kr.krCount = kvrCountInf ∨ ((n + 1 : ℕ) : ℤ) < kr.krCount)
    (hcount : kr.krCount = kvrCountInf ∨ kr.krCount < 2 ^ 31)
    (hin : nextKey kit < kit.kiRwin1.krKeyscnt) :
    Returns srv kr (n + 1) ({ kit with
      kiCurkey := nextKey kit, kiSeenkeys := int32 (kit.kiSeenkeys + 1) }, some (nextKey kit)) := by
  obtain ⟨w, hw, hlen, hwin⟩ := h.window
  have hnext := h.nextKey_eq hlim'
  have hcnt : kit.kiRwin1.krKeyscnt = w.length := by
    rw [Krange.krKeyscnt, hw, Option.getD_some]
  have hit : Iterating srv kr (n + 1) { kit with
      kiCurkey := nextKey kit, kiSeenkeys := int32 (kit.kiSeenkeys + 1) } := by
    refine ⟨h.rreq, h.maxkeyreq, h.seen_next hn hcount, h.winEnd, h.winIend, h.winFlags, w, hw,
      hlen, ?_⟩
    dsimp only
    rw [hnext] at hin ⊢
    exact hwin.next (by omega)
  exact hit.returns hn

/-- The last key of a window that is used up, and what is left of the range behind it. -/
theorem Iterating.last (h : Iterating srv kr n kit) (hlim' : lim.klRangekeycnt < 2 ^ 31)
    (hin : kit.kiRwin1.krKeyscnt ≤ nextKey kit) :
    ∃ last, (kit.kiRwin1.krKeys.getD []).getLast? = some last ∧ last ∈ kr.keys srv.keys ∧
      above last (kr.keys srv.keys) = (kr.keys srv.keys).drop (n + 1) := by
  obtain ⟨w, hw, hlen, hwin⟩ := h.window
  have hlt := hwin.lt
  have hle : w.length ≤ kit.kiCurkey + 1 := by
    rw [Krange.krKeyscnt, hw, Option.getD_some, h.nextKey_eq hlim'] at hin
    exact hin
  have hne : w ≠ [] := List.ne_nil_of_length_pos (by omega)
  refine ⟨w.getLast hne, ?_, ?_, hwin.rest keys_sorted hle hne⟩
  · rw [hw, Option.getD_some, List.getLast?_eq_some_getLast hne]
  · obtain ⟨pre, post, hfull, -⟩ := hwin.split
    rw [hfull]
    simp [List.getLast_mem hne]

/-- The window for the next request. -/
theorem Iterating.nextWindow_eq (h : Iterating srv kr n kit) {last : Key}
    (hlast : (kit.kiRwin1.krKeys.getD []).getLast? = some last) :
    nextWindow kit = some { kit.kiRwin1.flagClr krfIstart with
      krStart := some [last]
      krKeys := none
      krCount := if kr.krCount = kvrCountInf ∨
          lim.klRangekeycnt < uint32 (kr.krCount - kit.kiSeenkeys) then int32 lim.klRangekeycnt
        else int32 (uint32 (kr.krCount - kit.kiSeenkeys)) } := by
  have hdup : kiKeydupf [last] = some [last] := by
    simp [kiKeydupf]
  unfold nextWindow
  rw [hlast, h.rreq, h.maxkeyreq]
  simp only [Option.map_some, hdup, Option.some.injEq]
  split_ifs <;> rfl

/-- The window that `ki_next` asks for asks for what is left of the range behind key `n`. -/
structure AsksRest {lim : Klimits} (srv : RangeServer lim) (kr : Krange) (n : ℕ) (win : Krange) :
    Prop where
  pos : 0 < win.krCount
  le : win.krCount ≤ lim.klRangekeycnt
  flags : win.krFlags &&& ~~~(krfIstart ||| krfIend) = 0#32
  valid : kiValidateRange win lim = true
  winEnd : win.krEnd = kr.krEnd
  winIend : win.iend = kr.iend
  selects : srv.keys.filter (createRangekeyMessage win).selects = (kr.keys srv.keys).drop (n + 1)

/-- What is left of the count, as `ki_next` computes it. -/
theorem Iterating.left (h : Iterating srv kr n kit) (hr : ForwardRange lim kr)
    (hn : kr.krCount = kvrCountInf ∨ ((n + 1 : ℕ) : ℤ) < kr.krCount) :
    kr.krCount = kvrCountInf ∨
      0 < kr.krCount - kit.kiSeenkeys ∧ kr.krCount - kit.kiSeenkeys < 2 ^ 31 := by
  by_cases hinf : kr.krCount = kvrCountInf
  · exact Or.inl hinf
  · right
    have h1 := h.seen hinf
    have h2 := hn.resolve_left hinf
    have h3 := hr.count.resolve_left hinf
    omega

/-- The request for the next window. -/
theorem Iterating.asks (h : Iterating srv kr n kit) (hr : ForwardRange lim kr)
    (hlim : 0 < lim.klRangekeycnt) (hlim' : lim.klRangekeycnt < 2 ^ 31)
    (hn : kr.krCount = kvrCountInf ∨ ((n + 1 : ℕ) : ℤ) < kr.krCount)
    (hin : kit.kiRwin1.krKeyscnt ≤ nextKey kit) :
    ∃ win, nextWindow kit = some win ∧ AsksRest srv kr n win := by
  obtain ⟨last, hlast, hmem, habove⟩ := h.last hlim' hin
  have hleft := h.left hr hn
  obtain ⟨c, hc⟩ : ∃ c, c = if kr.krCount = kvrCountInf ∨
      lim.klRangekeycnt < uint32 (kr.krCount - kit.kiSeenkeys) then int32 lim.klRangekeycnt
      else kr.krCount - kit.kiSeenkeys := ⟨_, rfl⟩
  obtain ⟨h0, hle⟩ := askCount hlim hlim' hleft hc
  have hcw : (if kr.krCount = kvrCountInf ∨ lim.klRangekeycnt <
      uint32 (kr.krCount - kit.kiSeenkeys) then int32 lim.klRangekeycnt
      else int32 (uint32 (kr.krCount - kit.kiSeenkeys))) = c := by
    rw [hc]
    split_ifs with hif
    · rfl
    · rw [not_or] at hif
      obtain ⟨hpos, hlt⟩ := hleft.resolve_left hif.1
      unfold uint32
      rw [int32_of_lt (by omega)]
      omega
  have hstart : keyFits lim [last] = true := srv.keyFits_of_mem (List.mem_of_mem_filter hmem)
  have hend : ∀ key ∈ kit.kiRwin1.krEnd, keyFits lim key = true := by
    intro key hkey
    exact hr.endKey key (h.winEnd ▸ hkey)
  have hflags : (kit.kiRwin1.flagClr krfIstart).krFlags &&& ~~~(krfIstart ||| krfIend) = 0#32 :=
    flagClr_mask h.winFlags
  have hiend : (kit.kiRwin1.flagClr krfIstart).iend = kr.iend := iend_flagClr.trans h.winIend
  refine ⟨_, h.nextWindow_eq hlast, ?_⟩
  rw [hcw]
  refine ⟨h0, hle, hflags, ?_, h.winEnd, hiend, ?_⟩
  · refine kiValidateRange_of ?_ hend hflags h0 hle hlim'
    rintro key ⟨⟩
    exact hstart
  · rw [← habove]
    exact selects_behind srv.keys hmem rfl istart_flagClr h.winEnd hiend

/-- The iterator with the keys of the next window in it. -/
theorem Iterating.refilled (h : Iterating srv kr n kit) {win : Krange} (ha : AsksRest srv kr n win)
    (hn : kr.krCount = kvrCountInf ∨ ((n + 1 : ℕ) : ℤ) < kr.krCount)
    (hcount : kr.krCount = kvrCountInf ∨ kr.krCount < 2 ^ 31) {p : List Key} (hne : p ≠ [])
    (hp : p <+: (kr.keys srv.keys).drop (n + 1)) (hlen : (p.length : ℤ) ≤ win.krCount) :
    Iterating srv kr (n + 1) { kit with
      kiRwin1 := { win with krKeys := some p }
      kiCurkey := 0
      kiSeenkeys := int32 (kit.kiSeenkeys + 1) } := by
  obtain ⟨w, -, -, hwin⟩ := h.window
  have hle := ha.le
  refine ⟨h.rreq, h.maxkeyreq, h.seen_next hn hcount, ha.winEnd, ha.winIend, ha.flags, p, rfl, ?_,
    hwin.refill hp hne⟩
  omega

/-- The next call at the end of the window. -/
theorem Iterating.atEnd (h : Iterating srv kr n kit) (hr : ForwardRange lim kr)
    (hlim : 0 < lim.klRangekeycnt) (hlim' : lim.klRangekeycnt < 2 ^ 31)
    (hn : kr.krCount = kvrCountInf ∨ ((n + 1 : ℕ) : ℤ) < kr.krCount)
    (hex : exhausted kit = false) (hin : kit.kiRwin1.krKeyscnt ≤ nextKey kit) :
    ∃ r, kiNext (srv.answer (n + 1)) lim kit = some r ∧ Returns srv kr (n + 1) r := by
  obtain ⟨win, hnw, ha⟩ := h.asks hr hlim hlim' hn hin
  unfold kiNext
  simp only [hex, hin, hnw, Bool.false_eq_true, if_false, if_true, Option.map_some]
  refine ⟨_, rfl, ?_⟩
  rcases srv.fill (n + 1) ha.valid (reverse_of_mask ha.flags) ha.pos ha.selects with
    ⟨hempty, hkrc, -⟩ | ⟨p, hne, hp, hlen, hg⟩
  · rw [if_pos (Or.inl hkrc)]
    refine returns_none ?_
    have hge := List.drop_eq_nil_iff.mp hempty
    rw [listed_getElem?, List.getElem?_eq_none hge, ite_self]
  · rw [hg, if_neg (not_failed ha.pos)]
    exact (h.refilled ha hn (hr.count.imp_right And.right) hne hp hlen).returns hn

/-- An iteration that goes on has not given as many keys as the count says. -/
theorem Iterating.more (h : Iterating srv kr n kit) (hex : exhausted kit = false) :
    kr.krCount = kvrCountInf ∨ ((n + 1 : ℕ) : ℤ) < kr.krCount := by
  by_cases hinf : kr.krCount = kvrCountInf
  · exact Or.inl hinf
  · right
    have := of_decide_eq_false hex
    rw [h.rreq, h.seen hinf, not_and, not_le] at this
    exact_mod_cast this hinf

/-- **The next call.** -/
theorem Iterating.next_returns (h : Iterating srv kr n kit) (hr : ForwardRange lim kr)
    (hlim : 0 < lim.klRangekeycnt) (hlim' : lim.klRangekeycnt < 2 ^ 31) :
    ∃ r, kiNext (srv.answer (n + 1)) lim kit = some r ∧ Returns srv kr (n + 1) r := by
  cases hex : exhausted kit with
  | true =>
    obtain ⟨hinf, hle⟩ := of_decide_eq_true hex
    rw [h.rreq] at hinf hle
    rw [h.seen hinf] at hle
    refine ⟨(kit, none), by simp [kiNext, hex], returns_none ?_⟩
    rw [listed_getElem?, if_neg]
    rintro (h1 | h1)
    · exact hinf h1
    · push_cast at h1
      omega
  | false =>
    have hn := h.more hex
    by_cases hin : kit.kiRwin1.krKeyscnt ≤ nextKey kit
    · exact h.atEnd hr hlim hlim' hn hex hin
    · refine ⟨_, ?_, h.inside hlim' hn (hr.count.imp_right And.right) (not_le.mp hin)⟩
      simp [kiNext, hex, hin]

end Iterating

/-! ### A server that answers with one key at a time -/

def firstOf (keys : List Key) (_ : ℕ) (req : RangeReq) : Resp (List Key) :=
  match keys.filter req.selects with
  | [] => notFound req
  | k :: _ => lists [k] req

theorem firstOf_answers (keys : List Key) (n : ℕ) (req : RangeReq) (h : 0 < req.maxreturned) :
    Answers keys req (firstOf keys n req) := by
  unfold Answers firstOf
  cases hsel : keys.filter req.selects with
  | nil =>
    rw [if_pos rfl]
    exact ⟨.kEnotfound, none, by decide, rfl⟩
  | cons k rest =>
    rw [if_neg (List.cons_ne_nil k rest)]
    refine ⟨[k], List.cons_ne_nil k [], ⟨rest, rfl⟩, ?_, rfl⟩
    simp only [List.length_singleton]
    omega

def threeKeys : RangeServer smallLimits where
  keys := [[1], [1, 2], [3]]
  sorted := by decide
  nonempty := by decide
  fits := by decide
  keylen_lt := by decide
  answer := firstOf [[1], [1, 2], [3]]
  answers n req _ h := firstOf_answers _ n req h

/-- The keys behind `[1]`, at most two. -/
def behindFirst : Krange := { krStart := some [[1]], krCount := 2 }

end Libkinetic.Kinetic
