import Libkinetic.Kinetic.Basicmap

/-! # The basic calls, when they are served

If every request is served, by a server that says nothing beyond the limits, the calls of
`basickv.c` return what a program on maps from keys to values returns, and the server keeps that
map. The metadata that `bkv_put` sends has to be within the limits, and what the server keeps from
the beginning as well. -/

namespace Libkinetic.Kinetic.Basicserved

open Libkinetic.Base.Calls Libkinetic.Base.Rounds Libkinetic.Toolbox.Delrange
open Libkinetic.Kinetic.Basicmap

/-! ### The program on maps -/

section Program
variable (lim : Klimits) (forgiving : Bool) (m : Contents)

/-- A key that a call takes. -/
def KeyOk (key : Key) : Prop := key ≠ [] ∧ key.length ≤ lim.klKeylen

/-- A key that a call takes with the suffix, and the number of the keys. -/
def KeysOk (key : Key) (n : ℕ) : Prop :=
  key ≠ [] ∧ key.length + 4 ≤ lim.klKeylen ∧ 0 < n ∧ n ≤ bkvNMaxkeys

instance (key : Key) : Decidable (KeyOk lim key) :=
  inferInstanceAs (Decidable (key ≠ [] ∧ key.length ≤ lim.klKeylen))

instance (key : Key) (n : ℕ) : Decidable (KeysOk lim key n) :=
  inferInstanceAs
    (Decidable (key ≠ [] ∧ key.length + 4 ≤ lim.klKeylen ∧ 0 < n ∧ n ≤ bkvNMaxkeys))

/-- How many of the first `n` numbered keys are there, up to the first one that is not. -/
def present (key : Key) : ℕ → ℕ
  | 0 => 0
  | n + 1 =>
    if present key n = n ∧ (m (numbered key n)).isSome then n + 1 else present key n

/-- A call to the map; if the server is forgiving, a delete does not need the key. -/
def mapCall : BkvOp → BkvReply × Contents
  | .put key val =>
    if KeyOk lim key ∧ val.length ≤ lim.klVallen then
      ({ rc := some 0 }, Function.update m key (some val))
    else ({ rc := some (-1) }, m)
  | .get key =>
    match m key with
    | some val =>
      if KeyOk lim key then ({ rc := some 0, out := some (some val, val.length) }, m)
      else ({ rc := some (-1) }, m)
    | none => ({ rc := some (-1) }, m)
  | .del key =>
    if KeyOk lim key ∧ ((m key).isSome ∨ forgiving) then
      ({ rc := some 0 }, Function.update m key none)
    else ({ rc := some (-1) }, m)
  | .exist key =>
    if KeyOk lim key then ({ rc := some (if (m key).isSome then 1 else 0) }, m)
    else ({ rc := some (-1) }, m)
  | .putn key val =>
    let n := pieces lim.klVallen val.length
    if KeysOk lim key n then ({ rc := some n }, written lim.klVallen m key val n)
    else ({ rc := some (-1) }, m)
  | .getn key n =>
    if ¬ KeysOk lim key n then ({ rc := some (-1) }, m)
    else if present m key n = n then
      let val := ((List.range n).map (valueOf m key)).flatten
      ({ rc := some n, out := some (some val, val.length) }, m)
    else ({ rc := some (-1), out := some (none, 0) }, m)
  | .deln key n =>
    if ¬ KeysOk lim key n then ({ rc := some (-1) }, m)
    else if forgiving ∨ present m key n = n then ({ rc := some n }, without m key n)
    else ({ rc := some (-1) }, without m key (present m key n))

end Program

/-! ### Serving environments -/

/-- Every request is served, an answer to a delete does not name the key, one to a put keeps the
metadata of the structure in the limits, and a delete of a key that is not there succeeds or not. -/
structure Serving (lim : Klimits) (forgiving : Bool) (c : BkvEnv) : Prop where
  works : ∀ n, c.Works n
  quiet : ∀ i, (c.turn i).tells.key = false
  modest : ∀ i kv, MetaOk lim kv → MetaOk lim (echoKv (c.turn i).putResp kv)
  forgiving : ∀ i, (c.turn i).forgiving = forgiving

/-- What the server keeps is in the limits. -/
def Fine (lim : Klimits) (st : Store) : Prop := ∀ k e, st k = some e → e.Fine lim

theorem Fine.update {lim : Klimits} {st : Store} {k : Key} {e : Option Entry} (h : Fine lim st)
    (he : ∀ e' ∈ e, e'.Fine lim) : Fine lim (Function.update st k e) := by
  intro k' e' hk'
  by_cases heq : k' = k
  · subst heq
    rw [Function.update_self] at hk'
    exact he e' hk'
  · rw [Function.update_of_ne heq] at hk'
    exact h k' e' hk'

/-! ### Served requests -/

section Requests
variable {t : Turn} {ses : Ksession} {st : Store} {kv : Kv} {name : List (Option Key)}

/-- **A valid put** succeeds if it is served. -/
theorem kiPut_served (st : Store) (ht : t.Serves) (hkey : kv.kvKey = some name)
    (hv : kiValidateKv kv false true ses.ksL = true) : (kiPut t ses st kv).krc = some .kOk := by
  obtain ⟨he, hf⟩ := ht
  have he' := he
  simp only [IssueEnv.goesOut, Bool.and_eq_true] at he'
  obtain ⟨⟨⟨⟨⟨⟨⟨-, hk⟩, hc⟩, hm⟩, -⟩, -⟩, -⟩, hsend⟩ := he'
  obtain ⟨cmd, hcreate⟩ :
      ∃ cmd, createPutMessage t.env.message (kvHdr ses none .kmtPut) kv true = some cmd := by
    simp [createPutMessage, createMessage, keynameToProto, hkey, hk, hc, hm]
  obtain ⟨key, -, hcmd, -⟩ := createPutMessage_some hcreate
  have hmsg := kvMessage_sent he hv (by simp) hcreate
  have hi : (pPutAioGeneric t.env ses kv none false).req =
      some { cmd, val := kv.kvVal.getD [] } := by
    simp [pPutAioGeneric, putMessage, hmsg, hsend]
  have hs : (t.servePut st { cmd, val := kv.kvVal.getD [] }).2 = accepted t.putResp := by
    simp [Turn.servePut, hcmd]
  have hcall : kiPut t ses st kv = { krc := some .kOk, kv := _, store := _ } :=
    turnCall_served hi hf hs
  rw [hcall]

/-- A put that is not valid is not sent. -/
theorem kiPut_refused (t : Turn) (st : Store)
    (hv : kiValidateKv kv false true ses.ksL = false) :
    (∃ krc, krc ≠ .kOk ∧ (kiPut t ses st kv).krc = some krc) ∧ (kiPut t ses st kv).store = st := by
  have hreq : (pPutAioGeneric t.env ses kv none false).req = none := by
    rcases hi : (pPutAioGeneric t.env ses kv none false).req with _ | req
    · rfl
    · obtain ⟨cmd, len, hm, -⟩ := pPutAioGeneric_some hi
      rw [(kvMessage_ok hm).1] at hv
      cases hv
  unfold kiPut kvCall
  dsimp only
  rw [hreq]
  exact ⟨⟨_, pPutAioGeneric_unsent hreq, rfl⟩, rfl⟩

/-- **A delete of a key that is not there**, if it is served. -/
theorem kiDel_missing (st : Store) (ht : t.Serves) (hkey : kv.kvKey = some name)
    (hv : kiValidateKv kv false true ses.ksL = true) (hold : st (keyBytes name) = none) :
    (kiDel t ses st kv).krc = some (if t.forgiving then .kOk else .kEnotfound) ∧
      (kiDel t ses st kv).store = st := by
  obtain ⟨he, hf⟩ := ht
  have he' := he
  simp only [IssueEnv.goesOut, Bool.and_eq_true] at he'
  obtain ⟨⟨⟨⟨⟨⟨⟨-, hk⟩, hc⟩, hm⟩, -⟩, -⟩, -⟩, hsend⟩ := he'
  obtain ⟨cmd, hcreate⟩ :
      ∃ cmd, createDelkeyMessage t.env.message (kvHdr ses none .kmtDel) kv true = some cmd := by
    simp [createDelkeyMessage, createMessage, hc, hm]
  have hcmd := createDelkeyMessage_some hkey hcreate
  rw [if_pos hk] at hcmd
  have hmsg := kvMessage_sent he hv (by simp) hcreate
  have hi : (dDelAioGeneric t.env ses kv none false).req = some { cmd } := by
    simp [dDelAioGeneric, delMessage, hmsg, hsend]
  unfold kiDel kvCall
  dsimp only
  rw [hi]
  dsimp only [Turn.serve]
  rw [kvWait_late (fun _ => rfl)]
  rcases hforgiving : t.forgiving with _ | _
  · simp [kvWait, dDelAioComplete, kvAioComplete, aioDone, readResponse, extractDelkey, extractEcho,
      Turn.completion, Turn.serveDel, hf, hcmd, hold, hforgiving, refused, extractCmdstatusCode]
  · simp [kvWait, dDelAioComplete, kvAioComplete, aioDone, readResponse, extractDelkey, extractEcho,
      Turn.completion, Turn.serveDel, hf, hcmd, hold, hforgiving, accepted, extractCmdstatusCode]

/-- **A get of a key that is not there**, if it is served. -/
theorem kiGetFrom_missing (ht : t.Serves) (hkey : kv.kvKey = some name)
    (hv : kiValidateKv kv false true ses.ksL = true) (hold : st (keyBytes name) = none) :
    (kiGetFrom t ses st kv).krc = some .kEnotfound := by
  obtain ⟨he, hf⟩ := ht
  obtain ⟨len, hsent⟩ := @gGetAioGeneric_sent t.env ses kv none .kmtGet none ⟨rfl, hv, rfl⟩ he
  have hbody : (getRequest ses kv .kmtGet).body.key = some (keyBytes name) := by
    simp [getRequest, hkey]
  unfold kiGetFrom kiGet gGetGeneric getCall
  rw [hsent]
  dsimp only [Turn.serveGet]
  rw [hbody]
  dsimp only
  rw [hold, getWait_late (fun _ _ => rfl)]
  simp [getWait, gGetAioComplete, Turn.completion, hf, refused, getExtract, extractGetkey,
    extractCmdstatusCode, getFinish]

/-- The same of a request for a version. -/
theorem kiGetversion_missing (ht : t.Serves) (hkey : kv.kvKey = some name)
    (hv : kiValidateKv kv false true ses.ksL = true) (hold : st (keyBytes name) = none) :
    (kiGetversion t.env ses (serveGetversion t st) kv).krc = some .kEnotfound := by
  obtain ⟨he, hf⟩ := ht
  obtain ⟨len, hsent⟩ := @gGetAioGeneric_sent t.env ses kv none .kmtGetvers none ⟨rfl, hv, rfl⟩ he
  have hbody : (getRequest ses kv .kmtGetvers).body.key = some (keyBytes name) := by
    simp [getRequest, hkey]
  unfold kiGetversion gGetGeneric getCall
  rw [hsent]
  dsimp only [serveGetversion]
  rw [hbody]
  dsimp only
  rw [hold, getWait_late (fun _ _ => rfl)]
  simp [getWait, gGetAioComplete, Turn.completion, hf, refused, getExtract, extractGetkey,
    extractCmdstatusCode, getFinish]

end Requests

/-! ### Calls for one key -/

/-- The limits admit the metadata of `bkv_put`. -/
structure Roomy (lim : Klimits) : Prop where
  value : 0 < lim.klVallen
  version : 8 ≤ lim.klVerlen
  tag : 4 ≤ lim.klDisumlen

section One
variable {c : BkvEnv} {ses : Ksession} {st : Store} {key : Key} {val : List Byte}
  {lim : Klimits} {forgiving : Bool}

theorem bkvChecks_iff (hc : Serving ses.ksL forgiving c) :
    bkvChecks c ses key = true ↔ KeyOk ses.ksL key := by
  have hworks := hc.works 0
  simp only [bkvChecks, kiLimits, hworks.config, hworks.create, if_true, Bool.and_eq_true,
    decide_eq_true_eq, and_true]
  constructor
  · rintro ⟨⟨hne, -⟩, hlen⟩
    exact ⟨hne, hlen⟩
  · rintro ⟨hne, hlen⟩
    have hpos := List.length_pos_iff.mpr hne
    exact ⟨⟨hne, by omega⟩, hlen⟩

theorem metaOk_default {kv : Kv} (hver : kv.kvVer = none) (hnewver : kv.kvNewver = none)
    (hdisum : kv.kvDisum = none) (hcpolicy : ∀ z, kv.kvCpolicy = .other z → z = 0) :
    MetaOk lim kv :=
  ⟨by rw [hver]; rfl, by rw [hnewver]; rfl, by rw [hdisum]; rfl, by simp [hdisum], hcpolicy⟩

theorem oneKv_valid (h : KeyOk lim key) : kiValidateKv (oneKv key) false true lim = true :=
  valid_of_one rfl rfl h.2 (metaOk_default rfl rfl rfl (by simp [oneKv]))

theorem delKv_valid (h : KeyOk lim key) : kiValidateKv (bkvDelKv key) false true lim = true :=
  valid_of_one rfl rfl h.2 (metaOk_default rfl rfl rfl (by simp [bkvDelKv]))

/-- The metadata of a put. -/
theorem metaOk_put {kv : Kv} (hroomy : Roomy lim) (hver : kv.kvVer = none)
    (hnewver : kv.kvNewver = some (List.replicate 8 48)) (hdisum : kv.kvDisum = some [0, 0, 0, 0])
    (hditype : kv.kvDitype = .kdiCrc32) (hcpolicy : kv.kvCpolicy = .kcWt) : MetaOk lim kv where
  ver := by rw [hver]; rfl
  newver := by simpa [hnewver, optLen] using hroomy.version
  disum := by simpa [hdisum, optLen] using hroomy.tag
  ditype := by simp [hditype]
  cpolicy := by simp [hcpolicy]

theorem putKv_valid (val : List Byte) (hroomy : Roomy lim) (h : KeyOk lim key) :
    kiValidateKv (putKv key val) false true lim = decide (val.length ≤ lim.klVallen) := by
  rw [Bool.eq_iff_iff, kiValidateKv_iff, decide_eq_true_eq]
  constructor
  · rintro ⟨-, ⟨v, hv, -, hlen⟩, -⟩
    obtain rfl : [{ bytes := val }] = v := Option.some.inj hv
    simpa [valLen] using hlen
  · intro hlen
    refine ⟨⟨_, rfl, le_refl _, ?_⟩, ⟨_, rfl, le_refl _, by simpa [valLen] using hlen⟩,
      metaOk_put hroomy rfl rfl rfl rfl rfl⟩
    rw [keyBytes_one]
    exact h.2

/-- A call does what the program does, and what the server keeps stays in the limits. -/
def Agrees (ses : Ksession) (forgiving : Bool) (c : BkvEnv) (op : BkvOp) (st : Store) : Prop :=
  mapCall ses.ksL forgiving (contents st) op =
      ((bkvCall ses (c, op) st).1, contents (bkvCall ses (c, op) st).2) ∧
    Fine ses.ksL (bkvCall ses (c, op) st).2

theorem agrees_put (hroomy : Roomy ses.ksL) (hc : Serving ses.ksL forgiving c)
    (hfine : Fine ses.ksL st) : Agrees ses forgiving c (.put key val) st := by
  have ht : (c.turn 0).Serves := (hc.works 1).turn 0 Nat.one_pos
  unfold Agrees
  simp only [mapCall, bkvCall, bkvPut]
  by_cases hkey : KeyOk ses.ksL key
  · rw [if_neg (not_not.mpr ((bkvChecks_iff hc).mpr hkey))]
    by_cases hlen : val.length ≤ ses.ksL.klVallen
    · have hvalid := (putKv_valid val hroomy hkey).trans (decide_eq_true hlen)
      have hok := kiPut_served st ht rfl hvalid
      obtain ⟨name, hname, -, -, hstore⟩ := kiPut_ok hok
      obtain rfl : [some key] = name := Option.some.inj hname
      rw [keyBytes_one] at hstore
      obtain ⟨hvalue, hentry⟩ := kvEntry_fine rfl rfl hvalid
      rw [if_pos ⟨hkey, hlen⟩, hok, hstore, contents_update]
      exact ⟨by simp [hvalue], hfine.update fun e he => Option.some.inj he ▸ hentry⟩
    · have hvalid := (putKv_valid val hroomy hkey).trans (decide_eq_false hlen)
      obtain ⟨⟨krc, hne, hkrc⟩, hstore⟩ := kiPut_refused (c.turn 0) st hvalid
      rw [if_neg fun h => hlen h.2, hkrc, hstore, Option.map_some, if_neg hne]
      exact ⟨rfl, hfine⟩
  · rw [if_neg fun h => hkey h.1, if_pos fun h => hkey ((bkvChecks_iff hc).mp h)]
    exact ⟨rfl, hfine⟩

theorem agrees_get (hc : Serving ses.ksL forgiving c) (hfine : Fine ses.ksL st) :
    Agrees ses forgiving c (.get key) st := by
  have ht : (c.turn 0).Serves := (hc.works 1).turn 0 Nat.one_pos
  refine ⟨?_, hfine⟩
  simp only [mapCall, bkvCall, bkvGet]
  by_cases hkey : KeyOk ses.ksL key
  · rw [if_neg (not_not.mpr ((bkvChecks_iff hc).mpr hkey))]
    rcases hold : st key with _ | e
    · have hmissing := kiGetFrom_missing ht rfl (oneKv_valid hkey)
        (show st (keyBytes [some key]) = none by rwa [keyBytes_one])
      simp [contents, hold, hmissing]
    · obtain ⟨hok, hkv⟩ := kiGetFrom_served ht rfl (oneKv_valid hkey) rfl
        (show st (keyBytes [some key]) = some e by rwa [keyBytes_one])
      rw [if_pos hok, hkv, hungVal_filled rfl]
      simp [contents, hold, hkey]
  · rw [if_pos fun h => hkey ((bkvChecks_iff hc).mp h)]
    rcases hold : contents st key with _ | value
    · rfl
    · simp [hkey]

theorem agrees_exist (hc : Serving ses.ksL forgiving c) (hfine : Fine ses.ksL st) :
    Agrees ses forgiving c (.exist key) st := by
  have ht : (c.turn 0).Serves := (hc.works 1).turn 0 Nat.one_pos
  refine ⟨?_, hfine⟩
  simp only [mapCall, bkvCall, bkvExists]
  by_cases hkey : KeyOk ses.ksL key
  · rw [if_neg (not_not.mpr ((bkvChecks_iff hc).mpr hkey)), if_pos hkey]
    rcases hold : st key with _ | e
    · have hmissing := kiGetversion_missing ht rfl (oneKv_valid hkey)
        (show st (keyBytes [some key]) = none by rwa [keyBytes_one])
      simp [contents, hold, hmissing]
    · obtain ⟨hok, -⟩ := kiGetversion_served ht rfl (oneKv_valid hkey)
        (show st (keyBytes [some key]) = some e by rwa [keyBytes_one])
      simp [contents, hold, hok]
  · rw [if_pos fun h => hkey ((bkvChecks_iff hc).mp h), if_neg hkey]

theorem agrees_del (hc : Serving ses.ksL forgiving c) (hfine : Fine ses.ksL st) :
    Agrees ses forgiving c (.del key) st := by
  have ht : (c.turn 0).Serves := (hc.works 1).turn 0 Nat.one_pos
  unfold Agrees
  simp only [mapCall, bkvCall, bkvDel]
  by_cases hkey : KeyOk ses.ksL key
  · rw [if_neg (not_not.mpr ((bkvChecks_iff hc).mpr hkey))]
    have hdeleted : (kiDel (c.turn 0) ses st (bkvDelKv key)).krc = some .kOk →
        (kiDel (c.turn 0) ses st (bkvDelKv key)).store = Function.update st key none := by
      intro hok
      obtain ⟨name, hname, -, -, hstore⟩ := kiDel_ok hok
      obtain rfl : [some key] = name := Option.some.inj hname
      rwa [keyBytes_one] at hstore
    rcases hold : st key with _ | e
    · obtain ⟨hkrc, hsame⟩ := kiDel_missing st ht rfl (delKv_valid hkey)
        (show st (keyBytes [some key]) = none by rwa [keyBytes_one])
      rw [hc.forgiving 0] at hkrc
      cases forgiving with
      | false =>
        rw [hkrc, hsame]
        simp [contents, hold, hfine]
      | true =>
        rw [hdeleted hkrc, hkrc, contents_update]
        exact ⟨by simp [hkey], hfine.update (by simp)⟩
    · have hok := kiDel_served ht rfl (delKv_valid hkey)
        (show st (keyBytes [some key]) = some e by rwa [keyBytes_one])
      have hsome : (contents st key).isSome = true := by simp [contents, hold]
      rw [hdeleted hok, hok, contents_update, if_pos ⟨hkey, .inl hsome⟩]
      exact ⟨rfl, hfine.update (by simp)⟩
  · rw [if_pos fun h => hkey ((bkvChecks_iff hc).mp h), if_neg fun h => hkey h.1]
    exact ⟨rfl, hfine⟩

end One

/-! ### Calls for numbered keys -/

section Present
variable {m : Contents} {key : Key} {n i : ℕ}

theorem present_le : present m key n ≤ n := by
  induction n with
  | zero => exact le_rfl
  | succ n ih =>
    unfold present
    split_ifs
    · exact le_rfl
    · omega

theorem isSome_of_lt_present (hi : i < present m key n) : (m (numbered key i)).isSome = true := by
  induction n with
  | zero => exact absurd hi (Nat.not_lt_zero i)
  | succ n ih =>
    unfold present at hi
    split_ifs at hi with hnext
    · by_cases hin : i = n
      · rw [hin]
        exact hnext.2
      · exact ih (by omega)
    · exact ih hi

/-- The first key that is not there. -/
theorem eq_none_present (h : present m key n ≠ n) : m (numbered key (present m key n)) = none := by
  induction n with
  | zero => exact absurd rfl h
  | succ n ih =>
    unfold present at h ⊢
    split_ifs at h ⊢ with hnext
    · exact absurd rfl h
    · by_cases hn : present m key n = n
      · rw [hn]
        exact Option.not_isSome_iff_eq_none.mp fun hsome => hnext ⟨hn, hsome⟩
      · exact ih hn

end Present

section Numbered
variable {c : BkvEnv} {ses : Ksession} {st : Store} {key : Key} {val : List Byte}
  {lim : Klimits} {forgiving : Bool} {n i : ℕ}

/-! #### Putting -/

/-- What is true before round `i` of a `bkv_putn` that is served. -/
structure PutnServed (lim : Klimits) (st : Store) (key val : List Byte) (n i : ℕ) (s : PutnState) :
    Prop where
  inv : PutnInv lim st key val n i s
  metadata : MetaOk lim s.kv
  fine : Fine lim s.store

theorem length_piece_le (v : ℕ) (l : List Byte) (i : ℕ) : (piece v l i).length ≤ v := by
  unfold piece
  exact List.length_take_le v _

theorem PutnServed.round {s : PutnState} (hv : 0 < ses.ksL.klVallen)
    (hn : n = pieces ses.ksL.klVallen val.length) (hi : i < n) (hmax : n ≤ bkvNMaxkeys)
    (hlen : key.length + 4 ≤ ses.ksL.klKeylen) (hc : Serving ses.ksL forgiving c)
    (h : PutnServed ses.ksL st key val n i s) :
    ∃ s', putnRound c ses n val.length i s = .ok s' ∧
      PutnServed ses.ksL st key val n (i + 1) s' := by
  have ht : (c.turn i).Serves := (hc.works (i + 1)).turn i (Nat.lt_succ_self i)
  obtain ⟨hkey, hval⟩ := putnAsk_piece hv hn hi h.inv
  have hmeta : MetaOk ses.ksL (putnAsk ses n val.length i s) :=
    ⟨h.metadata.ver, h.metadata.newver, h.metadata.disum, h.metadata.ditype, h.metadata.cpolicy⟩
  have hvalid : kiValidateKv (putnAsk ses n val.length i s) false true ses.ksL = true := by
    rw [kiValidateKv_iff]
    refine ⟨⟨_, hkey, by simp, ?_⟩, ⟨_, hval, le_refl _, ?_⟩, hmeta⟩
    · rw [keyBytes_numbered, length_numbered]
      exact hlen
    · simpa [valLen] using length_piece_le ses.ksL.klVallen val i
  have hok := kiPut_served s.store ht hkey hvalid
  have hr : putnRound c ses n val.length i s = .ok _ := if_pos hok
  obtain ⟨name, -, -, hkv, hstore⟩ := kiPut_ok hok
  refine ⟨_, hr, ⟨h.inv.round hv hn hi hmax hr, ?_, ?_⟩⟩
  · show MetaOk ses.ksL (kiPut (c.turn i) ses s.store (putnAsk ses n val.length i s)).kv
    rw [hkv]
    exact hc.modest i _ hmeta
  · show Fine ses.ksL (kiPut (c.turn i) ses s.store (putnAsk ses n val.length i s)).store
    rw [hstore]
    refine h.fine.update fun e he => ?_
    obtain rfl := Option.some.inj he
    exact (kvEntry_fine hval h.inv.newver hvalid).2

theorem agrees_putn (hroomy : Roomy ses.ksL) (hsize : val.length < 2 ^ 32)
    (hc : Serving ses.ksL forgiving c) (hfine : Fine ses.ksL st) :
    Agrees ses forgiving c (.putn key val) st := by
  have hworks := hc.works 0
  have huint : uint32 (pieces ses.ksL.klVallen val.length) = pieces ses.ksL.klVallen val.length :=
    uint32_of_lt ((pieces_le_length hroomy.value val.length).trans_lt hsize)
  have hzero : val = [] ↔ pieces ses.ksL.klVallen val.length = 0 := by
    constructor
    · rintro rfl
      simp [pieces]
    · intro hz
      have hle := le_pieces_mul val.length hroomy.value
      rw [hz, Nat.zero_mul] at hle
      exact List.length_eq_zero_iff.mp (Nat.le_zero.mp hle)
  unfold Agrees
  simp only [mapCall, bkvCall]
  by_cases hkeys : KeysOk ses.ksL key (pieces ses.ksL.klVallen val.length)
  · obtain ⟨hne, hlen, hpos, hmax⟩ := hkeys
    have hstart : PutnServed ses.ksL st key val (pieces ses.ksL.klVallen val.length) 0
        { kv := putnKv key, store := st, pval := val, pvlen := ses.ksL.klVallen } :=
      ⟨⟨⟨_, rfl⟩, ⟨_, rfl⟩, rfl, by simp, fun _ => rfl, stored_zero ..⟩,
        metaOk_put hroomy rfl rfl rfl rfl rfl, hfine⟩
    obtain ⟨s, hr, hserved⟩ := rounds_total hstart
      (fun i t hi hP => hP.round hroomy.value rfl hi hmax hlen hc)
    have hput : bkvPutn c ses st key val =
        { rc := some (pieces ses.ksL.klVallen val.length : ℤ), store := s.store } := by
      unfold bkvPutn bkvNMaxkeysDigits
      simp only [kiLimits, hworks.config, hworks.create, if_true, huint, hr]
      rw [if_neg (by rw [hzero]; simp only [hne, false_or]; omega), if_neg (by omega),
        if_neg (by omega), if_neg (by omega), if_neg (by simp)]
    rw [hput, if_pos ⟨hne, hlen, hpos, hmax⟩, contents_of_stored hserved.inv.stored hmax]
    exact ⟨rfl, hserved.fine⟩
  · have hput : bkvPutn c ses st key val = { rc := some (-1), store := st } := by
      unfold bkvPutn bkvNMaxkeysDigits
      simp only [kiLimits, hworks.config, hworks.create, if_true, huint]
      by_cases hempty : key = [] ∨ val = []
      · rw [if_pos hempty]
      rw [if_neg hempty]
      by_cases hkeylen : ses.ksL.klKeylen = 0
      · rw [if_pos hkeylen]
      rw [if_neg hkeylen]
      by_cases hlen : ses.ksL.klKeylen < key.length + 1 + 3
      · rw [if_pos hlen]
      rw [if_neg hlen, if_pos]
      by_contra hmax
      rw [hzero] at hempty
      exact hkeys ⟨fun h => hempty (.inl h), by omega, by omega, by omega⟩
    rw [hput, if_neg hkeys]
    exact ⟨rfl, hfine⟩

/-! #### Getting -/

/-- What is true before round `i` of a `bkv_getn` that is served. -/
structure GetnServed (lim : Klimits) (st : Store) (key : Key) (i : ℕ) (s : GetnState) : Prop where
  ready : Ready lim key s.kv
  sound : GetnSound st key i s

theorem GetnServed.round {s : GetnState} (hlen : key.length + 4 ≤ ses.ksL.klKeylen)
    (hc : Serving ses.ksL forgiving c) (hfine : Fine ses.ksL st)
    (hfound : (contents st (numbered key i)).isSome = true) (h : GetnServed ses.ksL st key i s) :
    ∃ s', getnRound c ses st i s = .ok s' ∧ GetnServed ses.ksL st key (i + 1) s' := by
  have ht : (c.turn i).Serves := (hc.works (i + 1)).turn i (Nat.lt_succ_self i)
  obtain ⟨e, he⟩ : ∃ e, st (numbered key i) = some e := by
    simpa [contents, Option.isSome_iff_exists] using hfound
  obtain ⟨hok, hkv⟩ := kiGetFrom_served ht (kvKey_hangNumber h.ready.key i)
    (h.ready.valid hlen i) (h.ready.metaonly_hangNumber i)
    (show st (keyBytes [some key, some (bkvNMaxkeysFormat i)]) = some e by
      rwa [keyBytes_numbered])
  have hr : getnRound c ses st i s = .ok _ := if_pos hok
  refine ⟨_, hr, ⟨?_, h.sound.round hr⟩⟩
  show Ready ses.ksL key (kiGetFrom (c.turn i) ses st (hangNumber i s.kv)).kv
  rw [hkv]
  exact ((h.ready.hangNumber i).filled (hfine _ e he) _).1

/-- The rounds go through, -/
theorem bkvGetn_rounds {s : GetnState} (hworks : c.Works 0) (hkeys : KeysOk ses.ksL key n)
    (hr : rounds (getnRound c ses st) n { kv := numberedKv key, ival := [] } = .ok s) :
    bkvGetn c ses st key n =
      { rc := some n, out := some (s.ival.flatten, (s.ival.map List.length).sum) } := by
  obtain ⟨hne, hlen, hpos, hmax⟩ := hkeys
  unfold bkvGetn bkvNMaxkeysDigits
  simp only [kiLimits, hworks.config, hworks.create, hworks.arrays, hworks.value, if_true, hr]
  rw [if_neg (by simp only [hne, false_or]; omega), if_neg (by omega), if_neg (by omega),
    if_neg (by omega), if_neg (by simp), if_neg (by simp), if_neg (by simp)]

/-- or one of them fails. -/
theorem bkvGetn_left {krc : KStatus} (hworks : c.Works 0) (hkeys : KeysOk ses.ksL key n)
    (hr : rounds (getnRound c ses st) n { kv := numberedKv key, ival := [] } =
      .error (some krc)) :
    bkvGetn c ses st key n = { rc := some (-1), out := some (none, 0) } := by
  obtain ⟨hne, hlen, hpos, hmax⟩ := hkeys
  unfold bkvGetn bkvNMaxkeysDigits
  simp only [kiLimits, hworks.config, hworks.create, hworks.arrays, if_true, hr]
  rw [if_neg (by simp only [hne, false_or]; omega), if_neg (by omega), if_neg (by omega),
    if_neg (by omega), if_neg (by simp), if_neg (by simp)]

theorem agrees_getn (hc : Serving ses.ksL forgiving c) (hfine : Fine ses.ksL st) :
    Agrees ses forgiving c (.getn key n) st := by
  have hworks := hc.works 0
  refine ⟨?_, hfine⟩
  simp only [mapCall, bkvCall]
  by_cases hkeys : KeysOk ses.ksL key n
  · obtain ⟨hne, hlen, hpos, hmax⟩ := hkeys
    have hstart : GetnServed ses.ksL st key 0 { kv := numberedKv key, ival := [] } :=
      ⟨ready_numberedKv _ key, ⟨⟨_, rfl⟩, ⟨_, rfl⟩, rfl, fun j hj => absurd hj (Nat.not_lt_zero j),
        rfl⟩⟩
    -- the rounds for the keys that are there
    obtain ⟨s, hr, hserved⟩ := rounds_total (n := present (contents st) key n) hstart
      (fun i t hi hP => hP.round hlen hc hfine (isSome_of_lt_present hi))
    rw [if_neg (not_not.mpr ⟨hne, hlen, hpos, hmax⟩)]
    by_cases hall : present (contents st) key n = n
    · rw [hall] at hr hserved
      rw [if_pos hall, bkvGetn_rounds hworks ⟨hne, hlen, hpos, hmax⟩ hr]
      simp only [hserved.sound.ival, List.length_flatten]
    · have hnone : st (numbered key (present (contents st) key n)) = none := by
        simpa [contents] using eq_none_present hall
      have ht := (hc.works (present (contents st) key n + 1)).turn _ (Nat.lt_succ_self _)
      have hmissing := kiGetFrom_missing ht (kvKey_hangNumber hserved.ready.key _)
        (hserved.ready.valid hlen _)
        (show st (keyBytes [some key, some (bkvNMaxkeysFormat _)]) = none by
          rwa [keyBytes_numbered])
      have herr : getnRound c ses st (present (contents st) key n) s =
          .error (some .kEnotfound) := by
        unfold getnRound
        dsimp only
        rw [hmissing, if_neg (by simp)]
      have hlt : present (contents st) key n < n := lt_of_le_of_ne present_le hall
      rw [if_neg hall, bkvGetn_left hworks ⟨hne, hlen, hpos, hmax⟩ (rounds_left hlt hr herr)]
  · have hget : bkvGetn c ses st key n = { rc := some (-1) } := by
      unfold bkvGetn bkvNMaxkeysDigits
      simp only [kiLimits, hworks.config, hworks.create, if_true]
      by_cases hempty : key = [] ∨ n = 0
      · rw [if_pos hempty]
      rw [if_neg hempty]
      by_cases hmax : bkvNMaxkeys < n
      · rw [if_pos hmax]
      rw [if_neg hmax]
      by_cases hkeylen : ses.ksL.klKeylen = 0
      · rw [if_pos hkeylen]
      rw [if_neg hkeylen, if_pos]
      by_contra hlen
      exact hkeys ⟨fun h => hempty (.inl h), by omega, by omega, by omega⟩
    rw [hget, if_pos hkeys]

/-! #### Deleting -/

/-- What is true before round `i` of a `bkv_deln` that is served. -/
structure DelnServed (lim : Klimits) (st : Store) (key : Key) (i : ℕ) (s : DelnState) : Prop where
  ready : Ready lim key s.kv
  store : s.store = erased st key i

theorem Fine.erased (h : Fine lim st) : Fine lim (erased st key n) := by
  intro k e hk
  unfold Libkinetic.Kinetic.erased at hk
  split_ifs at hk
  exact h k e hk

/-- An answer about a key that was not there leaves the structure as it is. -/
theorem echoKv_empty {t : Turn} {k : Key} {kv : Kv} (ht : t.tells.key = false) :
    echoKv (t.tells.response k {}) kv = kv := by
  simp [echoKv, Tells.response, ht, extractBytesOptional]

/-- The next key is as it was. -/
theorem DelnServed.old {s : DelnState} (h : DelnServed lim st key i s) (hi : i < bkvNMaxkeys) :
    s.store (numbered key i) = st (numbered key i) := by
  rw [h.store, erased_of_ne fun j hj => (numbered_ne hi hj).symm]

theorem DelnServed.round {s : DelnState} (hi : i < bkvNMaxkeys)
    (hlen : key.length + 4 ≤ ses.ksL.klKeylen) (hc : Serving ses.ksL forgiving c)
    (hfine : Fine ses.ksL st)
    (hfound : forgiving = true ∨ (contents st (numbered key i)).isSome = true)
    (h : DelnServed ses.ksL st key i s) :
    ∃ s', delnRound c ses i s = .ok s' ∧ DelnServed ses.ksL st key (i + 1) s' := by
  have ht : (c.turn i).Serves := (hc.works (i + 1)).turn i (Nat.lt_succ_self i)
  have hkey := kvKey_hangNumber h.ready.key i
  have hvalid := h.ready.valid hlen i
  have hok : (kiDel (c.turn i) ses s.store (hangNumber i s.kv)).krc = some .kOk := by
    rcases hold : st (numbered key i) with _ | e
    · have hforgiving : forgiving = true := by simpa [contents, hold] using hfound
      have hmissing := (kiDel_missing s.store ht hkey hvalid
        (by rw [keyBytes_numbered, h.old hi, hold])).1
      rwa [hc.forgiving i, if_pos hforgiving] at hmissing
    · exact kiDel_served ht hkey hvalid
        (show s.store (keyBytes [some key, some (bkvNMaxkeysFormat i)]) = some e by
          rw [keyBytes_numbered, h.old hi, hold])
  have hr : delnRound c ses i s = .ok _ := if_pos hok
  obtain ⟨name, hname, -, hkv, hstore⟩ := kiDel_ok hok
  rw [hkey, Option.some.injEq] at hname
  subst hname
  rw [keyBytes_numbered] at hkv hstore
  refine ⟨_, hr, ⟨?_, ?_⟩⟩
  · show Ready ses.ksL key (kiDel (c.turn i) ses s.store (hangNumber i s.kv)).kv
    rw [hkv, oldEntry, h.old hi]
    rcases hold : st (numbered key i) with _ | e
    · rw [Option.getD_none, echoKv_empty (hc.quiet i)]
      exact h.ready.hangNumber i
    · exact (h.ready.hangNumber i).echo (hfine _ e hold) _ (hc.quiet i)
  · show (kiDel (c.turn i) ses s.store (hangNumber i s.kv)).store = _
    rw [hstore, h.store, erased_succ]

/-- The rounds go through, -/
theorem bkvDeln_rounds {s : DelnState} (hworks : c.Works 0) (hkeys : KeysOk ses.ksL key n)
    (hr : rounds (delnRound c ses) n
      { kv := { numberedKv key with kvCpolicy := .kcWt }, store := st } = .ok s) :
    bkvDeln c ses st key n = { rc := some n, store := s.store } := by
  obtain ⟨hne, hlen, hpos, hmax⟩ := hkeys
  unfold bkvDeln bkvNMaxkeysDigits
  simp only [kiLimits, hworks.config, hworks.create, if_true, hr]
  rw [if_neg (by simp only [hne, false_or]; omega), if_neg (by omega), if_neg (by omega),
    if_neg (by omega), if_neg (by simp)]

/-- or one of them fails. -/
theorem bkvDeln_left {krc : KStatus} {store : Store} (hworks : c.Works 0)
    (hkeys : KeysOk ses.ksL key n)
    (hr : rounds (delnRound c ses) n
      { kv := { numberedKv key with kvCpolicy := .kcWt }, store := st } =
        .error (some krc, store)) :
    bkvDeln c ses st key n = { rc := some (-1), store } := by
  obtain ⟨hne, hlen, hpos, hmax⟩ := hkeys
  unfold bkvDeln bkvNMaxkeysDigits
  simp only [kiLimits, hworks.config, hworks.create, if_true, hr]
  rw [if_neg (by simp only [hne, false_or]; omega), if_neg (by omega), if_neg (by omega),
    if_neg (by omega), if_neg (by simp), Option.map_some]

theorem agrees_deln (hc : Serving ses.ksL forgiving c) (hfine : Fine ses.ksL st) :
    Agrees ses forgiving c (.deln key n) st := by
  have hworks := hc.works 0
  unfold Agrees
  simp only [mapCall, bkvCall]
  by_cases hkeys : KeysOk ses.ksL key n
  · obtain ⟨hne, hlen, hpos, hmax⟩ := hkeys
    have hstart : DelnServed ses.ksL st key 0
        { kv := { numberedKv key with kvCpolicy := .kcWt }, store := st } := by
      have hready := ready_numberedKv ses.ksL key
      exact ⟨⟨hready.key, hready.val, rfl, ⟨rfl, rfl, rfl, by simp [numberedKv], by simp⟩⟩,
        (erased_zero st key).symm⟩
    rw [if_neg (not_not.mpr ⟨hne, hlen, hpos, hmax⟩)]
    by_cases hall : forgiving = true ∨ present (contents st) key n = n
    · obtain ⟨s, hr, hserved⟩ := rounds_total (n := n) hstart
        (fun i t hi hP => hP.round (by omega) hlen hc hfine
          (hall.imp_right fun heq => isSome_of_lt_present (heq.symm ▸ hi)))
      rw [if_pos hall, bkvDeln_rounds hworks ⟨hne, hlen, hpos, hmax⟩ hr, hserved.store,
        contents_erased]
      exact ⟨rfl, hfine.erased⟩
    · rw [not_or] at hall
      have hlt : present (contents st) key n < n := lt_of_le_of_ne present_le hall.2
      obtain ⟨s, hr, hserved⟩ := rounds_total (n := present (contents st) key n) hstart
        (fun i t hi hP => hP.round (by omega) hlen hc hfine (.inr (isSome_of_lt_present hi)))
      have hnone : st (numbered key (present (contents st) key n)) = none := by
        simpa [contents] using eq_none_present hall.2
      have ht := (hc.works (present (contents st) key n + 1)).turn _ (Nat.lt_succ_self _)
      obtain ⟨hmissing, hsame⟩ := kiDel_missing s.store ht (kvKey_hangNumber hserved.ready.key _)
        (hserved.ready.valid hlen _)
        (by rw [keyBytes_numbered, hserved.old (by omega), hnone])
      rw [hc.forgiving, if_neg hall.1] at hmissing
      have herr : delnRound c ses (present (contents st) key n) s =
          .error (some .kEnotfound, s.store) := by
        unfold delnRound
        dsimp only
        rw [hmissing, if_neg (by simp), hsame]
      rw [if_neg (not_or.mpr hall),
        bkvDeln_left hworks ⟨hne, hlen, hpos, hmax⟩ (rounds_left hlt hr herr), hserved.store,
        contents_erased]
      exact ⟨rfl, hfine.erased⟩
  · have hdel : bkvDeln c ses st key n = { rc := some (-1), store := st } := by
      unfold bkvDeln bkvNMaxkeysDigits
      simp only [kiLimits, hworks.config, hworks.create, if_true]
      by_cases hempty : key = [] ∨ n = 0
      · rw [if_pos hempty]
      rw [if_neg hempty]
      by_cases hmax : bkvNMaxkeys < n
      · rw [if_pos hmax]
      rw [if_neg hmax]
      by_cases hkeylen : ses.ksL.klKeylen = 0
      · rw [if_pos hkeylen]
      rw [if_neg hkeylen, if_pos]
      by_contra hlen
      exact hkeys ⟨fun h => hempty (.inl h), by omega, by omega, by omega⟩
    rw [hdel, if_pos hkeys]
    exact ⟨rfl, hfine⟩

end Numbered

/-! ### Runs -/

/-- **A call that is served** does what the program does. -/
theorem bkvCall_agrees {c : BkvEnv} {ses : Ksession} {st : Store} {forgiving : Bool}
    (hroomy : Roomy ses.ksL) (hc : Serving ses.ksL forgiving c) (hfine : Fine ses.ksL st)
    (op : BkvOp) (hsize : Sized op) : Agrees ses forgiving c op st := by
  cases op with
  | put key val => exact agrees_put hroomy hc hfine
  | get key => exact agrees_get hc hfine
  | del key => exact agrees_del hc hfine
  | exist key => exact agrees_exist hc hfine
  | putn key val => exact agrees_putn hroomy hsize hc hfine
  | getn key n => exact agrees_getn hc hfine
  | deln key n => exact agrees_deln hc hfine

/-- **Calls that are served** return what the program on maps returns, one after the other, and the
server keeps its map. -/
theorem served_calls_eq (ses : Ksession) (forgiving : Bool) (hroomy : Roomy ses.ksL) (st : Store)
    (hfine : Fine ses.ksL st) (cs : List (BkvEnv × BkvOp))
    (hcs : ∀ a ∈ cs, Serving ses.ksL forgiving a.1 ∧ Sized a.2) :
    calls (fun a m => mapCall ses.ksL forgiving m a.2) (contents st) cs =
      ((calls (bkvCall ses) st cs).1, contents (calls (bkvCall ses) st cs).2) :=
  calls_eq (I := Fine ses.ksL)
    (fun a _ hf ha => (bkvCall_agrees hroomy ha.1 hf a.2 ha.2).1)
    (fun a _ hf ha => (bkvCall_agrees hroomy ha.1 hf a.2 ha.2).2) cs hfine hcs

/-- A server that tells nothing of its own accord serves. -/
theorem telling_serving (lim : Klimits) : Serving lim false (telling {}) where
  works := telling_works {}
  quiet _ := rfl
  modest _ _ h := ⟨h.ver, h.newver, h.disum, h.ditype, h.cpolicy⟩
  forgiving _ := rfl

/-- Three pieces, of which the second is deleted. -/
def servedCalls : List (BkvEnv × BkvOp) :=
  [(telling {}, .putn [107] [1, 2, 3, 4, 5]), (telling {}, .del (numbered [107] 1)),
    (telling {}, .getn [107] 3), (telling {}, .deln [107] 3),
    (telling {}, .exist (numbered [107] 2)), (telling {}, .get (numbered [107] 2))]

theorem servedCalls_eq :
    Roomy twoByteSes.ksL ∧ Fine twoByteSes.ksL (fun _ => none) ∧
    calls (fun a m => mapCall twoByteSes.ksL false m a.2) (fun _ => none) servedCalls =
      ((calls (bkvCall twoByteSes) (fun _ => none) servedCalls).1,
        contents (calls (bkvCall twoByteSes) (fun _ => none) servedCalls).2) ∧
    (calls (bkvCall twoByteSes) (fun _ => none) servedCalls).1 =
      [{ rc := some 3 }, { rc := some 0 }, { rc := some (-1), out := some (none, 0) },
        { rc := some (-1) }, { rc := some 1 }, { rc := some 0, out := some (some [5], 1) }] := by
  have hroomy : Roomy twoByteSes.ksL := ⟨by decide, by decide, by decide⟩
  have hfine : Fine twoByteSes.ksL (fun _ => none) := fun _ _ h => by cases h
  refine ⟨hroomy, hfine, ?_, by decide +kernel⟩
  refine served_calls_eq twoByteSes false hroomy (fun _ => none) hfine servedCalls fun a ha => ?_
  have hall : ∀ b ∈ servedCalls, b.1 = telling {} ∧ Sized b.2 := by
    unfold servedCalls
    simp [Sized]
  obtain ⟨henv, hsize⟩ := hall a ha
  rw [henv]
  exact ⟨telling_serving _, hsize⟩

end Libkinetic.Kinetic.Basicserved
