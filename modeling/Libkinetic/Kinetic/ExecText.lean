import Libkinetic.Base.Cstrings
import Libkinetic.Kinetic.Exec

/-! # The detailed message of an exec

`extract_exec_response` takes the detailed message `<rc>:<sig>:<mesg>:<stdout/stderr>` apart with
`sscanf` and `strchr`. The message is a piece of memory with a length, which no zero ends, and null
if it has no bytes; the functions take it for a string. `sscanf` looks for the end of the string
first. Following a null pointer, or one next to it, or leaving the memory has no result. -/

namespace Libkinetic.Kinetic.ExecText

open Libkinetic.Base.Cstrings

/-! ### The extraction -/

/-- `:` -/
def colon : Byte := 58

/-- The texts of a status. -/
structure StatusTexts where
  statusmessage : List Byte
  detailedmessage : List Byte
deriving DecidableEq

/-- The memory behind the detailed message, and the copies that get theirs. -/
structure ExecMem where
  after : List Byte
  msg : Bool := true
  stdout : Bool := true

/-- What `sscanf` stores for `%d:%d:`. -/
def sscanfInts (s : List Byte) : List ℤ :=
  match scanInt s with
  | none => []
  | some (rc, s) =>
    match s with
    | [] => [rc]
    | b :: s =>
      if b ≠ colon then [rc]
      else
        match scanInt s with
        | none => [rc]
        | some (sig, _) => [rc, sig]

/-- The message as a string. -/
def dmsgString (after data : List Byte) : Option (List Byte) :=
  if data = [] then none else cstr (data ++ after)

/-- `dmsg = strchr(dmsg, ':'); dmsg++;` before `dmsg` is followed. -/
def pastColon (dmsg : List Byte) : Option (List Byte) := (strchr colon dmsg).map List.tail

/-- The end of `extract_exec_response`, from the detailed message on. -/
def decodeDetail (e : ExecMem) (data : List Byte) (krc : KStatus) (app : Kapplet) :
    Option (KStatus × Kapplet) := do
  let s ← dmsgString e.after data
  match sscanfInts s with
  | [rc, sig] => do
    let dmsg ← pastColon s
    let dmsg ← pastColon dmsg
    let dmsg ← pastColon dmsg
    some
      (krc,
        { app with
          kaRc := rc
          kaSig := sig
          kaStdout := if e.stdout then some dmsg else none
          kaStdoutlen := uint32 ((data.length : ℤ) - (s.length - dmsg.length : ℕ)) })
  | [rc] => some (.kEinternal, { app with kaRc := rc })
  | _ => some (.kEinternal, app)

/-- **`extract_exec_response`**; the body stands for the texts of the status, if both are set. -/
def extractExecResponse (e : ExecMem) (m : RespMsg StatusTexts) (app : Kapplet) :
    Option (KStatus × Kapplet) :=
  match m with
  | .nocmd => some (.kEinternal, app)
  | .badcmd => some (.kEinternal, app)
  | .cmd c =>
    match c.status, c.body with
    | some krc, some status =>
      decodeDetail e status.detailedmessage krc
        { app with kaMsg := if e.msg then some status.statusmessage else none }
    | _, _ => some (.kEinternal, app)

/-- A response with a status of two texts. -/
def withTexts (krc : KStatus) (text data : List Byte) : RespMsg StatusTexts :=
  .cmd { status := some krc, body := some { statusmessage := text, detailedmessage := data } }

/-! ### What is to come of it -/

/-- **The form** `rc:sig:mesg:out` of a message. -/
def Documented (data : List Byte) (rc sig : ℤ) (mesg out : List Byte) : Prop :=
  ∃ n n', IsDecimal n rc ∧ IsDecimal n' sig ∧ colon ∉ mesg ∧ 0 ∉ out ∧
    data = n ++ colon :: (n' ++ colon :: (mesg ++ colon :: out))

/-- A message of the form fills the fields of the applet. -/
def FormStored (e : ExecMem) (data : List Byte) : Prop :=
  ∀ rc sig mesg out, Documented data rc sig mesg out → ∀ krc text app, ∃ k app',
    extractExecResponse e (withTexts krc text data) app = some (k, app') ∧ app'.kaRc = rc ∧
      app'.kaSig = sig ∧ app'.kaStdout = some out ∧ app'.kaStdoutlen = out.length

/-- Another message gives an error, whatever stands behind it. -/
def OthersRefused (data : List Byte) : Prop :=
  (∀ rc sig mesg out, ¬ Documented data rc sig mesg out) → ∀ e krc text app, ∃ k app',
    extractExecResponse e (withTexts krc text data) app = some (k, app') ∧ k ≠ .kOk

/-- Two numbers stand at the start, with a colon between them. -/
def TwoNumbers (s : List Byte) : Prop :=
  ∃ n n' r, IsNumber n ∧ IsNumber n' ∧ s = n ++ colon :: (n' ++ r)

section Detail
variable {e : ExecMem} {krc : KStatus} {app : Kapplet} {data s n n' mesg out o r : List Byte}
  {rc sig : ℤ}

theorem colon_not_digit : ∀ b ∈ (colon :: r).head?, isDigit b = false := by
  intro b hb
  obtain rfl := Option.some.inj hb
  decide

theorem colon_notMem_decimal {z : ℤ} (hn : IsDecimal n z) : colon ∉ n := by
  intro hmem
  rcases hn.mem hmem with h | h
  · exact absurd h (by decide)
  · exact absurd h (by decide)

theorem zero_notMem_decimal {z : ℤ} (hn : IsDecimal n z) : 0 ∉ n := by
  intro hmem
  rcases hn.mem hmem with h | h
  · exact absurd h (by decide)
  · exact absurd h (by decide)

theorem pastColon_append (h : colon ∉ n) (r : List Byte) : pastColon (n ++ colon :: r) = some r := by
  rw [pastColon, strchr_append h]
  rfl

theorem pastColon_eq_none (h : colon ∉ s) : pastColon s = none := by
  rw [pastColon, strchr_eq_none h]
  rfl

/-- The two numbers of a message of the form. -/
theorem sscanfInts_form (hn : IsDecimal n rc) (hn' : IsDecimal n' sig) (r : List Byte) :
    sscanfInts (n ++ colon :: (n' ++ colon :: r)) = [rc, sig] := by
  unfold sscanfInts
  rw [scanInt_decimal hn colon_not_digit]
  dsimp only
  rw [if_neg (by simp), scanInt_decimal hn' colon_not_digit]

/-- **Two numbers are stored** just if two stand at the start. -/
theorem sscanfInts_two_iff (s : List Byte) :
    (∃ rc sig, sscanfInts s = [rc, sig]) ↔ TwoNumbers s := by
  constructor
  · rintro ⟨rc, sig, h⟩
    unfold sscanfInts at h
    cases hs : scanInt s with
    | none =>
      rw [hs] at h
      cases h
    | some p =>
      obtain ⟨z, s'⟩ := p
      rw [hs] at h
      obtain ⟨n, hn, rfl⟩ := scanInt_some hs
      cases s' with
      | nil => cases h
      | cons b s' =>
        dsimp only at h
        split_ifs at h with hb
        · cases h
        obtain rfl : b = colon := not_not.mp hb
        cases hs' : scanInt s' with
        | none =>
          rw [hs'] at h
          cases h
        | some p =>
          obtain ⟨z', r⟩ := p
          obtain ⟨n', hn', rfl⟩ := scanInt_some hs'
          exact ⟨n, n', r, hn, hn', rfl⟩
  · rintro ⟨n, n', r, hn, hn', rfl⟩
    obtain ⟨z, hz⟩ := scanInt_number hn (colon_not_digit (r := n' ++ r))
    obtain ⟨p, hp⟩ := Option.isSome_iff_exists.mp (scanInt_isSome hn' r)
    refine ⟨z, p.1, ?_⟩
    unfold sscanfInts
    rw [hz]
    dsimp only
    rw [if_neg (by simp), hp]

theorem extractExecResponse_withTexts (e : ExecMem) (krc : KStatus) (text data : List Byte)
    (app : Kapplet) : extractExecResponse e (withTexts krc text data) app =
      decodeDetail e data krc { app with kaMsg := if e.msg then some text else none } := rfl

/-- Without two numbers the message is refused. -/
theorem decodeDetail_refused (hs : dmsgString e.after data = some s) (h : ¬ TwoNumbers s) :
    ∃ app', decodeDetail e data krc app = some (.kEinternal, app') := by
  rw [← sscanfInts_two_iff] at h
  rw [decodeDetail, hs, Option.bind_eq_bind, Option.bind_some]
  rcases hl : sscanfInts s with _ | ⟨rc, _ | ⟨sig, _ | ⟨x, l⟩⟩⟩
  · exact ⟨_, rfl⟩
  · exact ⟨_, rfl⟩
  · exact absurd ⟨rc, sig, hl⟩ h
  · exact ⟨_, rfl⟩

/-- With two numbers it is not. -/
theorem decodeDetail_two (hs : dmsgString e.after data = some s) (h : TwoNumbers s) {k : KStatus}
    {app' : Kapplet} (hd : decodeDetail e data krc app = some (k, app')) : k = krc := by
  obtain ⟨rc, sig, hl⟩ := (sscanfInts_two_iff s).mpr h
  rw [decodeDetail, hs, Option.bind_eq_bind, Option.bind_some, hl] at hd
  obtain ⟨d1, -, hd⟩ := Option.bind_eq_some_iff.mp hd
  obtain ⟨d2, -, hd⟩ := Option.bind_eq_some_iff.mp hd
  obtain ⟨d3, -, hd⟩ := Option.bind_eq_some_iff.mp hd
  exact (congrArg Prod.fst (Option.some.inj hd)).symm

/-- A string that is the message of the form up to its last part. -/
theorem decodeDetail_form (hn : IsDecimal n rc) (hn' : IsDecimal n' sig) (hm : colon ∉ mesg)
    (hdata : data = n ++ colon :: (n' ++ colon :: (mesg ++ colon :: out)))
    (hs : dmsgString e.after data = some (n ++ colon :: (n' ++ colon :: (mesg ++ colon :: o)))) :
    decodeDetail e data krc app = some (krc,
      { app with
        kaRc := rc
        kaSig := sig
        kaStdout := if e.stdout then some o else none
        kaStdoutlen := uint32 (out.length : ℤ) }) := by
  have hlen : (data.length : ℤ) -
      ((n ++ colon :: (n' ++ colon :: (mesg ++ colon :: o))).length - o.length : ℕ) =
        out.length := by
    rw [hdata]
    simp only [List.length_append, List.length_cons]
    omega
  rw [decodeDetail, hs, Option.bind_eq_bind, Option.bind_some, sscanfInts_form hn hn']
  dsimp only
  rw [pastColon_append (colon_notMem_decimal hn), Option.bind_some,
    pastColon_append (colon_notMem_decimal hn'), Option.bind_some, pastColon_append hm,
    Option.bind_some, hlen]

/-- A string that ends before the third colon. -/
theorem decodeDetail_short (hn : IsDecimal n rc) (hn' : IsDecimal n' sig) (hm : colon ∉ mesg)
    (hs : dmsgString e.after data = some (n ++ colon :: (n' ++ colon :: mesg))) :
    decodeDetail e data krc app = none := by
  rw [decodeDetail, hs, Option.bind_eq_bind, Option.bind_some, sscanfInts_form hn hn']
  dsimp only
  rw [pastColon_append (colon_notMem_decimal hn), Option.bind_some,
    pastColon_append (colon_notMem_decimal hn'), Option.bind_some, pastColon_eq_none hm]
  rfl

/-- Nothing in front of the message of the form ends the string. -/
theorem zero_notMem_front (hn : IsDecimal n rc) (hn' : IsDecimal n' sig) (hr : 0 ∉ r) :
    0 ∉ n ++ colon :: (n' ++ colon :: r) := by
  simp only [List.mem_append, List.mem_cons, not_or]
  exact ⟨zero_notMem_decimal hn, by decide, zero_notMem_decimal hn', by decide, hr⟩

/-- The message of the form, with a zero in its third part, ends there. -/
theorem dmsgString_zero (hn : IsDecimal n rc) (hn' : IsDecimal n' sig) (h0 : 0 ∉ mesg)
    (after : List Byte) :
    dmsgString after (n ++ colon :: (n' ++ colon :: (mesg ++ 0 :: r))) =
      some (n ++ colon :: (n' ++ colon :: mesg)) := by
  have hassoc : n ++ colon :: (n' ++ colon :: (mesg ++ 0 :: r)) ++ after =
      n ++ colon :: (n' ++ colon :: mesg) ++ 0 :: (r ++ after) := by
    simp only [List.append_assoc, List.cons_append]
  rw [dmsgString, if_neg (by simp), hassoc, cstr_append_zero (zero_notMem_front hn hn' h0)]

/-- Without one it goes on behind the message. -/
theorem dmsgString_form (hn : IsDecimal n rc) (hn' : IsDecimal n' sig) (hm : 0 ∉ mesg)
    (ho : 0 ∉ out) (after : List Byte) :
    dmsgString after (n ++ colon :: (n' ++ colon :: (mesg ++ colon :: out))) =
      (cstr after).map fun x => n ++ colon :: (n' ++ colon :: (mesg ++ colon :: (out ++ x))) := by
  have hrest : 0 ∉ mesg ++ colon :: out := by
    simp only [List.mem_append, List.mem_cons, not_or]
    exact ⟨hm, by decide, ho⟩
  rw [dmsgString, if_neg (by simp), cstr_append (zero_notMem_front hn hn' hrest)]
  simp only [List.append_assoc, List.cons_append]

theorem uint32_length_iff (l : List Byte) :
    uint32 (l.length : ℤ) = l.length ↔ l.length < 2 ^ 32 := by
  unfold uint32
  omega

/-- The fields of a message of the form, with the string that the memory makes of it. -/
theorem form_stored_iff (h : Documented data rc sig mesg out) :
    (∀ krc text app, ∃ k app',
      extractExecResponse e (withTexts krc text data) app = some (k, app') ∧ app'.kaRc = rc ∧
        app'.kaSig = sig ∧ app'.kaStdout = some out ∧ app'.kaStdoutlen = out.length) ↔
      0 ∉ mesg ∧ e.after.head? = some 0 ∧ e.stdout = true ∧ out.length < 2 ^ 32 := by
  obtain ⟨n, n', hn, hn', hm, ho, hdata⟩ := h
  simp only [extractExecResponse_withTexts]
  by_cases h0 : 0 ∈ mesg
  · refine iff_of_false (fun hall => ?_) fun h => h.1 h0
    obtain ⟨m1, m2, rfl, hm1⟩ := List.eq_append_cons_of_mem h0
    have hs : dmsgString e.after data = some (n ++ colon :: (n' ++ colon :: m1)) := by
      rw [hdata, List.append_assoc, List.cons_append]
      exact dmsgString_zero hn hn' hm1 e.after
    have hm' : colon ∉ m1 := fun hmem => hm (List.mem_append_left _ hmem)
    obtain ⟨k, app', hd, -⟩ := hall .kOk [] {}
    rw [decodeDetail_short hn hn' hm' hs] at hd
    cases hd
  · rw [and_iff_right h0]
    have hs := dmsgString_form hn hn' h0 ho e.after
    rw [← hdata] at hs
    cases hx : cstr e.after with
    | none =>
      rw [hx, Option.map_none] at hs
      refine iff_of_false (fun hall => ?_) fun h => ?_
      · obtain ⟨k, app', hd, -⟩ := hall .kOk [] {}
        rw [decodeDetail, hs] at hd
        cases hd
      · rw [cstr_eq_nil_iff.mpr h.1] at hx
        cases hx
    | some x =>
      rw [hx, Option.map_some] at hs
      have hd : ∀ krc app, decodeDetail e data krc app = some (krc, _) :=
        fun _ _ => decodeDetail_form hn hn' hm hdata hs
      have hhead : e.after.head? = some 0 ↔ x = [] := by
        rw [← cstr_eq_nil_iff, hx, Option.some.injEq]
      rw [hhead, ← uint32_length_iff]
      constructor
      · intro hall
        obtain ⟨k, app', hd', -, -, hstdout, hlen⟩ := hall .kOk [] {}
        rw [hd, Option.some.injEq, Prod.mk.injEq] at hd'
        obtain ⟨-, rfl⟩ := hd'
        dsimp only at hstdout hlen
        split_ifs at hstdout with hdup
        exact ⟨List.append_right_eq_self.mp (Option.some.inj hstdout), hdup, hlen⟩
      · rintro ⟨rfl, hdup, hlen⟩ krc text app
        refine ⟨krc, _, hd krc _, rfl, rfl, ?_, hlen⟩
        simp [hdup]

/-- A message of another form is refused just if a zero ends it, and there are no two numbers in
front of that. -/
theorem others_refused_iff (h : ∀ rc sig mesg out, ¬ Documented data rc sig mesg out) :
    OthersRefused data ↔ 0 ∈ data ∧ ¬ TwoNumbers (data.takeWhile (· ≠ 0)) := by
  have hstring : 0 ∈ data → ∀ after, dmsgString after data = some (data.takeWhile (· ≠ 0)) := by
    intro h0 after
    have hne : data ≠ [] := List.ne_nil_of_mem h0
    rw [dmsgString, if_neg hne, cstr_append_of_mem h0, cstr, if_pos h0]
  unfold OthersRefused
  simp only [extractExecResponse_withTexts]
  constructor
  · intro hall
    obtain ⟨k, app', hd, hk⟩ := hall h { after := [] } .kOk [] {}
    have h0 : 0 ∈ data := by
      by_contra h0
      have hnone : dmsgString [] data = none := by
        rw [dmsgString, List.append_nil, cstr_eq_none h0, ite_self]
      rw [decodeDetail, hnone] at hd
      cases hd
    exact ⟨h0, fun htwo => hk (decodeDetail_two (hstring h0 []) htwo hd)⟩
  · rintro ⟨h0, htwo⟩ - e krc text app
    obtain ⟨app', hd⟩ : ∃ app', decodeDetail e data krc
        { app with kaMsg := if e.msg then some text else none } = some (.kEinternal, app') :=
      decodeDetail_refused (hstring h0 e.after) htwo
    exact ⟨.kEinternal, app', hd, by decide⟩

/-- **When a detailed message is taken apart as documented**: if it has the form, a zero has to stand
right behind it in the memory and none in its third part, and its last part has to be copied and
counted in 32 bits; if not, a zero has to end it, with no two numbers in front of that. -/
theorem exec_detail_iff (e : ExecMem) (data : List Byte) :
    FormStored e data ∧ OthersRefused data ↔
      (∀ rc sig mesg out, Documented data rc sig mesg out →
        0 ∉ mesg ∧ e.after.head? = some 0 ∧ e.stdout = true ∧ out.length < 2 ^ 32) ∧
      ((∀ rc sig mesg out, ¬ Documented data rc sig mesg out) →
        0 ∈ data ∧ ¬ TwoNumbers (data.takeWhile (· ≠ 0))) := by
  refine and_congr ?_ ?_
  · exact forall₄_congr fun rc sig mesg out => forall_congr' fun h => form_stored_iff h
  · constructor
    · intro hrefused hno
      exact (others_refused_iff hno).mp hrefused
    · intro hcond hno
      exact (others_refused_iff hno).mpr (hcond hno) hno

/-- `0:0:ok:hi` -/
def okHi : List Byte := [48, 58, 48, 58, 111, 107, 58, 104, 105]

theorem isDecimal_zero : IsDecimal [48] 0 := by
  refine ⟨false, [], [48], rfl, rfl, ⟨List.cons_ne_nil _ _, fun b hb => ?_⟩, rfl, ?_⟩
  · obtain rfl := List.mem_singleton.mp hb
    rfl
  · exact ⟨by norm_num, by norm_num⟩

theorem okHi_documented : Documented okHi 0 0 [111, 107] [104, 105] :=
  ⟨[48], [48], isDecimal_zero, isDecimal_zero, by decide, by decide, rfl⟩

/-- **The output runs on** into what stands behind the message, where `!` follows; and a message of
no bytes is followed to the address zero. -/
theorem okHi_runs_on :
    ¬ (FormStored { after := [33, 0] } okHi ∧ OthersRefused okHi) ∧
      ¬ (FormStored { after := [0] } [] ∧ OthersRefused []) := by
  constructor
  · rintro ⟨hform, -⟩
    have hcond := (form_stored_iff okHi_documented).mp (hform 0 0 _ _ okHi_documented)
    exact absurd hcond.2.1 (by decide)
  · rintro ⟨-, hothers⟩
    have hno : ∀ rc sig mesg out, ¬ Documented [] rc sig mesg out := by
      rintro rc sig mesg out ⟨n, n', -, -, -, -, hdata⟩
      exact absurd hdata (by simp)
    have hmem := ((others_refused_iff hno).mp hothers).1
    exact absurd hmem (by decide)

/-- **A message of the form that a zero ends** is taken apart as the model of the responses says. -/
theorem extractExecResponse_form (h : Documented data rc sig mesg out) (h0 : 0 ∉ mesg)
    (hafter : e.after.head? = some 0) (hmsg : e.msg = true) (hdup : e.stdout = true)
    (hlen : out.length < 2 ^ 32) (krc : KStatus) (text : List Byte) (app : Kapplet) :
    extractExecResponse e (withTexts krc text data) app =
      some (Kinetic.extractExecResponse
        (.cmd
          { status := some krc
            body := some { statusmessage := text, detailedmessage := .full rc sig out } }) app) := by
  obtain ⟨n, n', hn, hn', hm, ho, hdata⟩ := h
  have hs := dmsgString_form hn hn' h0 ho e.after
  rw [cstr_eq_nil_iff.mpr hafter, ← hdata, Option.map_some] at hs
  have hout : out.takeWhile (· ≠ 0) = out := by
    rw [List.takeWhile_eq_self_iff]
    intro x hx
    have hne : x ≠ 0 := fun h => ho (h ▸ hx)
    simpa using hne
  refine (decodeDetail_form hn hn' hm hdata hs).trans ?_
  simp only [Kinetic.extractExecResponse, hmsg, hdup, if_true, (uint32_length_iff out).mpr hlen,
    List.append_nil, hout]

end Detail

end Libkinetic.Kinetic.ExecText
