import Libkinetic.Kinetic.Del
import Libkinetic.Kinetic.Getlog

/-! # Who destroys an unpacked command

`extract_getlog` and `extract_delkey` store the command that they unpack in the caller's structure,
together with a hook that destroys it. An extraction that fails destroys the command at once and
leaves the hook, which `ki_getlog` and `ki_open` then call: the command is destroyed twice. Without
a command the hook was not set, and is called all the same. -/

namespace Libkinetic.Kinetic

/-- What happens to the hook of a structure and to the command behind it. -/
inductive OwnEv
  /-- The extraction sets the hook. -/
  | set
  /-- The command is destroyed. -/
  | destroy
  /-- The hook is called. -/
  | call
deriving DecidableEq

/-- **The command is destroyed at most once**, and the hook is called only after it was set. -/
structure Owned (log : List OwnEv) : Prop where
  once : log.count .destroy ≤ 1
  after : ∀ pre, pre ++ [.call] <+: log → .set ∈ pre

/-- A command was unpacked. -/
def setEv {β : Type*} : RespMsg β → List OwnEv
  | .nocmd => []
  | .badcmd => []
  | .cmd _ => [.set]

/-! ### Getlogs -/

def GetlogEv.own : GetlogEv → List OwnEv
  | .destroyCommand _ => [.destroy]
  | _ => []

/-- A call of the hook. -/
def callHook (g : Kgetlog) : List OwnEv := .call :: (destroyProtobuf g).flatMap GetlogEv.own

/-- **`extract_getlog`** with its log. -/
def extractGetlogOwn (alloc : GetlogAlloc) (mem : GetlogMem) (m : RespMsg KprotoGetlog)
    (g : Kgetlog) : KStatus × Kgetlog × List OwnEv :=
  let (krc, g, events) := extractGetlog alloc mem m g
  (krc, g, setEv m ++ events.flatMap GetlogEv.own)

/-- **`ki_getlog`**, and the later call of the hook. -/
def getlogOwn (alloc : GetlogAlloc) (mem : GetlogMem) : Resp KprotoGetlog → List OwnEv
  | .msg m =>
    let (krc, glog2, log) := extractGetlogOwn alloc mem m mem.glog2
    let glog := glog2
    -- the caller's structure is a copy, and its hook is called later
    if krc = .kOk then log ++ callHook glog else log ++ callHook glog2
  | _ => []

/-- **`ki_open`**: the message, if the bytes unpack, and whether `extract_cmdhdr` comes back. The
structure is on the stack, and filled with zeros. -/
def openOwn (alloc : GetlogAlloc) (mem : GetlogMem) (cmdhdr : Bool) :
    Option (RespMsg KprotoGetlog) → List OwnEv
  | none => []
  | some m =>
    let (krc, glog, log) := extractGetlogOwn alloc mem m {}
    if krc = .kOk ∧ ¬ cmdhdr then log else log ++ callHook glog

/-! ### Deletes -/

/-- **`extract_delkey`** -/
def extractDelkeyOwn (m : RespMsg KprotoKv) : List OwnEv :=
  match m with
  | .nocmd => []
  | .badcmd => []
  | .cmd c =>
    .set ::
      if extractCmdstatusCode c ≠ .kOk then [.destroy]
      else
        match c.body with
        | none => [.destroy]
        | some _ => []

/-- The extraction, and the later call of the hook if it set that. -/
def delkeyOwn (m : RespMsg KprotoKv) : List OwnEv :=
  extractDelkeyOwn m ++ if OwnEv.set ∈ extractDelkeyOwn m then [.call, .destroy] else []

/-! ### Extractions that succeed -/

/-- **The response to a getlog can be extracted**: the command unpacks, its status is `K_OK`, the
log is there, and the arrays can be allocated. -/
def Extracts (alloc : GetlogAlloc) (m : RespMsg KprotoGetlog) : Prop :=
  ∃ c resp, m = .cmd c ∧ c.status = some .kOk ∧ c.body = some resp ∧ ArraysAllocated alloc resp

section Extraction
variable {alloc : GetlogAlloc} {mem : GetlogMem} {m : RespMsg KprotoGetlog} {g : Kgetlog}

theorem extractCmdstatusCode_ok {β : Type*} {c : RespCmd β} :
    extractCmdstatusCode c = .kOk ↔ c.status = some .kOk := by
  unfold extractCmdstatusCode
  cases c.status <;> simp

/-- The command and the hook of a structure. -/
def Kgetlog.owner (g : Kgetlog) : Ptr (RespCmd KprotoGetlog) × Ptr GetlogDestructor :=
  (g.kglProtobuf, g.destroyProtobuf)

/-- Those of the structure that a step leaves. -/
def ownerLeft : Except Kgetlog Kgetlog → Ptr (RespCmd KprotoGetlog) × Ptr GetlogDestructor
  | .ok g => g.owner
  | .error g => g.owner

theorem ownerLeft_bind {x : Except Kgetlog Kgetlog} {f : Kgetlog → Except Kgetlog Kgetlog}
    (hf : ∀ g, ownerLeft (f g) = g.owner) : ownerLeft (x >>= f) = ownerLeft x := by
  cases x with
  | error g => rfl
  | ok g => exact hf g

/-- Command and hook stay through an extraction. -/
theorem ownerLeft_extractBody (alloc : GetlogAlloc) (mem : GetlogMem) (resp : KprotoGetlog)
    (g : Kgetlog) : ownerLeft (extractBody alloc mem resp g) = g.owner := by
  have hutil : ∀ g, ownerLeft (extractUtilizations alloc.util mem.util resp.utilizations g) =
      g.owner := by
    intro g
    unfold extractUtilizations
    dsimp only
    split <;> rfl
  have htemp : ∀ g, ownerLeft (extractTemperatures alloc.temp mem.temp resp.temperatures g) =
      g.owner := by
    intro g
    unfold extractTemperatures
    dsimp only
    split <;> rfl
  have hstat : ∀ g, ownerLeft (extractStatistics alloc.stat mem.stat resp.statistics g) =
      g.owner := by
    intro g
    unfold extractStatistics
    dsimp only
    split <;> rfl
  have hconf : ∀ g, ownerLeft (extractConfiguration alloc mem.interface resp.configuration g) =
      g.owner := by
    intro g
    unfold extractConfiguration
    split
    · rfl
    · dsimp only
      split <;> rfl
  unfold extractBody
  dsimp only
  rw [ownerLeft_bind, hutil]
  · rfl
  intro g
  rw [ownerLeft_bind, htemp]
  intro g
  rw [ownerLeft_bind, hstat]
  intro g
  rw [ownerLeft_bind, hconf]
  · rw [extractCapacity_eq]
    rfl
  · intro g
    show (extractDevice _ resp).owner = _
    rw [extractDevice_eq, extractLimits_eq]
    rfl

/-- The structure with the command and the hook stored in it. -/
def hooked (g : Kgetlog) (c : RespCmd KprotoGetlog) : Kgetlog :=
  { g with kglProtobuf := .ref c, destroyProtobuf := .ref .destroyProtobufGetlog }

/-- The body is extracted if its arrays can be allocated, and only then. -/
theorem extractBody_hooked (alloc : GetlogAlloc) (mem : GetlogMem) (c : RespCmd KprotoGetlog)
    (resp : KprotoGetlog) (g : Kgetlog) :
    ∃ g', g'.owner = (.ref c, .ref .destroyProtobufGetlog) ∧
      (ArraysAllocated alloc resp ∧ extractBody alloc mem resp (hooked g c) = .ok g' ∨
        ¬ ArraysAllocated alloc resp ∧ extractBody alloc mem resp (hooked g c) = .error g') := by
  have hleft := ownerLeft_extractBody alloc mem resp (hooked g c)
  by_cases h : ArraysAllocated alloc resp
  · exact ⟨_, rfl, .inl ⟨h, @extractBody_ok alloc { mem with glog2 := g } c resp h⟩⟩
  · obtain ⟨g', hg'⟩ := extractBody_error h mem (hooked g c)
    rw [hg'] at hleft
    exact ⟨g', hleft, .inr ⟨h, hg'⟩⟩

theorem extractGetlog_cmd (alloc : GetlogAlloc) (mem : GetlogMem) (c : RespCmd KprotoGetlog)
    (g : Kgetlog) : extractGetlog alloc mem (.cmd c) g =
      if extractCmdstatusCode c ≠ .kOk then
        (extractCmdstatusCode c, hooked g c, destroyProtobufGetlog (hooked g c))
      else
        match c.body with
        | none => (.kEinternal, hooked g c, destroyProtobufGetlog (hooked g c))
        | some resp =>
          match extractBody alloc mem resp (hooked g c) with
          | .error g => (.kEinternal, g, destroyProtobufGetlog g)
          | .ok g => (extractCmdstatusCode c, g, []) := rfl

/-- **What an extraction does** with a command: it succeeds and leaves the hook, or it fails,
destroys the command, and leaves the hook. -/
theorem extractGetlog_cases (alloc : GetlogAlloc) (mem : GetlogMem) (c : RespCmd KprotoGetlog)
    (g : Kgetlog) : ∃ krc g', g'.owner = (.ref c, .ref .destroyProtobufGetlog) ∧
      (Extracts alloc (.cmd c) ∧ krc = .kOk ∧ extractGetlog alloc mem (.cmd c) g = (krc, g', []) ∨
        ¬ Extracts alloc (.cmd c) ∧ krc ≠ .kOk ∧
          extractGetlog alloc mem (.cmd c) g = (krc, g', destroyProtobufGetlog g')) := by
  rw [extractGetlog_cmd]
  by_cases hst : extractCmdstatusCode c = .kOk
  · rw [if_neg (not_not.mpr hst)]
    cases hbody : c.body with
    | none =>
      refine ⟨.kEinternal, hooked g c, rfl, .inr ⟨?_, by decide, rfl⟩⟩
      rintro ⟨_, resp, heq, -, hb, -⟩
      cases heq
      rw [hbody] at hb
      cases hb
    | some resp =>
      obtain ⟨g', hhook, ⟨hall, hb⟩ | ⟨hall, hb⟩⟩ := extractBody_hooked alloc mem c resp g
      · refine ⟨.kOk, g', hhook, .inl ⟨?_, rfl, by simp only [hb, hst]⟩⟩
        exact ⟨c, resp, rfl, extractCmdstatusCode_ok.mp hst, hbody, hall⟩
      · refine ⟨.kEinternal, g', hhook, .inr ⟨?_, by decide, by simp only [hb]⟩⟩
        rintro ⟨_, resp', heq, -, hb', hall'⟩
        cases heq
        rw [hbody] at hb'
        cases hb'
        exact hall hall'
  · rw [if_pos hst]
    refine ⟨extractCmdstatusCode c, hooked g c, rfl, .inr ⟨?_, hst, rfl⟩⟩
    rintro ⟨_, resp, heq, hok, -, -⟩
    cases heq
    exact hst (extractCmdstatusCode_ok.mpr hok)

end Extraction

/-! ### The logs -/

section Logs
variable {alloc : GetlogAlloc} {mem : GetlogMem} {m : RespMsg KprotoGetlog} {g : Kgetlog}
  {log : List OwnEv}

theorem owned_nil : Owned [] where
  once := by simp
  after pre hpre := by simp at hpre

/-- After the hook was set only the destructions count. -/
theorem owned_set_iff : Owned (.set :: log) ↔ log.count .destroy ≤ 1 := by
  have hcount : (OwnEv.set :: log).count .destroy = log.count .destroy :=
    List.count_cons_of_ne (by decide)
  constructor
  · intro h
    exact hcount ▸ h.once
  · intro h
    refine ⟨hcount.trans_le h, fun pre hpre => ?_⟩
    cases pre with
    | nil => simp at hpre
    | cons a pre =>
      obtain ⟨rfl, -⟩ := List.cons_prefix_cons.mp hpre
      exact List.mem_cons_self

/-- The first thing is not a call of the hook. -/
theorem not_owned_call : ¬ Owned (.call :: log) := by
  intro h
  have hset := h.after [] (by simp)
  cases hset

theorem flatMap_own_freed {α : Type} [DecidableEq α] {ev : Ptr α → GetlogEv}
    (hev : ∀ p, (ev p).own = []) (p : Ptr α) : (freed ev p).flatMap GetlogEv.own = [] := by
  unfold freed
  split_ifs
  · simp [hev]
  · rfl

/-- The destructor destroys the command once. -/
theorem own_destroyProtobufGetlog (g : Kgetlog) :
    (destroyProtobufGetlog g).flatMap GetlogEv.own = [.destroy] := by
  have hown : ∀ p, (GetlogEv.destroyCommand p).own = [.destroy] := fun _ => rfl
  simp only [destroyProtobufGetlog, List.cons_append, List.flatMap_cons, List.flatMap_append, hown]
  rw [flatMap_own_freed fun _ => rfl, flatMap_own_freed fun _ => rfl,
    flatMap_own_freed fun _ => rfl, flatMap_own_freed fun _ => rfl,
    flatMap_own_freed fun _ => rfl, flatMap_own_freed fun _ => rfl]
  rfl

/-- The hook that an extraction has left is the destructor. -/
theorem destroyProtobuf_owned {c : RespCmd KprotoGetlog}
    (h : g.owner = (.ref c, .ref .destroyProtobufGetlog)) :
    destroyProtobuf g = destroyProtobufGetlog g := by
  have hhook : g.destroyProtobuf = .ref .destroyProtobufGetlog := congrArg Prod.snd h
  rw [destroyProtobuf, hhook]

theorem callHook_owned {c : RespCmd KprotoGetlog}
    (h : g.owner = (.ref c, .ref .destroyProtobufGetlog)) : callHook g = [.call, .destroy] := by
  rw [callHook, destroyProtobuf_owned h, own_destroyProtobufGetlog]

/-- **The log of an extraction**, and what a call of the hook adds. -/
theorem extractGetlogOwn_cases (alloc : GetlogAlloc) (mem : GetlogMem) (m : RespMsg KprotoGetlog)
    (g : Kgetlog) : ∃ krc g' log, extractGetlogOwn alloc mem m g = (krc, g', log) ∧
      (Extracts alloc m ∧ krc = .kOk ∧ log = [.set] ∧ callHook g' = [.call, .destroy] ∨
        ¬ Extracts alloc m ∧ krc ≠ .kOk ∧ ¬ Owned (log ++ callHook g')) := by
  cases m with
  | nocmd | badcmd =>
    refine ⟨.kEinternal, g, [], rfl, .inr ⟨?_, by decide, not_owned_call⟩⟩
    rintro ⟨_, _, heq, -⟩
    cases heq
  | cmd c =>
    obtain ⟨krc, g', hhook, ⟨hext, hk, hx⟩ | ⟨hext, hk, hx⟩⟩ := extractGetlog_cases alloc mem c g
    · exact ⟨krc, g', [.set], by simp [extractGetlogOwn, hx, setEv],
        .inl ⟨hext, hk, rfl, callHook_owned hhook⟩⟩
    · refine ⟨krc, g', [.set, .destroy], ?_, .inr ⟨hext, hk, ?_⟩⟩
      · simp [extractGetlogOwn, hx, setEv, own_destroyProtobufGetlog]
      · rw [callHook_owned hhook, List.cons_append, owned_set_iff]
        decide

theorem getlogOwn_iff (alloc : GetlogAlloc) (mem : GetlogMem) (resp : Resp KprotoGetlog) :
    Owned (getlogOwn alloc mem resp) ↔ ∀ m, resp = .msg m → Extracts alloc m := by
  match resp with
  | .lost | .timedout | .failed | .badpdu | .badmsg => exact iff_of_true owned_nil (by simp)
  | .msg m =>
    have hall : (∀ m', Resp.msg m = .msg m' → Extracts alloc m') ↔ Extracts alloc m := by simp
    rw [hall]
    obtain ⟨krc, g', log, hx, ⟨hext, hk, rfl, hcall⟩ | ⟨hext, hk, hlog⟩⟩ :=
      extractGetlogOwn_cases alloc mem m mem.glog2
    · refine iff_of_true ?_ hext
      simp only [getlogOwn, hx, hk, if_true, hcall, List.cons_append, owned_set_iff]
      decide
    · refine iff_of_false ?_ hext
      simpa only [getlogOwn, hx, if_neg hk] using hlog

theorem openOwn_iff (alloc : GetlogAlloc) (mem : GetlogMem) (cmdhdr : Bool)
    (m : Option (RespMsg KprotoGetlog)) :
    Owned (openOwn alloc mem cmdhdr m) ↔ ∀ m' ∈ m, Extracts alloc m' := by
  cases m with
  | none => exact iff_of_true owned_nil (by simp)
  | some m =>
    have hall : (∀ m' ∈ some m, Extracts alloc m') ↔ Extracts alloc m := by simp
    rw [hall]
    obtain ⟨krc, g', log, hx, ⟨hext, hk, rfl, hcall⟩ | ⟨hext, hk, hlog⟩⟩ :=
      extractGetlogOwn_cases alloc mem m {}
    · refine iff_of_true ?_ hext
      simp only [openOwn, hx, hk, hcall, List.cons_append, List.nil_append]
      split_ifs <;> simp [owned_set_iff]
    · refine iff_of_false ?_ hext
      simpa only [openOwn, hx, hk, false_and, if_false] using hlog

theorem delkeyOwn_iff (m : RespMsg KprotoKv) : Owned (delkeyOwn m) ↔
    ∀ c, m = .cmd c → c.status = some .kOk ∧ c.body.isSome = true := by
  cases m with
  | nocmd | badcmd => exact iff_of_true owned_nil (by simp)
  | cmd c =>
    have hall : (∀ c', RespMsg.cmd c = .cmd c' → c'.status = some .kOk ∧ c'.body.isSome = true) ↔
        extractCmdstatusCode c = .kOk ∧ c.body.isSome = true := by
      simp [extractCmdstatusCode_ok]
    rw [hall]
    by_cases hst : extractCmdstatusCode c = .kOk <;> cases hbody : c.body <;>
      simp [delkeyOwn, extractDelkeyOwn, hst, hbody, owned_set_iff]

/-- **When a command is destroyed at most once.** -/
theorem owned_iff (alloc : GetlogAlloc) (mem : GetlogMem) (resp : Resp KprotoGetlog) (cmdhdr : Bool)
    (status : Option (RespMsg KprotoGetlog)) (del : RespMsg KprotoKv) :
    (Owned (getlogOwn alloc mem resp) ↔ ∀ m, resp = .msg m → Extracts alloc m) ∧
    (Owned (openOwn alloc mem cmdhdr status) ↔ ∀ m ∈ status, Extracts alloc m) ∧
    (Owned (delkeyOwn del) ↔
      ∀ c, del = .cmd c → c.status = some .kOk ∧ c.body.isSome = true) :=
  ⟨getlogOwn_iff alloc mem resp, openOwn_iff alloc mem cmdhdr status, delkeyOwn_iff del⟩

/-- A server that refuses what it is asked for. -/
def refusing {β : Type*} : RespMsg β := .cmd { status := some .kEnotfound, body := none }

/-- A refused getlog and the two later ones destroy their command twice; a getlog without a command
calls a hook that was never set. -/
theorem destroyed_twice :
    getlogOwn {} zeroMem (.msg refusing) = [.set, .destroy, .call, .destroy] ∧
      openOwn {} zeroMem true (some refusing) = [.set, .destroy, .call, .destroy] ∧
      delkeyOwn refusing = [.set, .destroy, .call, .destroy] ∧
      getlogOwn {} zeroMem (.msg .nocmd) = [.call] ∧
      ¬ Owned [.set, .destroy, .call, .destroy] ∧ ¬ Owned [.call] := by
  refine ⟨by decide, by decide, by decide, by decide, ?_, not_owned_call⟩
  rw [owned_set_iff]
  decide

end Logs

end Libkinetic.Kinetic
