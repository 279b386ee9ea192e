import Libkinetic.Base.Ints
import Mathlib.Data.List.Lex

/-! # Types of the kinetic layer

Keys, statuses, server limits, and what comes back for a request. -/

namespace Libkinetic.Kinetic

/-! ### Machine integers -/

/-- The conversion to `int32_t`. -/
def int32 (z : ℤ) : ℤ := z.bmod (2 ^ 32)

/-- The conversion to `uint32_t`. -/
def uint32 (z : ℤ) : ℕ := (z % 2 ^ 32).toNat

theorem int32_of_lt {n : ℕ} (h : n < 2 ^ 31) : int32 n = n := by
  unfold int32
  refine Int.bmod_eq_of_le ?_ ?_
  · omega
  · omega

theorem uint32_of_lt {n : ℕ} (h : n < 2 ^ 32) : uint32 n = n := by
  unfold uint32
  omega

/-! ### Keys -/

abbrev Byte := Fin 256

/-- Keys are ordered by their bytes, a proper prefix first. -/
abbrev Key := List Byte

/-- An array of `struct kiovec` and its count; the key it stands for is the concatenation. In the
list of keys of a range each element is a key of its own. -/
abbrev Keyvec := List Key

/-- `keyname_to_proto`: `alloc` says if it gets a buffer, and `none` is its failure. -/
def keynameToProto (alloc : Bool) (keynames : Option Keyvec) : Option Key :=
  match keynames with
  | none => none
  | some keynames => if alloc then some keynames.flatten else none

theorem keynameToProto_true (keynames : Option Keyvec) :
    keynameToProto true keynames = keynames.map List.flatten := by
  cases keynames <;> rfl

/-! ### Statuses -/

/-- `kstatus_t` -/
inductive KStatus
  | kInvalidSc
  | kErejected | kOk | kEhmac | kEaccess | kEversion | kEinternal | kEnoheader | kEnotfound
  | kEbadvers | kEbusy | kEtimedout | kEdata | kEpermdata | kEp2pconn | kEnospace | kEnohmac
  | kEinval | kEp2p | kElocked | kEnotlocked | kEconnaborted | kEinvalbat | kEhibernate | kEshutdown
  | kEagain | kEnomsg | kEnomem | kEbadsess | kEbatch
deriving DecidableEq

/-! ### Commands -/

/-- `kmtype_t` -/
inductive Kmtype
  | kmtInvalid | kmtGet | kmtPut | kmtDel | kmtGetnext | kmtGetprev | kmtGetrange | kmtGetvers
  | kmtSetup | kmtGetlog | kmtSecurity | kmtPushp2p | kmtNoop | kmtFlush | kmtPinop | kmtScanmedia
  | kmtOptmedia | kmtStartbat | kmtEndbat | kmtAbortbat | kmtSetpower | kmtApplet
deriving DecidableEq

/-- `kcmdhdr_t` -/
structure Kcmdhdr where
  kchClustvers : ℤ := 0
  kchConnid : ℤ := 0
  kchSeq : ℕ := 0
  kchAckseq : ℕ := 0
  kchType : Kmtype := .kmtInvalid
  kchTimeout : ℕ := 0
  kchPri : ℕ := 0
  kchQuanta : ℕ := 0
  kchQexit : ℤ := 0
  kchBid : ℕ := 0
deriving DecidableEq

/-- A request: the command's header, and what the operation puts into the body. -/
structure Request (β : Type*) where
  hdr : Kcmdhdr
  body : β
deriving DecidableEq

/-! ### Limits -/

/-- `klimits_t`, as far as the modelled functions read it. -/
structure Klimits where
  klKeylen : ℕ
  klVallen : ℕ
  klVerlen : ℕ
  klDisumlen : ℕ
  klBatlen : ℕ
  klRangekeycnt : ℕ
  klBatopscnt : ℕ
  klBatdelcnt : ℕ
  klDevbatcnt : ℕ

/-- The limits of a small server, which allows one batch. -/
def smallLimits : Klimits :=
  { klKeylen := 16, klVallen := 64, klVerlen := 8, klDisumlen := 20, klBatlen := 256,
    klRangekeycnt := 10, klBatopscnt := 4, klBatdelcnt := 2, klDevbatcnt := 1 }

/-! ### Responses -/

/-- A command as `unpack_kinetic_command` gives it: its status code and, if the slot of the body
that the operation reads is set, what is there. -/
structure RespCmd (β : Type*) where
  status : Option KStatus
  body : Option β
deriving DecidableEq

/-- A response message. -/
inductive RespMsg (β : Type*)
  /-- It has no command bytes. -/
  | nocmd
  /-- The command bytes do not unpack. -/
  | badcmd
  | cmd (c : RespCmd β)
deriving DecidableEq

/-- What becomes of the kio of a request. -/
inductive Resp (β : Type*)
  /-- `ktli_receive` fails for another reason than that the kio is not there yet. -/
  | lost
  | timedout
  | failed
  /-- The PDU has the wrong length, or does not fit the message. -/
  | badpdu
  /-- The message does not unpack. -/
  | badmsg
  | msg (m : RespMsg β)
deriving DecidableEq

/-- What the environment answers when a request is completed. -/
inductive Completion (β : Type*)
  /-- `ktli_config` does not find the session. -/
  | noConfig
  /-- The kio is not available yet. -/
  | notYet
  | resp (r : Resp β)
deriving DecidableEq

/-- `extract_cmdstatus_code` -/
def extractCmdstatusCode {β : Type*} (c : RespCmd β) : KStatus := c.status.getD .kEinternal

end Libkinetic.Kinetic
