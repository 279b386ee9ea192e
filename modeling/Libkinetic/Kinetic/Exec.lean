import Libkinetic.Kinetic.Get
import Libkinetic.Kinetic.Complete

/-! # Execs

`e_exec_aio_generic` asks the server to run an applet that is stored under a list of keys, and
`e_exec_aio_complete` takes its results: the exit code, the signal and the output, which the server
puts into the detailed message of the status. -/

namespace Libkinetic.Kinetic

/-- `kfn_t`; the caller may leave any number there. -/
inductive Kfn
  | kfNative | kfLlvmir | kfJava | kfEbpf
  | other (z : ℤ)
deriving DecidableEq

/-- `kapplet_t`; arrays with their counts are lists, `none` for null. -/
structure Kapplet where
  kaFnkey : Option (List (Option Kv)) := none
  kaFntype : Kfn := .other 0
  kaFlags : ℕ := 0
  kaArgv : List (List Byte) := []
  kaOutkey : Option Kv := none
  kaRc : ℤ := 0
  kaSig : ℤ := 0
  kaMsg : Option (List Byte) := none
  kaStdout : Option (List Byte) := none
  kaStdoutlen : ℕ := 0
deriving DecidableEq

/-- `KAF_VALIDMASK` has no bit set. -/
def kafValidmask (flags : ℕ) : Bool := flags == 0

/-- `ki_validate_kapplet` does not fail. -/
def kiValidateKapplet (app : Option Kapplet) (lim : Klimits) : Bool :=
  app.any fun app =>
    (app.kaFnkey.any fun fnkey =>
      decide (1 ≤ fnkey.length) &&
        fnkey.all fun kv => kv.any fun kv => kiValidateKv kv false false lim) &&
    (match app.kaFntype with | .other _ => false | _ => true) &&
    kafValidmask app.kaFlags &&
    app.kaOutkey.all fun kv => kiValidateKv kv false true lim

/-! ### The request -/

/-- `kproto_kapplet_t` in a request: an execution, acknowledged on completion. -/
structure KprotoKapplet where
  programkey : List Key
  lang : Kfn
  programparam : List (List Byte)
  outputkey : Option Key
  setvalueinresponse : Option Bool
deriving DecidableEq

/-- `strncpy` of a whole buffer: what follows a zero byte is not copied. -/
def strncpy (b : List Byte) : List Byte :=
  let s := b.takeWhile (· ≠ 0)
  s ++ List.replicate (b.length - s.length) 0

/-- The elements of a key, copied one after the other. -/
def copyKey (kv : Kv) : Key := ((fragments (kv.kvKey.getD [])).map strncpy).flatten

/-- `create_exec_message`; `key` says if the buffers for the keys are there. Without the array for
the keys of the function the code follows a null pointer, so that it is taken to be there. -/
def createExecMessage (m : MsgEnv) (hdr : Kcmdhdr) (app : Kapplet) :
    Option (Request KprotoKapplet) :=
  match (app.kaFnkey.getD []).mapM id with
  | none => none
  | some fnkey =>
    if ¬ m.key then none
    else
      createMessage m
        { hdr
          body :=
            { programkey := fnkey.map copyKey
              lang := app.kaFntype
              programparam := app.kaArgv
              outputkey := app.kaOutkey.map copyKey
              setvalueinresponse := app.kaOutkey.map fun _ => true } }

/-- **`e_exec_aio_generic`**: the request with the applet and the bytes that are sent, or the status
with what it does to the statistics. -/
def eExecAioGeneric (e : IssueEnv) (ses : Ksession) (app : Option Kapplet) :
    Except (KStatus × List KopEv) (Request KprotoKapplet × ℕ) :=
  if ¬ e.config then .error (.kEbadsess, [])
  else if ¬ kiValidateKapplet app ses.ksL then .error (.kEinval, [.err])
  else
    let kmreq := app.bind fun app =>
      createExecMessage e.message { ses.ksCh with kchType := .kmtApplet } app
    match buildKio e kmreq .kEinternal with
    | .error krc => .error (krc, [.err])
    | .ok (cmd, msglen) =>
      if ¬ e.send then .error (.kEinternal, [.err]) else .ok (cmd, kpPlength + msglen)

/-! ### The response -/

/-- What `sscanf` and the search for the colons find in a detailed message; one with two numbers has
its three colons. -/
inductive Detail
  | bad
  /-- The first number only. -/
  | rcOnly (rc : ℤ)
  | full (rc sig : ℤ) (out : List Byte)
deriving DecidableEq

/-- The texts of a status. -/
structure ExecStatus where
  statusmessage : List Byte
  detailedmessage : Detail
deriving DecidableEq

/-- `extract_exec_response`; the body stands for the texts of the status, if both are set. -/
def extractExecResponse (m : RespMsg ExecStatus) (app : Kapplet) : KStatus × Kapplet :=
  match m with
  | .nocmd => (.kEinternal, app)
  | .badcmd => (.kEinternal, app)
  | .cmd c =>
    match c.status, c.body with
    | some krc, some status =>
      let app := { app with kaMsg := some status.statusmessage }
      match status.detailedmessage with
      | .bad => (.kEinternal, app)
      | .rcOnly rc => (.kEinternal, { app with kaRc := rc })
      | .full rc sig out =>
        (krc,
          { app with
            kaRc := rc
            kaSig := sig
            kaStdout := some (out.takeWhile (· ≠ 0))
            kaStdoutlen := out.length })
    | _, _ => (.kEinternal, app)

/-- The value is hung on the output key, and released if the exec failed. -/
def execExtract (val : Option (List Byte)) (m : RespMsg ExecStatus) (app : Kapplet) :
    KStatus × Kapplet :=
  let (krc, app) :=
    extractExecResponse m { app with kaOutkey := app.kaOutkey.map (hangVal val) }
  if krc ≠ .kOk ∧ val.isSome then (krc, { app with kaOutkey := app.kaOutkey.map releaseVal })
  else (krc, app)

/-- **`e_exec_aio_complete`**; no lengths of keys and values are kept for execs. -/
def eExecAioComplete (a : Answer ExecStatus) (ses : Ksession) (sendlen : ℕ) (app : Kapplet) :
    Done Kapplet :=
  aioDone .execs ses sendlen a.recvlen (fun _ => (0, 0)) (readResponse (execExtract a.val) app) app
    a.completion

end Libkinetic.Kinetic
