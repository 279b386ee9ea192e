import Libkinetic.Kinetic.Complete

/-! # Puts

`p_put_aio_generic`: a put, alone or in a batch. In a batch it is counted before the limits of the
batch are checked and before it is sent. `p_put_aio_complete` takes the response. -/

namespace Libkinetic.Kinetic

/-- `create_put_message` -/
def createPutMessage (m : MsgEnv) (hdr : Kcmdhdr) (kv : Kv) (shouldforce : Bool) :
    Option (Request KprotoKv) :=
  match keynameToProto m.key (kv.kvKey.map fragments) with
  | none => none
  | some key =>
    let versions := kv.kvNewver.isSome || kv.kvVer.isSome
    createMessage m
      { hdr
        body :=
          { key
            newversion := if versions then setBytesOptional kv.kvNewver else none
            dbversion := if versions then setBytesOptional kv.kvVer else none
            force := shouldforce
            synchronization := kv.kvCpolicy
            algorithm := kv.kvDitype
            tag := setBytesOptional kv.kvDisum } }

/-- The bytes are those of the message and of the value. -/
def countPut (kb : Kb) (msglen : ℕ) (val : List Valbuf) : Kb :=
  { kb with
    kbOps := uint32 (kb.kbOps + 1)
    kbBytes := uint32 (kb.kbBytes + (msglen + valLen val)) }

/-- The batch with the put counted is in the limits. -/
def putFits (lim : Klimits) (kb : Kb) : Bool :=
  !(overLimit lim.klBatlen kb.kbBytes) && !(overLimit lim.klBatopscnt kb.kbOps)

def putMessage := kvMessage createPutMessage .kmtPut

/-- **`p_put_aio_generic`** -/
def pPutAioGeneric (e : IssueEnv) (ses : Ksession) (kv : Kv) (kb : Option Kb) (verck : Bool) :
    KvIssue :=
  match putMessage e ses kv kb verck with
  | .error (krc, events) => { krc, kb, events }
  | .ok (cmd, msglen) =>
    let val := kv.kvVal.getD []
    let kb := kb.map fun kb => countPut kb msglen val
    if ¬ kb.all (putFits ses.ksL) then { krc := .kEbatch, kb, events := [.err] }
    else if ¬ e.send then { krc := .kEinternal, kb, events := [.err] }
    else { krc := .kOk, kb, req := some { cmd, val } }

/-- `extract_putkey` -/
def extractPutkey : RespMsg KprotoKv → Kv → KStatus × Kv := extractEcho

/-- **`p_put_aio_complete`** -/
def pPutAioComplete (a : Answer KprotoKv) (ses : Ksession) (sendlen : ℕ) (kv : Kv)
    (kb : Option Kb) : Done Kv :=
  kvAioComplete .puts extractPutkey a ses sendlen kv kb

end Libkinetic.Kinetic
