import Libkinetic.Kinetic.Complete

/-! # Deletes

`d_del_aio_generic`: a delete, alone or in a batch. In a batch it is counted as an operation and as
a delete, again before the limits are checked and before it is sent. -/

namespace Libkinetic.Kinetic

/-- `create_delkey_message`: the test for the failure of `keyname_to_proto` is for a negative
result, and it returns 0. -/
def createDelkeyMessage (m : MsgEnv) (hdr : Kcmdhdr) (kv : Kv) (shouldforce : Bool) :
    Option (Request KprotoKv) :=
  createMessage m
    { hdr
      body :=
        { key := keynameToProto m.key (kv.kvKey.map fragments)
          dbversion := setBytesOptional kv.kvVer
          force := shouldforce
          synchronization := kv.kvCpolicy } }

/-- The bytes are those of the message. -/
def countDel (kb : Kb) (msglen : ℕ) : Kb :=
  { kb with
    kbOps := uint32 (kb.kbOps + 1)
    kbDels := uint32 (kb.kbDels + 1)
    kbBytes := uint32 (kb.kbBytes + msglen) }

/-- The batch with the delete counted is in the limits. -/
def delFits (lim : Klimits) (kb : Kb) : Bool :=
  !(overLimit lim.klBatlen kb.kbBytes) && !(overLimit lim.klBatopscnt kb.kbOps) &&
    !(overLimit lim.klBatdelcnt kb.kbDels)

def delMessage := kvMessage createDelkeyMessage .kmtDel

/-- **`d_del_aio_generic`** -/
def dDelAioGeneric (e : IssueEnv) (ses : Ksession) (kv : Kv) (kb : Option Kb) (verck : Bool) :
    KvIssue :=
  match delMessage e ses kv kb verck with
  | .error (krc, events) => { krc, kb, events }
  | .ok (cmd, msglen) =>
    let kb := kb.map fun kb => countDel kb msglen
    if ¬ kb.all (delFits ses.ksL) then { krc := .kEbatch, kb, events := [.err] }
    else if ¬ e.send then { krc := .kEinternal, kb, events := [.err] }
    else { krc := .kOk, kb, req := some { cmd } }

/-- `extract_delkey` -/
def extractDelkey : RespMsg KprotoKv → Kv → KStatus × Kv := extractEcho

/-- **`d_del_aio_complete`** -/
def dDelAioComplete (a : Answer KprotoKv) (ses : Ksession) (sendlen : ℕ) (kv : Kv)
    (kb : Option Kb) : Done Kv :=
  kvAioComplete .dels extractDelkey a ses sendlen kv kb

end Libkinetic.Kinetic
