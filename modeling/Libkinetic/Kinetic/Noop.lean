import Libkinetic.Kinetic.Complete

/-! # Noops and flushes

`n_noop_aio_generic` and `f_flush_aio_generic` send a command without a body; the two files differ
in the type of the request and in the statistics. -/

namespace Libkinetic.Kinetic

/-- `create_noop_message` -/
def createNoopMessage (m : MsgEnv) (hdr : Kcmdhdr) : Option (Request Unit) :=
  createMessage m { hdr, body := () }

/-- `create_flush_message` -/
def createFlushMessage (m : MsgEnv) (hdr : Kcmdhdr) : Option (Request Unit) :=
  createMessage m { hdr, body := () }

/-- The request and the bytes that are sent, or the status with what it does to the statistics. -/
def plainAioGeneric (create : MsgEnv → Kcmdhdr → Option (Request Unit)) (msgType : Kmtype)
    (e : IssueEnv) (ses : Ksession) : Except (KStatus × List KopEv) (Request Unit × ℕ) :=
  if ¬ e.config then .error (.kEbadsess, [])
  else
    match buildKio e (create e.message { ses.ksCh with kchType := msgType }) .kEinternal with
    | .error krc => .error (krc, [.err])
    | .ok (cmd, msglen) =>
      if ¬ e.send then .error (.kEinternal, [.err]) else .ok (cmd, kpPlength + msglen)

/-- **`n_noop_aio_generic`** -/
def nNoopAioGeneric := plainAioGeneric createNoopMessage .kmtNoop

/-- **`f_flush_aio_generic`** -/
def fFlushAioGeneric := plainAioGeneric createFlushMessage .kmtFlush

/-- What `extract_noop` and `extract_flush` do. -/
def extractPlain (m : RespMsg Unit) : KStatus :=
  match m with
  | .nocmd => .kEinternal
  | .badcmd => .kEinternal
  | .cmd c => extractCmdstatusCode c

/-- `extract_noop` -/
def extractNoop : RespMsg Unit → KStatus := extractPlain

/-- `extract_flush` -/
def extractFlush : RespMsg Unit → KStatus := extractPlain

/-- The lengths of key and value are 0. -/
def plainAioComplete (kop : Kop) (extract : RespMsg Unit → KStatus) (a : Answer Unit)
    (ses : Ksession) (sendlen : ℕ) : Done Unit :=
  aioDone kop ses sendlen a.recvlen (fun _ => (0, 0))
    (readResponse (fun m caller => (extract m, caller)) ()) () a.completion

/-- **`n_noop_aio_complete`** -/
def nNoopAioComplete := plainAioComplete .noops extractNoop

/-- **`f_flush_aio_complete`** -/
def fFlushAioComplete := plainAioComplete .flushs extractFlush

end Libkinetic.Kinetic
