import Libkinetic.Base.Runs
import Libkinetic.Base.Custody
import Libkinetic.Base.Fifo
import Libkinetic.Base.Locks
import Libkinetic.Base.Rounds
import Libkinetic.Base.Memory
import Libkinetic.Base.CursorList
import Libkinetic.Base.Windows
import Libkinetic.Base.Ints
import Libkinetic.Base.Scatter
import Libkinetic.Base.Framing
import Libkinetic.Base.Calls
import Libkinetic.Ktli.Session
import Libkinetic.Ktli.Caller
import Libkinetic.Ktli.Sender
import Libkinetic.Ktli.Recvmsg
import Libkinetic.Ktli.Receiver
import Libkinetic.Ktli.Step
import Libkinetic.Ktli.View
import Libkinetic.Ktli.Shifts
import Libkinetic.Ktli.Custody
import Libkinetic.Ktli.Timeout
import Libkinetic.Ktli.Order
import Libkinetic.Ktli.Answers
import Libkinetic.Ktli.Turn
import Libkinetic.Ktli.Exchange
import Libkinetic.Ktli.Final
import Libkinetic.Ktli.Close
import Libkinetic.Ktli.Opened
import Libkinetic.Ktli.Loop
import Libkinetic.Ktli.Locks
import Libkinetic.Ktli.Slots
import Libkinetic.Ktli.Drain
import Libkinetic.Ktli.Sweep
import Libkinetic.Ktli.Poll
import Libkinetic.Ktli.Socket
import Libkinetic.Ktli.Stream
import Libkinetic.Kinetic.Types
import Libkinetic.Kinetic.Range
import Libkinetic.Kinetic.Iter
import Libkinetic.Kinetic.Iteration
import Libkinetic.Kinetic.Request
import Libkinetic.Kinetic.Complete
import Libkinetic.Kinetic.Batch
import Libkinetic.Kinetic.Put
import Libkinetic.Kinetic.Del
import Libkinetic.Kinetic.BatchOps
import Libkinetic.Kinetic.Get
import Libkinetic.Kinetic.Noop
import Libkinetic.Kinetic.Exec
import Libkinetic.Kinetic.Stat
import Libkinetic.Kinetic.Account
import Libkinetic.Kinetic.Ktb
import Libkinetic.Kinetic.Wire
import Libkinetic.Kinetic.Store
import Libkinetic.Kinetic.Basickv
import Libkinetic.Kinetic.Helpers
import Libkinetic.Kinetic.Framing
import Libkinetic.Kinetic.Reuse
import Libkinetic.Base.Outcomes
import Libkinetic.Kinetic.Getlog
import Libkinetic.Kinetic.Command
import Libkinetic.Base.Words
import Libkinetic.Kinetic.Pdu
import Libkinetic.Kinetic.Atomic
import Libkinetic.Kinetic.Decode
import Libkinetic.Kinetic.Starts
import Libkinetic.Kinetic.Create
import Libkinetic.Kinetic.Destroy
import Libkinetic.Kinetic.Keys
import Libkinetic.Kinetic.Validate
import Libkinetic.Kinetic.Values
import Libkinetic.Kinetic.Wait
import Libkinetic.Kinetic.Open
import Libkinetic.Kinetic.Echo
import Libkinetic.Kinetic.Intervals
import Libkinetic.Kinetic.Means
import Libkinetic.Kinetic.ExecText
import Libkinetic.Kinetic.Flatten
import Libkinetic.Kinetic.Getstats
import Libkinetic.Kinetic.PutFields
import Libkinetic.Kinetic.Series
import Libkinetic.Kinetic.Glog
import Libkinetic.Kinetic.Putn
import Libkinetic.Ktli.Table
import Libkinetic.Kinetic.Rangedup
import Libkinetic.Kinetic.Keyops
import Libkinetic.Base.Strtok
import Libkinetic.Toolbox.Ascii
import Libkinetic.Toolbox.Tokens
import Libkinetic.Toolbox.Stats
import Libkinetic.Toolbox.Delrange
import Libkinetic.Toolbox.Cas
import Libkinetic.Base.Lexicographic
import Libkinetic.Kinetic.Keyends
import Libkinetic.Kinetic.Keyleak
import Libkinetic.Ktli.Exchange
import Libkinetic.Kinetic.Basicmap
import Libkinetic.Kinetic.Basicserved
import Libkinetic.Ktli.Closing
import Libkinetic.Ktli.Handle
import Libkinetic.Base.Stairs
import Libkinetic.Kinetic.Reverse
import Libkinetic.Toolbox.Range
import Libkinetic.Base.Descriptors
import Libkinetic.Ktli.Descriptors
