import SidepoolFormal.Library.Run
import SidepoolFormal.Library.Machine
import SidepoolFormal.Library.Tape
import SidepoolFormal.Library.Effect
import SidepoolFormal.Library.Proc
import SidepoolFormal.Library.Task
import SidepoolFormal.Library.Optimistic
import SidepoolFormal.Library.ChaCha
import SidepoolFormal.Library.Linked
import SidepoolFormal.Library.Join
import SidepoolFormal.Library.Byte
import SidepoolFormal.Library.Fifo
import SidepoolFormal.Library.Worklist
import SidepoolFormal.Library.Ownership
import SidepoolFormal.Library.Blocks
import SidepoolFormal.Library.Cells
import SidepoolFormal.Library.Sha256
import SidepoolFormal.Library.Contention
import SidepoolFormal.Library.Counting
import SidepoolFormal.Base64x.RoundTrip
import SidepoolFormal.Base64x.Grammar
import SidepoolFormal.String.Hex
import SidepoolFormal.String.Fmt
import SidepoolFormal.SerDe.RoundTrip
import SidepoolFormal.SerDe.Hostile
import SidepoolFormal.SerDe.Canonical
import SidepoolFormal.M.ScalarValid
import SidepoolFormal.M.PointValid
import SidepoolFormal.M.Refine
import SidepoolFormal.Io.Faithful
import SidepoolFormal.Io.Task
import SidepoolFormal.Io.Timing
import SidepoolFormal.Idler.Crash
import SidepoolFormal.Idler.Order
import SidepoolFormal.Crypto.Output
import SidepoolFormal.Crypto.WakeUp
import SidepoolFormal.Crypto.Cadence
import SidepoolFormal.Crypto.Stranded
import SidepoolFormal.Crypto.Shutdown
import SidepoolFormal.Crypto.Midstate
import SidepoolFormal.Crypto.Seeded
import SidepoolFormal.S.Subscribers
import SidepoolFormal.S.Throw
import SidepoolFormal.S.Lessee
import SidepoolFormal.S.Retained
import SidepoolFormal.S.Types
import SidepoolFormal.Saver.Combinators
import SidepoolFormal.Saver.Crud
import SidepoolFormal.Saver.Rmw
import SidepoolFormal.Saver.Once
import SidepoolFormal.Saver.Abort
import SidepoolFormal.Saver.Atomicity
import SidepoolFormal.Saver.Attempts
import SidepoolFormal.Saver.Stands
import SidepoolFormal.Saver.Threads
import SidepoolFormal.Saver.Errors
import SidepoolFormal.Saver.Progress
import SidepoolFormal.Saver.Requests
import SidepoolFormal.Main.Rmw
import SidepoolFormal.Main.Ownership
import SidepoolFormal.Main.InOrder
