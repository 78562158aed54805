import Aesd.Lib.Ring
import Aesd.Lib.Concat
import Aesd.Lib.History
import Aesd.Lib.Run
import Aesd.Lib.Ledger
import Aesd.Lib.Slist
import Aesd.Lib.Drain
import Aesd.Lib.Lines
import Aesd.Driver.Kernel
import Aesd.Driver.CircularBuffer
import Aesd.Driver.Main
import Aesd.Driver.Write
import Aesd.Driver.Invariant
import Aesd.Driver.Read
import Aesd.Driver.PacketLog
import Aesd.Driver.Ownership
import Aesd.Driver.Reader
import Aesd.Driver.ReadLoop
import Aesd.Driver.Sizes
import Aesd.Driver.Concurrent
import Aesd.Driver.Atomic
import Aesd.Driver.Locks
import Aesd.Driver.Simulation
import Aesd.Driver.Linearizable
import Aesd.Driver.AddEntries
import Aesd.Driver.Cleanup
import Aesd.Server.Worker
import Aesd.Server.System
import Aesd.Server.Alarm
import Aesd.Server.Response
import Aesd.Server.Turns
import Aesd.Server.FileMode
import Aesd.Server.Packets
import Aesd.Server.CharDevice
import Aesd.Server.Stream
import Aesd.Server.ShortSend
import Aesd.Server.Main
import Aesd.Server.Holdings
import Aesd.Server.Lifecycle
import Aesd.Server.Signals
import Aesd.Server.Shutdown
import Aesd.Server.Reaping
import Aesd.FinderApp.Writer
import Aesd.FinderApp.Finder
import Aesd.Systemcalls.Exec
import Aesd.Lib.Fair
import Aesd.Server.Progress
import Aesd.Server.Answers
import Aesd.Server.GracefulExit
import Aesd.Threading.Mutex
import Aesd.Threading.Progress
import Aesd.Driver.Module
import Aesd.Server.Startup
import Aesd.Systemcalls.Sequence
import Aesd.Driver.ConcurrentLog
import Aesd.FinderApp.FinderTest
import Aesd.FinderApp.EndToEnd
