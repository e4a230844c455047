import Nomux.Lib.BigEndian
import Nomux.Lib.ExactParser
import Nomux.Lib.Framing
import Nomux.Lib.History
import Nomux.Wire.Basic
import Nomux.Wire.Codec
import Nomux.Wire.Fields
import Nomux.Wire.Roundtrip
import Nomux.Wire.Stream
import Nomux.Ring
import Nomux.World
import Nomux.Lib.GuardedTrace
import Nomux.Session.Basic
import Nomux.Session.Invariants
import Nomux.Session.Records
import Nomux.Session.Cursor
import Nomux.Session.Copy
import Nomux.Session.Applied
import Nomux.Session.Ending
import Nomux.Session.Responses
import Nomux.Conn.Sending
import Nomux.Conn.Basic
import Nomux.Conn.Receive
import Nomux.Conn.Queue
import Nomux.Conn.Bounds
import Nomux.Agent
import Nomux.Pty
import Nomux.Daemon.Basic
import Nomux.Daemon.Pass
import Nomux.Daemon.Frame
import Nomux.Daemon.Decode
import Nomux.Daemon.Coupling
import Nomux.Daemon.ClientSound
import Nomux.Daemon.DecodeSound
import Nomux.Daemon.GreetSound
import Nomux.Daemon.PumpSound
import Nomux.Daemon.RunSound
import Nomux.Daemon.Output
import Nomux.Daemon.Input
import Nomux.Daemon.Exit
import Nomux.Daemon.Responses
import Nomux.Daemon.Reassembly
import Nomux.Daemon.Wakeup
import Nomux.Daemon.Moves
import Nomux.Daemon.Runs
import Nomux.Daemon.Bounds
import Nomux.Daemon.Effects
import Nomux.Daemon.Size
import Nomux.Daemon.Repaint
import Nomux.Daemon.Takeover
import Nomux.Daemon.Fuse
import Nomux.Lib.Decimal
import Nomux.Cli.Sanitize
import Nomux.Cli.Args
import Nomux.Cli.CommandLine
import Nomux.Cli.Verdict
import Nomux.Lib.Program
import Nomux.Relay.Basic
import Nomux.Relay.Ledger
import Nomux.Relay.Faithful
import Nomux.Control.Kill
import Nomux.Control.Case
import Nomux.Control.Pids
import Nomux.Rundir.Kernel
import Nomux.Rundir.Lock
import Nomux.Rundir.Effect
import Nomux.Rundir.Roles
import Nomux.Rundir.Serial
import Nomux.Rundir.Mutex
import Nomux.Rundir.Startup
import Nomux.Rundir.Serving
import Nomux.Rundir.Secure
import Nomux.Rundir.OneDaemon
import Nomux.Rundir.Calls
import Nomux.Lib.Lossy
import Nomux.Rundir.Label
import Nomux.Rundir.Pidfile
import Nomux.Lib.Search
import Nomux.Exec.Environment
import Nomux.Lib.Descriptors
import Nomux.Exec.Spawn
import Nomux.Exec.Halves
import Nomux.Exec.Report
import Nomux.Exec.Inherited
import Nomux.Relay.Worker
import Nomux.Relay.Delivery
import Nomux.Lib.UnixPath
import Nomux.Rundir.Names
import Nomux.Lib.DirectoryTree
import Nomux.Lib.ErrorState
import Nomux.Rundir.Trust
import Nomux.Lib.Interleaving
import Nomux.Teardown.Stat
import Nomux.Teardown.Walk
import Nomux.Teardown.Reach
import Nomux.Daemon.AgentPipe
