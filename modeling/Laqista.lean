import Laqista.Lib.Runs
import Laqista.Lib.Keyed
import Laqista.Lib.Walk
import Laqista.Lib.Least
import Laqista.Lib.Tasks
import Laqista.Lib.Hex
import Laqista.Crates
import Laqista.Error
import Laqista.Proto
import Laqista.Info
import Laqista.Lib.F64
import Laqista.Lib.Fallible
import Laqista.Utils
import Laqista.Scheduler.Stats
import Laqista.Scheduler.Mean
import Laqista.Scheduler.Cluster
import Laqista.Scheduler.Runtime
import Laqista.Scheduler.Handlers
import Laqista.Scheduler.Lock
import Laqista.Scheduler.Members
import Laqista.Scheduler.Deployed
import Laqista.Scheduler.Wire
import Laqista.Scheduler.Choice
import Laqista.Scheduler.Decisions
import Laqista.Scheduler.Reports
import Laqista.Scheduler.Lookup
import Laqista.Server.State
import Laqista.Server.Run
import Laqista.Report
import Laqista.Lib.Decimal
import Laqista.Lib.DateTime
import Laqista.Lib.Parser
import Laqista.Lib.Accepts
import Laqista.Monitor.Radeon
import Laqista.Monitor.Apple
import Laqista.Monitor.Parse
import Laqista.Monitor.Printed
import Laqista.Monitor.Panics
import Laqista.Monitor.Units
import Laqista.Monitor.Windows
import Laqista.Lib.Iterator
import Laqista.Monitor.Samples
import Laqista.Monitor.Readers
import Laqista.Wasm.Pointer
import Laqista.Wasm.Host
import Laqista.Wasm.Detection
import Laqista.Wasm.Guest
import Laqista.Wasm.Exit
import Laqista.Wasm.Growth
import Laqista.Lib.F32
import Laqista.Lib.Wire
import Laqista.Face.App
import Laqista.Face.Guest
import Laqista.Face.Messages
import Laqista.Face.Detection
import Laqista.Lib.Channel
import Laqista.Monitor.Pipeline
import Laqista.Monitor.Delivered
import Laqista.Monitor.Unmeasured
import Laqista.Net.System
import Laqista.Net.Snapshot
import Laqista.Net.Succession
import Laqista.Net.Election
import Laqista.Net.Lookup
import Laqista.Net.Takeover
import Laqista.Net.Membership
import Laqista.Net.Provenance
import Laqista.Net.Seniority
import Laqista.Deployment.Database
import Laqista.Deployment.Newest
import Laqista.Deployment.Restart
import Laqista.Deployment.Failed
import Laqista.Deployment.Serving
import Laqista.Deployment.Extract
import Laqista.Deployment.Confined
import Laqista.Deployment.Spelled
import Laqista.Deployment.Uploads
import Laqista.Server.Reload
import Laqista.Server.Roles
import Laqista.Server.Stored
import Laqista.Net.Placement
