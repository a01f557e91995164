/-! # The messages of `laqista.proto`

The messages as they are generated from the protocol file: a message field may be absent, a scalar
field has a default. Ids travel as strings. -/

namespace Laqista.Proto

structure Server where
  id : String
  addr : String
  deriving DecidableEq, Repr

structure Deployment where
  id : String
  source : String
  name : String
  deriving DecidableEq, Repr

/-- `number` is a `uint32`. -/
structure Group where
  number : UInt32
  scheduler : Option Server
  deriving DecidableEq, Repr

structure AppInstanceLocations where
  deployment : Option Deployment
  locations : List Server
  deriving DecidableEq, Repr

structure ClusterState where
  group : Option Group
  servers : List Server
  instances : List AppInstanceLocations
  deriving DecidableEq, Repr

/-- `google.protobuf.Timestamp`. -/
structure Timestamp where
  seconds : Int64
  nanos : Int32
  deriving DecidableEq, Repr

structure TimeWindow where
  start : Option Timestamp
  «end» : Option Timestamp
  deriving DecidableEq, Repr

structure ResourceUtilization where
  cpu : Int32
  ramTotal : Int32
  ramUsed : Int32
  gpu : Int32
  vramTotal : Int32
  vramUsed : Int32
  deriving DecidableEq, Repr

structure MonitorWindow where
  window : Option TimeWindow
  utilization : Option ResourceUtilization
  deriving DecidableEq, Repr

structure JoinRequest where
  server : Option Server
  deriving DecidableEq, Repr

structure ReportRequest where
  server : Option Server
  windows : List MonitorWindow
  deriving DecidableEq, Repr

structure ReportResponse where
  success : Bool
  cluster : Option ClusterState
  deriving DecidableEq, Repr

structure DeployRequest where
  source : String
  name : String
  deriving DecidableEq, Repr

/-- The request's `qos` is an empty message. -/
structure LookupRequest where
  deploymentId : String
  deriving DecidableEq, Repr

structure SpawnRequest where
  deployment : Option Deployment
  deriving DecidableEq, Repr

structure SpawnResponse where
  success : Bool
  deployment : Option Deployment
  server : Option Server
  deriving DecidableEq, Repr

inductive ServerState where
  | starting | running | failed | authoritative | uninitialized
  deriving DecidableEq, Repr

/-- The number of the enumeration. -/
def ServerState.into : ServerState → Int32
  | starting => 0
  | running => 1
  | failed => 2
  | authoritative => 3
  | uninitialized => 4

/-- `state` is the number of a `ServerState`. -/
structure GetInfoResponse where
  server : Option Server
  group : Option Group
  state : Int32
  deriving DecidableEq, Repr

end Laqista.Proto
