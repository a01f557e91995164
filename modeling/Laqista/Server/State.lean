import Laqista.Scheduler.Runtime

/-! # The roles of a server

What a server currently is (`DaemonState`), and the commands that its parts send to its main loop to
change that (`StateCommand`). -/

namespace Laqista

inductive DaemonState where
  | running (group : GroupInfo)
  | joining (addr : String)
  | authoritative (scheduler : SchedulerRuntime)
  | failed
  deriving DecidableEq

inductive StateCommand where
  | update (state : DaemonState)
  | becomeScheduler (cluster : Cluster)
  | keep
  deriving DecidableEq

/-- The scheduler of a state: the one that a server in this state reports to. -/
def DaemonState.scheduler : DaemonState → Option ServerInfo
  | running group => some group.schedulerInfo
  | authoritative scheduler => some scheduler.cluster.group.schedulerInfo
  | joining _ | failed => none

end Laqista
