import Laqista.Scheduler.Cluster

/-! # The runtime of the authoritative scheduler

`SchedulerRuntime` is the state behind the scheduler's mutex: the cluster and the deployments. The
handlers touch it only in critical sections; this module has the sections, and the decoding of the
requests before them, as functions. How they are put together is in `Laqista.Scheduler.Handlers`. -/

namespace Laqista

open Laqista.Proto Laqista.Lib

structure SchedulerRuntime where
  cluster : Cluster
  deployments : DeploymentMap
  deriving DecidableEq

namespace SchedulerRuntime

/-- `AuthoritativeScheduler::new`: whatever the cluster, no deployment is known. -/
def new (cluster : Cluster) : SchedulerRuntime := ⟨cluster, .empty _⟩

def fromServer (server : ServerInfo) : SchedulerRuntime := new (Cluster.new server)

/-- `push_server`. -/
def pushServer (rt : SchedulerRuntime) (server : ServerInfo) : SchedulerRuntime :=
  { rt with cluster := { rt.cluster with servers := rt.cluster.servers ++ [server] } }

/-- The section of `report`. -/
def insertStats (rt : SchedulerRuntime) (stats : ServerStats) : SchedulerRuntime :=
  { rt with cluster := rt.cluster.insertStats stats }

/-- The section of `handle_failed_server`. -/
def removeServer (rt : SchedulerRuntime) (id : Uuid) : SchedulerRuntime :=
  { rt with cluster := (rt.cluster.removeServer id).2 }

/-- The first section of `deploy_in_us`, with the stats in the order `it`. The argument of
`unwrap_or` is evaluated in any case, so there must be a first server. -/
def chooseTarget (rt : SchedulerRuntime) (it : List ServerStats) : Except Panic ServerInfo := do
  let scheduled ← schedule it
  let first ← index0 rt.cluster.servers
  return scheduled.getD first

/-- The second section of `deploy_in_us`. -/
def record (rt : SchedulerRuntime) (deployment : DeploymentInfo) (target : ServerInfo) :
    SchedulerRuntime where
  deployments := rt.deployments.insert deployment
  cluster := rt.cluster.insertInstance deployment [target]

/-- What the task spawned by `lookup` finds: the deployment to place once more, if the target needs
it and the deployment is known. -/
def scaleCheck (rt : SchedulerRuntime) (target : ServerInfo) (id : Uuid) :
    Except Panic (Option DeploymentInfo) :=
  match rt.cluster.serverStats.lookup target.id with
  | none => .ok none
  | some stats => do
    let shouldScale ← needsScaleOut stats
    return if shouldScale then rt.deployments.lookup id else none

/-- `lookup` up to the stats it schedules over. -/
def lookupStats [Crates] (rt : SchedulerRuntime) (deploymentId : String) :
    Except Status (Uuid × StatsMap) :=
  match parseUuid deploymentId with
  | .error e => .error (.aborted e)
  | .ok id =>
    match rt.cluster.getInstanceServerIds id with
    | .error e => .error (.aborted e.display)
    | .ok serverIds => .ok (id, rt.cluster.serverStats.restrict serverIds)

/-- The result of `lookup`, with the stats of the hosts in the order `it`: the server and the id of
the deployment. -/
def lookup [Crates] (rt : SchedulerRuntime) (deploymentId : String) (it : List ServerStats) :
    Except Panic (Except Status (ServerInfo × Uuid)) :=
  match rt.lookupStats deploymentId with
  | .error s => .ok (.error s)
  | .ok (id, _) => do
    let scheduled ← schedule it
    return match scheduled with
      | some target => .ok (target, id)
      | none => .error (.aborted "Failed to schedule")

end SchedulerRuntime

/-! ### Requests -/

variable [Crates]

/-- The server of a join request; without one the handler panics. -/
def joinServer (r : JoinRequest) : Except Panic (Except Status ServerInfo) := do
  let protoServer ← expect "server cannot be None" r.server
  return match ServerInfo.tryFrom protoServer with
    | .ok server => .ok server
    | .error e => .error e.intoStatus

/-- The stats of a report request. -/
def reportStats (r : ReportRequest) : Except Status ServerStats :=
  match r.server with
  | none => .error (.aborted "server cannot be empty")
  | some server =>
    match ServerInfo.tryFrom server with
    | .ok server => .ok (.fromStats server r.windows)
    | .error e => .error e.intoStatus

/-- The reply to a report is the cluster after it, with the instances in the order `it`. -/
def reportResponse (rt : SchedulerRuntime) (it : List AppInstancesInfo) : ReportResponse :=
  ⟨true, some (rt.cluster.into it)⟩

/-- `handle_failed_server` up to its section: the id to remove, if the call to the server ended in a
transport error. -/
def failedServer (result : Result Unit) (server : Server) : Except Status (Option Uuid) :=
  match result with
  | .error (.transportError _) =>
    match tryParseUuid server.id with
    | .ok id => .ok (some id)
    | .error e => .error (Error.fromUuid e).intoStatus
  | .error e => .error e.intoStatus
  | .ok _ => .ok none

theorem joinServer_into (s : ServerInfo) : joinServer ⟨some s.into⟩ = .ok (.ok s) := by
  simp [joinServer, expect]

theorem reportStats_into (s : ServerInfo) (ws : List MonitorWindow) :
    reportStats ⟨some s.into, ws⟩ = .ok ⟨s, ws⟩ := by
  simp [reportStats, ServerStats.fromStats]

/-! ### What is chosen -/

omit [Crates] in
/-- The target is a server with stats or the first server. -/
theorem chooseTarget_ok {rt : SchedulerRuntime} {it : List ServerStats} {target : ServerInfo}
    (h : rt.chooseTarget it = .ok target) :
    (∃ stats ∈ it, stats.server = target) ∨ target ∈ rt.cluster.servers := by
  obtain ⟨scheduled, hs, h⟩ := bind_eq_ok.mp h
  obtain ⟨first, hf, h⟩ := bind_eq_ok.mp h
  obtain rfl := Except.ok.inj h
  rcases scheduled with _ | server
  · right
    rcases hl : rt.cluster.servers with _ | ⟨a, l⟩
    · rw [hl] at hf; cases hf
    · rw [hl] at hf; cases hf; simp
  · exact Or.inl (schedule_mem hs)

omit [Crates] in
/-- A check finds a deployment exactly when the target's stats ask for a scale-out and it is known.
-/
theorem scaleCheck_eq_some {rt : SchedulerRuntime} {target : ServerInfo} {id : Uuid}
    {d : DeploymentInfo} : rt.scaleCheck target id = .ok (some d) ↔
      ∃ stats, rt.cluster.serverStats.lookup target.id = some stats ∧
        needsScaleOut stats = .ok true ∧ rt.deployments.lookup id = some d := by
  unfold SchedulerRuntime.scaleCheck
  rcases rt.cluster.serverStats.lookup target.id with _ | stats
  · simp
  · simp only [bind_eq_ok, Option.some.injEq, exists_eq_left', pure_eq_ok, Except.ok.injEq]
    constructor
    · rintro ⟨b, hb, hd⟩
      split_ifs at hd with hbt
      exact ⟨by rw [hb, hbt], hd⟩
    · rintro ⟨hb, hd⟩
      exact ⟨true, hb, by simpa using hd⟩

/-- The server that a lookup returns is the server of one of the stats it scheduled over. -/
theorem lookup_ok {rt : SchedulerRuntime} {deploymentId : String} {it : List ServerStats}
    {target : ServerInfo} {id : Uuid} (h : rt.lookup deploymentId it = .ok (.ok (target, id))) :
    (∃ m, rt.lookupStats deploymentId = .ok (id, m)) ∧ ∃ stats ∈ it, stats.server = target := by
  unfold SchedulerRuntime.lookup at h
  split at h
  · simp at h
  · next id' m hm =>
    obtain ⟨scheduled, hs, h⟩ := bind_eq_ok.mp h
    rcases scheduled with _ | server
    · simp at h
    · cases h
      exact ⟨⟨m, hm⟩, schedule_mem hs⟩

/-- The stats of a lookup are those of the hosts of the deployment. -/
theorem lookupStats_ok {rt : SchedulerRuntime} {deploymentId : String} {id : Uuid} {m : StatsMap}
    (h : rt.lookupStats deploymentId = .ok (id, m)) :
    ∃ i, rt.cluster.instances.lookup id = some i ∧
      m = rt.cluster.serverStats.restrict (i.servers.map (·.id)) := by
  unfold SchedulerRuntime.lookupStats Cluster.getInstanceServerIds at h
  split at h
  · simp at h
  · next id' _ =>
    rcases hi : rt.cluster.instances.lookup id' with _ | i
    · rw [hi] at h; cases h
    · rw [hi] at h
      cases h
      exact ⟨i, hi, rfl⟩

end Laqista
