import Laqista.Scheduler.Mean
import Laqista.Lib.Least

/-! # The cluster

A `Cluster` is what a scheduler knows: the group with the scheduler itself, the servers in the order
of their joins, the places of the instances and the stats of the servers. Its operations add to one
of these collections each; only `chooseScheduler` changes the group.

A cluster is sent as a `ClusterState`, without the stats and with the instances in some order;
decoding gives it back without the stats (`tryFrom_into`). -/

namespace Laqista

open Laqista.Proto Laqista.Lib Laqista.Lib.Least

structure Cluster where
  group : GroupInfo
  servers : List ServerInfo
  instances : AppInstanceMap
  serverStats : StatsMap
  deriving DecidableEq

/-- `v[0]`. -/
def index0 {α : Type} : List α → Except Panic α
  | [] => .error ⟨"index out of bounds: the len is 0 but the index is 0"⟩
  | a :: _ => .ok a

namespace Cluster

def new (scheduler : ServerInfo) : Cluster :=
  ⟨GroupInfo.new scheduler, [scheduler], .empty _, .empty _⟩

def withGroup (group : GroupInfo) : Cluster :=
  ⟨group, [group.schedulerInfo], .empty _, .empty _⟩

/-- The server with the lowest id becomes the scheduler of the group; there must be a server. -/
def chooseScheduler (c : Cluster) : Except Panic (ServerInfo × Cluster) := do
  let first ← index0 c.servers
  let lowest := leastBy (·.id) first c.servers
  return (lowest, { c with group := { c.group with schedulerInfo := lowest } })

/-- The servers are appended to those of a known deployment, whose information stays. -/
def insertInstance (c : Cluster) (deployment : DeploymentInfo) (servers : List ServerInfo) :
    Cluster :=
  { c with
    instances := c.instances.upsert ⟨deployment, servers⟩
      fun i => { i with servers := i.servers ++ servers } }

/-- The windows are appended to those of a known server, whose information stays. -/
def insertStats (c : Cluster) (stats : ServerStats) : Cluster :=
  { c with serverStats := c.serverStats.upsert stats fun s => s.append stats.stats }

/-- The first server with the id is removed. -/
def removeServer (c : Cluster) (id : Uuid) : Option ServerInfo × Cluster :=
  match c.servers.findIdx? (·.id == id) with
  | some index => (c.servers[index]?, { c with servers := c.servers.eraseIdx index })
  | none => (none, c)

def getInstanceServerIds (c : Cluster) (deploymentId : Uuid) : Result (List Uuid) :=
  match c.instances.lookup deploymentId with
  | some i => .ok (i.servers.map (·.id))
  | none => .error (.fromString "Deployment not found")

/-- The ids of the servers. -/
def ids (c : Cluster) : List Uuid := c.servers.map (·.id)

/-! ### Servers -/

theorem removeServer_servers (c : Cluster) (id : Uuid) :
    (c.removeServer id).2.servers = c.servers.eraseP (·.id == id) := by
  unfold removeServer
  rw [List.eraseP_eq_eraseIdx]
  split <;> simp [*]

@[simp] theorem removeServer_group (c : Cluster) (id : Uuid) :
    (c.removeServer id).2.group = c.group := by
  unfold removeServer
  split <;> rfl

@[simp] theorem removeServer_instances (c : Cluster) (id : Uuid) :
    (c.removeServer id).2.instances = c.instances := by
  unfold removeServer
  split <;> rfl

@[simp] theorem removeServer_serverStats (c : Cluster) (id : Uuid) :
    (c.removeServer id).2.serverStats = c.serverStats := by
  unfold removeServer
  split <;> rfl

/-- One occurrence of the id goes. -/
theorem removeServer_ids (c : Cluster) (id : Uuid) :
    (c.removeServer id).2.ids = c.ids.erase id := by
  unfold ids
  rw [removeServer_servers, List.erase_eq_eraseP', List.eraseP_map]
  rfl

theorem mem_ids_removeServer {c : Cluster} {id k : Uuid} :
    k ∈ (c.removeServer id).2.ids ↔ k ∈ c.ids ∧ (k = id → 2 ≤ c.ids.count k) := by
  rw [removeServer_ids]
  by_cases hk : k = id
  · subst hk
    rw [← List.count_pos_iff, List.count_erase_self, ← List.count_pos_iff]
    constructor
    · intro h
      exact ⟨by omega, fun _ => by omega⟩
    · rintro ⟨-, h⟩
      have := h rfl
      omega
  · rw [List.mem_erase_of_ne hk]
    exact ⟨fun h => ⟨h, fun he => absurd he hk⟩, fun h => h.1⟩

theorem mem_ids {c : Cluster} {id : Uuid} : id ∈ c.ids ↔ ∃ s ∈ c.servers, s.id = id :=
  List.mem_map

/-- **The loop of `chooseScheduler`**: with a server there is a choice, a server whose id is the
least, and only the scheduler of the group changes. -/
theorem chooseScheduler_ok {c c' : Cluster} {s : ServerInfo} (h : c.chooseScheduler = .ok (s, c')) :
    s ∈ c.servers ∧ (∀ t ∈ c.servers, s.id ≤ t.id) ∧
      c' = { c with group := { c.group with schedulerInfo := s } } := by
  unfold chooseScheduler at h
  rcases hs : c.servers with _ | ⟨first, rest⟩
  · rw [hs] at h; cases h
  · rw [hs] at h
    cases h
    refine ⟨?_, fun t ht => leastBy_le (List.mem_cons_of_mem first ht), rfl⟩
    rcases List.mem_cons.mp (leastBy_mem (·.id) first (first :: rest)) with h | h
    · rw [h]; simp
    · exact h

theorem chooseScheduler_isOk {c : Cluster} :
    (∃ r, c.chooseScheduler = .ok r) ↔ c.servers ≠ [] := by
  unfold chooseScheduler
  rcases c.servers with _ | ⟨first, rest⟩
  · simp [index0]
  · simp [index0]

/-! ### Instances and stats -/

theorem lookup_insertInstance (c : Cluster) (d : DeploymentInfo) (servers : List ServerInfo)
    (id : Uuid) : (c.insertInstance d servers).instances.lookup id =
      if id = d.id then
        some ((c.instances.lookup d.id).elim ⟨d, servers⟩
          fun i => { i with servers := i.servers ++ servers })
      else c.instances.lookup id := by
  unfold insertInstance
  rw [Keyed.lookup_upsert]
  intro i; rfl

theorem lookup_insertStats (c : Cluster) (stats : ServerStats) (id : Uuid) :
    (c.insertStats stats).serverStats.lookup id = if id = stats.server.id then
        some ((c.serverStats.lookup stats.server.id).elim stats fun s => s.append stats.stats)
      else c.serverStats.lookup id := by
  unfold insertStats
  rw [Keyed.lookup_upsert]
  intro s; rfl

theorem mem_ids_insertStats {c : Cluster} {stats : ServerStats} {id : Uuid} :
    id ∈ (c.insertStats stats).serverStats.ids ↔
      id = stats.server.id ∨ id ∈ c.serverStats.ids := by
  unfold insertStats
  rw [Keyed.mem_ids_upsert]
  intro s; rfl

theorem mem_ids_insertInstance {c : Cluster} {d : DeploymentInfo} {servers : List ServerInfo}
    {id : Uuid} : id ∈ (c.insertInstance d servers).instances.ids ↔
      id = d.id ∨ id ∈ c.instances.ids := by
  unfold insertInstance
  rw [Keyed.mem_ids_upsert]
  intro i; rfl

@[simp] theorem insertInstance_group (c : Cluster) (d : DeploymentInfo) (l : List ServerInfo) :
    (c.insertInstance d l).group = c.group := rfl

@[simp] theorem insertInstance_servers (c : Cluster) (d : DeploymentInfo) (l : List ServerInfo) :
    (c.insertInstance d l).servers = c.servers := rfl

@[simp] theorem insertInstance_serverStats (c : Cluster) (d : DeploymentInfo)
    (l : List ServerInfo) : (c.insertInstance d l).serverStats = c.serverStats := rfl

@[simp] theorem insertStats_group (c : Cluster) (s : ServerStats) :
    (c.insertStats s).group = c.group := rfl

@[simp] theorem insertStats_servers (c : Cluster) (s : ServerStats) :
    (c.insertStats s).servers = c.servers := rfl

@[simp] theorem insertStats_instances (c : Cluster) (s : ServerStats) :
    (c.insertStats s).instances = c.instances := rfl

@[simp] theorem insertInstance_ids (c : Cluster) (d : DeploymentInfo) (l : List ServerInfo) :
    (c.insertInstance d l).ids = c.ids := rfl

@[simp] theorem insertStats_ids (c : Cluster) (s : ServerStats) :
    (c.insertStats s).ids = c.ids := rfl

/-- The server with the id is a location of the deployment. -/
def HostedBy (c : Cluster) (d id : Uuid) : Prop :=
  ∃ i, c.instances.lookup d = some i ∧ id ∈ i.servers.map (·.id)

theorem hostedBy_insertInstance {c : Cluster} {deployment : DeploymentInfo} {target : ServerInfo}
    {d id : Uuid} : (c.insertInstance deployment [target]).HostedBy d id ↔
      (d = deployment.id ∧ id = target.id) ∨ c.HostedBy d id := by
  unfold HostedBy
  rw [lookup_insertInstance]
  by_cases hd : d = deployment.id
  · subst hd
    rw [if_pos rfl]
    rcases c.instances.lookup deployment.id with _ | old
    · simp [eq_comm]
    · simp only [Option.elim_some, Option.some.injEq, exists_eq_left', List.map_append,
        List.mem_append, List.map_cons, List.map_nil, List.mem_singleton, true_and]
      exact or_comm
  · simp [hd]

theorem hostedBy_congr {c c' : Cluster} (h : c.instances = c'.instances) {d id : Uuid} :
    c.HostedBy d id ↔ c'.HostedBy d id := by
  unfold HostedBy
  rw [h]

/-! ### On the wire -/

variable [Crates]

/-- `Into<ClusterState>`, with the instances in the order `it`. -/
def into (c : Cluster) (it : List AppInstancesInfo) : ClusterState :=
  ⟨some c.group.into, c.servers.map ServerInfo.into, it.map AppInstancesInfo.into⟩

/-- `TryFrom<ClusterState>`. -/
def tryFrom (state : ClusterState) : Result Cluster := do
  let group ← match state.group with
    | some g => GroupInfo.tryFrom g
    | none => .error (.fromString "Group cannot be empty")
  let servers ← state.servers.mapM ServerInfo.tryFrom
  let instances ← state.instances.mapM AppInstancesInfo.tryFrom
  return ⟨group, servers, .ofList instances, .empty _⟩

/-- What a cluster keeps on the wire. -/
def withoutStats (c : Cluster) : Cluster := { c with serverStats := .empty _ }

/-- **Decoding undoes encoding** but for the stats, whatever the order of the instances. -/
theorem tryFrom_into {c : Cluster} {it : List AppInstancesInfo} (h : c.instances.Iter it) :
    tryFrom (c.into it) = .ok c.withoutStats := by
  simp only [tryFrom, into, GroupInfo.tryFrom_into, mapM_serverInfo, mapM_appInstancesInfo, ok_bind,
    pure_eq_ok, Keyed.iter_ofList h, withoutStats]

@[simp] theorem schedulerId_into (c : Cluster) (it : List AppInstancesInfo) :
    schedulerId (c.into it) = some (printUuid c.group.schedulerInfo.id) := rfl

theorem into_ids (c : Cluster) (it : List AppInstancesInfo) :
    (c.into it).servers.map (·.id) = c.ids.map printUuid := by
  simp [into, ids, ServerInfo.into, List.map_map, Function.comp_def]

end Cluster

end Laqista
