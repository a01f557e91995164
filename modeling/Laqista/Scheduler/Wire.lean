import Laqista.Scheduler.Cluster

/-! # Clusters as hash maps

In the source the instances and the stats of a cluster are hash maps under an id, and only the
operations see to it that an entry is stored under its own id. A `HashCluster` is a cluster with
such maps and with the operations as the source has them. Every cluster that they can build is a
`Cluster` whose entries know their ids (`Reachable.keyed`), and the decoder, which stores what it
reads under the id inside, is the decoder of `Cluster` (`tryFrom_hash`). So a snapshot survives the
wire (`tryFrom_into_reachable`). -/

namespace Laqista

open Laqista.Proto Laqista.Lib Laqista.Lib.Least

/-- `HashMap<Uuid, T>`. -/
abbrev IdMap (τ : Type) := Finmap fun _ : Uuid => τ

namespace IdMap

variable {τ : Type}

/-- `entry(id).and_modify(modify).or_insert(value)`. -/
def upsert (m : IdMap τ) (id : Uuid) (modify : τ → τ) (value : τ) : IdMap τ :=
  m.insert id (match m.lookup id with
    | some old => modify old
    | none => value)

/-- `collect` of pairs, a later one replacing an earlier one with the same id. -/
def collect (es : List (Uuid × τ)) : IdMap τ := es.foldl (fun m e => m.insert e.1 e.2) ∅

/-- `it` is what `values` yields in some iteration order. -/
def Values (m : IdMap τ) (it : List τ) : Prop :=
  ∃ es : List (Sigma fun _ : Uuid => τ), m.entries = es ∧ es.map (·.2) = it

end IdMap

structure HashCluster where
  group : GroupInfo
  servers : List ServerInfo
  instances : IdMap AppInstancesInfo
  serverStats : IdMap ServerStats

namespace HashCluster

def new (scheduler : ServerInfo) : HashCluster := ⟨GroupInfo.new scheduler, [scheduler], ∅, ∅⟩

def withGroup (group : GroupInfo) : HashCluster := ⟨group, [group.schedulerInfo], ∅, ∅⟩

def pushServer (c : HashCluster) (server : ServerInfo) : HashCluster :=
  { c with servers := c.servers ++ [server] }

def insertInstance (c : HashCluster) (deployment : DeploymentInfo) (servers : List ServerInfo) :
    HashCluster :=
  { c with
    instances := IdMap.upsert c.instances deployment.id
      (fun i => { i with servers := i.servers ++ servers }) ⟨deployment, servers⟩ }

def insertStats (c : HashCluster) (stats : ServerStats) : HashCluster :=
  { c with
    serverStats := IdMap.upsert c.serverStats stats.server.id (fun s => s.append stats.stats)
      stats }

def removeServer (c : HashCluster) (id : Uuid) : Option ServerInfo × HashCluster :=
  match c.servers.findIdx? (·.id == id) with
  | some index => (c.servers[index]?, { c with servers := c.servers.eraseIdx index })
  | none => (none, c)

def chooseScheduler (c : HashCluster) : Except Panic (ServerInfo × HashCluster) := do
  let first ← index0 c.servers
  let lowest := leastBy (·.id) first c.servers
  return (lowest, { c with group := { c.group with schedulerInfo := lowest } })

/-- The clusters that the operations can build. -/
inductive Reachable : HashCluster → Prop
  | new (scheduler : ServerInfo) : Reachable (new scheduler)
  | withGroup (group : GroupInfo) : Reachable (withGroup group)
  | pushServer {c : HashCluster} (server : ServerInfo) :
    Reachable c → Reachable (c.pushServer server)
  | insertInstance {c : HashCluster} (deployment : DeploymentInfo) (servers : List ServerInfo) :
      Reachable c → Reachable (c.insertInstance deployment servers)
  | insertStats {c : HashCluster} (stats : ServerStats) :
      Reachable c → Reachable (c.insertStats stats)
  | removeServer {c : HashCluster} (id : Uuid) : Reachable c → Reachable (c.removeServer id).2
  | chooseScheduler {c c' : HashCluster} {server : ServerInfo} :
      Reachable c → c.chooseScheduler = .ok (server, c') → Reachable c'

section Wire

variable [Crates]

/-- `Into<ClusterState>`, with the instances in the order `it`. -/
def into (c : HashCluster) (it : List AppInstancesInfo) : ClusterState :=
  ⟨some c.group.into, c.servers.map ServerInfo.into, it.map AppInstancesInfo.into⟩

/-- `TryFrom<ClusterState>`. -/
def tryFrom (state : ClusterState) : Result HashCluster := do
  let group ← match state.group with
    | some g => GroupInfo.tryFrom g
    | none => .error (.fromString "Group cannot be empty")
  let servers ← state.servers.mapM ServerInfo.tryFrom
  let instances ← state.instances.mapM AppInstancesInfo.tryFrom
  return ⟨group, servers, IdMap.collect (instances.map fun i => (i.deployment.id, i)), ∅⟩

end Wire

end HashCluster

/-! ### Entries that know their ids -/

/-- The cluster with its maps as plain hash maps. -/
def Cluster.hash (c : Cluster) : HashCluster :=
  ⟨c.group, c.servers, c.instances.map, c.serverStats.map⟩

namespace Lib.Keyed

/-- Changing a value under its key, on the plain map. -/
theorem map_upsert {τ : Type} {key : τ → Uuid} (m : Keyed key) {t : τ} {f : τ → τ}
    (hf : ∀ u, key (f u) = key u) : (m.upsert t f).map = IdMap.upsert m.map (key t) f t := by
  unfold upsert insert IdMap.upsert
  rcases h : m.lookup (key t) with _ | old
  · have hm : m.map.lookup (key t) = none := h
    rw [hm]
  · have hm : m.map.lookup (key t) = some old := h
    have hkey : key (f old) = key t := by rw [hf, key_of_lookup h]
    rw [hm]
    dsimp only
    rw [hkey]

/-- Collecting, on the plain map. -/
theorem map_ofList {τ : Type} {key : τ → Uuid} (ts : List τ) :
    (ofList ts : Keyed key).map = IdMap.collect (ts.map fun t => (key t, t)) := by
  have hfold : ∀ m : Keyed key, (ts.foldl insert m).map =
      (ts.map fun t => (key t, t)).foldl (fun m e => m.insert e.1 e.2) m.map := by
    induction ts with
    | nil => intro m; rfl
    | cons t ts ih => intro m; exact ih (m.insert t)
  exact hfold (empty key)

/-- What a plain map yields is an iteration order of the map that knows its keys. -/
theorem iter_of_values {τ : Type} {key : τ → Uuid} {m : Keyed key} {it : List τ}
    (h : IdMap.Values m.map it) : m.Iter it := by
  obtain ⟨es, hes, rfl⟩ := h
  have hid : ∀ e ∈ es, (⟨key e.2, e.2⟩ : Sigma fun _ : Uuid => τ) = e := by
    rintro ⟨k, t⟩ he
    have hm : m.map.lookup k = some t :=
      Finmap.lookup_eq_some_iff.mpr (by rw [hes]; exact Multiset.mem_coe.mpr he)
    rw [m.keyed k t hm]
  unfold Iter
  rw [hes, List.map_map]
  exact congrArg _ ((List.map_congr_left hid).trans (List.map_id es)).symm

end Lib.Keyed

namespace HashCluster

theorem hash_insertInstance (c : Cluster) (d : DeploymentInfo) (servers : List ServerInfo) :
    (c.insertInstance d servers).hash = c.hash.insertInstance d servers := by
  unfold Cluster.hash Cluster.insertInstance insertInstance
  dsimp only
  rw [Keyed.map_upsert]
  intro i; rfl

theorem hash_insertStats (c : Cluster) (stats : ServerStats) :
    (c.insertStats stats).hash = c.hash.insertStats stats := by
  unfold Cluster.hash Cluster.insertStats insertStats
  dsimp only
  rw [Keyed.map_upsert]
  intro s; rfl

theorem hash_removeServer (c : Cluster) (id : Uuid) :
    (c.removeServer id).2.hash = (c.hash.removeServer id).2 := by
  have hservers : c.hash.servers = c.servers := rfl
  unfold Cluster.removeServer removeServer
  rcases h : c.servers.findIdx? (·.id == id) with _ | index
  · simp only [hservers, h]
  · simp only [hservers, h]
    rfl

theorem hash_chooseScheduler {c : Cluster} {c' : HashCluster} {server : ServerInfo}
    (h : c.hash.chooseScheduler = .ok (server, c')) :
    ∃ k, c.chooseScheduler = .ok (server, k) ∧ k.hash = c' := by
  obtain ⟨first, hfirst, h⟩ := bind_eq_ok.mp h
  obtain ⟨rfl, rfl⟩ := Prod.mk.inj (Except.ok.inj h)
  exact ⟨_, bind_eq_ok.mpr ⟨first, hfirst, rfl⟩, rfl⟩

/-- **Every cluster that the operations build stores its entries under their own ids.** -/
theorem Reachable.keyed {c : HashCluster} (h : Reachable c) : ∃ k : Cluster, k.hash = c := by
  induction h with
  | new scheduler => exact ⟨Cluster.new scheduler, rfl⟩
  | withGroup group => exact ⟨Cluster.withGroup group, rfl⟩
  | pushServer server _ ih =>
    obtain ⟨k, rfl⟩ := ih
    exact ⟨{ k with servers := k.servers ++ [server] }, rfl⟩
  | insertInstance d servers _ ih =>
    obtain ⟨k, rfl⟩ := ih
    exact ⟨k.insertInstance d servers, hash_insertInstance k d servers⟩
  | insertStats stats _ ih =>
    obtain ⟨k, rfl⟩ := ih
    exact ⟨k.insertStats stats, hash_insertStats k stats⟩
  | removeServer id _ ih =>
    obtain ⟨k, rfl⟩ := ih
    exact ⟨(k.removeServer id).2, hash_removeServer k id⟩
  | chooseScheduler _ hc ih =>
    obtain ⟨k, rfl⟩ := ih
    obtain ⟨k', -, hk⟩ := hash_chooseScheduler hc
    exact ⟨k', hk⟩

/-! ### On the wire -/

variable [Crates]

/-- The decoder stores what it reads as `Cluster.tryFrom` does. -/
theorem tryFrom_hash (state : ClusterState) :
    tryFrom state = (Cluster.tryFrom state).map Cluster.hash := by
  have hmap : ∀ l : List AppInstancesInfo,
      IdMap.collect (l.map fun i => (i.deployment.id, i)) = (Keyed.ofList l : AppInstanceMap).map :=
    fun l => (Keyed.map_ofList l).symm
  unfold tryFrom Cluster.tryFrom
  simp only [hmap]
  rcases state.group with _ | g
  · rfl
  · dsimp only
    rcases GroupInfo.tryFrom g with e | group
    · rfl
    · rcases state.servers.mapM ServerInfo.tryFrom with e | servers
      · rfl
      · rcases state.instances.mapM AppInstancesInfo.tryFrom with e | instances
        · rfl
        · rfl

/-- **A snapshot survives the wire**: decoding gives back the group, the servers in their order and
the instances with their locations, whatever the order in which these were sent. Only the stats are
gone. -/
theorem tryFrom_into_reachable {c : HashCluster} (h : Reachable c) {it : List AppInstancesInfo}
    (hit : IdMap.Values c.instances it) :
    tryFrom (c.into it) = .ok { c with serverStats := ∅ } := by
  obtain ⟨k, rfl⟩ := h.keyed
  have hk : Cluster.tryFrom (k.into it) = .ok k.withoutStats :=
    Cluster.tryFrom_into (Keyed.iter_of_values hit)
  show tryFrom (k.into it) = _
  rw [tryFrom_hash, hk]
  rfl

end HashCluster

/-! ### A snapshot with instances -/

section Example

attribute [local instance] Crates.hyphenated

def placedServer : ServerInfo := ⟨1, "http://10.0.0.1:50051"⟩

def joinedServer : ServerInfo := ⟨2, "http://10.0.0.2:50051"⟩

def placedDeployment : DeploymentInfo := ⟨7, "face", "https://example.com/face.tgz"⟩

def otherDeployment : DeploymentInfo := ⟨8, "hello", "https://example.com/hello.tgz"⟩

/-- Two servers, of which the second one has reported a window. One deployment is placed on both,
the other one on the second. -/
def placedCluster : HashCluster :=
  (((((HashCluster.new placedServer).pushServer joinedServer).insertInstance placedDeployment
    [placedServer]).insertInstance otherDeployment [joinedServer]).insertInstance placedDeployment
    [joinedServer]).insertStats ⟨joinedServer, [⟨none, none⟩]⟩

/-- The instances are sent in the order in which the map happens to yield them. -/
theorem placedCluster_survives :
    HashCluster.tryFrom (placedCluster.into
        [⟨otherDeployment, [joinedServer]⟩, ⟨placedDeployment, [placedServer, joinedServer]⟩]) =
      .ok { placedCluster with serverStats := ∅ } :=
  HashCluster.tryFrom_into_reachable
    (.insertStats _ (.insertInstance _ _ (.insertInstance _ _ (.insertInstance _ _
      (.pushServer _ (.new _))))))
    ⟨[⟨8, ⟨otherDeployment, [joinedServer]⟩⟩,
      ⟨7, ⟨placedDeployment, [placedServer, joinedServer]⟩⟩], by decide, rfl⟩

end Example

end Laqista
