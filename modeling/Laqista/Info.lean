import Laqista.Error
import Laqista.Proto
import Laqista.Lib.Keyed
import Laqista.Lib.Fallible

/-! # Servers, groups, deployments and instances

The structures that the program computes with, and their conversions to and from messages
(`Into`, `TryFrom`). Encoding an id prints it and decoding parses it, so decoding undoes encoding
(`tryFrom_into`), while decoding an arbitrary message can fail. -/

namespace Laqista

open Laqista.Proto Laqista.Lib

/-- `Result`. -/
abbrev Result (α : Type) := Except Error α

structure ServerInfo where
  id : Uuid
  addr : String
  deriving DecidableEq, Repr

structure GroupInfo where
  number : UInt32
  schedulerInfo : ServerInfo
  deriving DecidableEq, Repr

structure DeploymentInfo where
  id : Uuid
  name : String
  source : String
  deriving DecidableEq, Repr

structure AppInstancesInfo where
  deployment : DeploymentInfo
  servers : List ServerInfo
  deriving DecidableEq, Repr

/-- `IdMap<AppInstancesInfo>`: instances are stored under the id of their deployment. -/
abbrev AppInstanceMap := Keyed fun i : AppInstancesInfo => i.deployment.id

/-- `IdMap<DeploymentInfo>`: deployments are stored under their id. -/
abbrev DeploymentMap := Keyed fun d : DeploymentInfo => d.id

def GroupInfo.new (scheduler : ServerInfo) : GroupInfo := ⟨0, scheduler⟩

variable [Crates]

/-- `Uuid::parse_str(..)?`. -/
def parseId (id : String) : Result Uuid :=
  match parseUuid id with
  | .ok u => .ok u
  | .error e => .error (.fromUuid e)

@[simp] theorem parseId_printUuid (u : Uuid) : parseId (printUuid u) = .ok u := by
  simp [parseId]

/-! ### Servers -/

def ServerInfo.into (s : ServerInfo) : Server := ⟨printUuid s.id, s.addr⟩

def ServerInfo.tryFrom (server : Server) : Result ServerInfo := do
  let id ← parseId server.id
  return ⟨id, server.addr⟩

@[simp] theorem ServerInfo.tryFrom_into (s : ServerInfo) : ServerInfo.tryFrom s.into = .ok s := by
  simp [ServerInfo.tryFrom, ServerInfo.into]

/-- Decoding a list undoes encoding it. -/
theorem mapM_serverInfo (l : List ServerInfo) :
    (l.map ServerInfo.into).mapM ServerInfo.tryFrom = .ok l := by
  rw [mapM_map_ok ServerInfo.tryFrom_into, List.map_id']

/-! ### Groups -/

def GroupInfo.into (g : GroupInfo) : Group := ⟨g.number, some g.schedulerInfo.into⟩

def GroupInfo.tryFrom (group : Group) : Result GroupInfo := do
  let schedulerInfo ← match group.scheduler with
    | some s => ServerInfo.tryFrom s
    | none => .error (.fromString "No scheduler")
  return ⟨group.number, schedulerInfo⟩

@[simp] theorem GroupInfo.tryFrom_into (g : GroupInfo) : GroupInfo.tryFrom g.into = .ok g := by
  simp [GroupInfo.tryFrom, GroupInfo.into]

/-! ### Deployments -/

def DeploymentInfo.into (d : DeploymentInfo) : Deployment := ⟨printUuid d.id, d.source, d.name⟩

def DeploymentInfo.tryFrom (deployment : Deployment) : Result DeploymentInfo := do
  let id ← parseId deployment.id
  return ⟨id, deployment.name, deployment.source⟩

@[simp] theorem DeploymentInfo.tryFrom_into (d : DeploymentInfo) :
    DeploymentInfo.tryFrom d.into = .ok d := by
  simp [DeploymentInfo.tryFrom, DeploymentInfo.into]

/-! ### Instances -/

def AppInstancesInfo.into (i : AppInstancesInfo) : AppInstanceLocations :=
  ⟨some i.deployment.into, i.servers.map ServerInfo.into⟩

def AppInstancesInfo.tryFrom (locations : AppInstanceLocations) : Result AppInstancesInfo := do
  let deployment ← match locations.deployment with
    | some d => DeploymentInfo.tryFrom d
    | none => .error (.fromString "Deployment cannot be empty")
  let servers ← locations.locations.mapM ServerInfo.tryFrom
  return ⟨deployment, servers⟩

@[simp] theorem AppInstancesInfo.tryFrom_into (i : AppInstancesInfo) :
    AppInstancesInfo.tryFrom i.into = .ok i := by
  unfold AppInstancesInfo.tryFrom AppInstancesInfo.into
  simp only [DeploymentInfo.tryFrom_into, mapM_serverInfo, ok_bind, pure_eq_ok]

theorem mapM_appInstancesInfo (l : List AppInstancesInfo) :
    (l.map AppInstancesInfo.into).mapM AppInstancesInfo.tryFrom = .ok l := by
  rw [mapM_map_ok AppInstancesInfo.tryFrom_into, List.map_id']

end Laqista
