import Laqista.Scheduler.Runtime
import Laqista.Lib.Tasks

/-! # The handlers as tasks

Every call of a handler of the scheduler is a task around the runtime's mutex, and so is the
background task that `lookup` spawns. A task is at one of its critical sections or waits for an
answer from outside (`Task`); `schedulerTasks` says what each section does and where it leads. No
section has a waiting point inside. -/

namespace Laqista

open Laqista.Proto Laqista.Lib Laqista.Lib.Tasks

/-- Where a task of the scheduler is. -/
inductive Task where
  /-- `join` in `push_server`. -/
  | pushServer (server : ServerInfo)
  /-- `join` at the group for its reply. -/
  | readGroup
  /-- `report`. -/
  | insertStats (stats : ServerStats)
  /-- `deploy` in `clone_inner`. -/
  | cloneInner (deployment : DeploymentInfo)
  /-- `deploy` waits for `save_deployment`. -/
  | saveDeployment (deployment : DeploymentInfo)
  /-- `deploy_in_us` at its first section. -/
  | chooseTarget (deployment : DeploymentInfo)
  /-- `deploy_in_us` waits for the reply of the target. -/
  | spawn (deployment : DeploymentInfo) (target : ServerInfo)
  /-- `deploy_in_us` at its second section. -/
  | record (deployment : DeploymentInfo) (target : ServerInfo)
  /-- `lookup` in `clone_inner`; the rest of it works on the clone. -/
  | lookup (deploymentId : String)
  /-- The task that `lookup` spawns. -/
  | scaleCheck (target : ServerInfo) (id : Uuid)
  /-- `handle_failed_server`. -/
  | removeServer (id : Uuid)
  | done
  deriving DecidableEq

/-- What a step is told from outside: an iteration order of the stats it schedules over, or the
answer that a waiting task gets, where `true` is the success of a spawn. -/
inductive Told where
  | nothing
  | order (it : List ServerStats)
  | answer (result : Result Bool)

/-- A call of a handler. The id of a deployment is drawn by `DeploymentInfo::new`. -/
inductive Call where
  | join (r : JoinRequest)
  | report (r : ReportRequest)
  | deploy (r : DeployRequest) (id : Uuid)
  | lookup (r : LookupRequest)
  | failedServer (result : Result Unit) (server : Server)

/-- The deployment that a task is about to place. -/
def Task.deployment : Task → Option DeploymentInfo
  | cloneInner d | saveDeployment d | chooseTarget d | spawn d _ | record d _ => some d
  | _ => none

/-- A new id is not in use (version 4 ids are random). -/
def FreshId (rt : SchedulerRuntime) (tasks : List Task) (id : Uuid) : Prop :=
  id ∉ rt.deployments.ids ∧ id ∉ rt.cluster.instances.ids ∧
    ∀ t ∈ tasks, ∀ d, t.deployment = some d → d.id ≠ id

instance (rt : SchedulerRuntime) (tasks : List Task) (id : Uuid) :
    Decidable (FreshId rt tasks id) := by
  have : DecidablePred fun t : Task => ∀ d, t.deployment = some d → d.id ≠ id := fun t =>
    match h : t.deployment with
    | none => .isTrue (by simp [h])
    | some d => decidable_of_iff (d.id ≠ id) (by simp [h])
  unfold FreshId
  infer_instance

/-- The task is at a request for the mutex. -/
def Task.enters : Task → Bool
  | saveDeployment _ | spawn _ _ | done => false
  | _ => true

/-- The section of the task changes the runtime. -/
def Task.writes : Task → Bool
  | pushServer _ | insertStats _ | record _ _ | removeServer _ => true
  | _ => false

/-- A section that gives the mutex back. -/
def leave (rt : SchedulerRuntime) (next : Task) : Outcome SchedulerRuntime Task :=
  ⟨rt, next, [], false⟩

/-- The section a task is at. A panic ends the task and drops the guard. -/
def sectionBody [Crates] (rt : SchedulerRuntime) :
    Task → Told → Option (Outcome SchedulerRuntime Task)
  | .pushServer server, .nothing => some (leave (rt.pushServer server) .readGroup)
  | .readGroup, .nothing => some (leave rt .done)
  | .insertStats stats, .nothing => some (leave (rt.insertStats stats) .done)
  | .cloneInner d, .nothing => some (leave rt (.saveDeployment d))
  | .chooseTarget d, .order it =>
    if rt.cluster.serverStats.Iter it then
      match rt.chooseTarget it with
      | .ok target => some (leave rt (.spawn d target))
      | .error _ => some (leave rt .done)
    else none
  | .record d target, .nothing => some (leave (rt.record d target) .done)
  | .lookup deploymentId, .order it =>
    match rt.lookupStats deploymentId with
    | .error _ => some (leave rt .done)
    | .ok (_, stats) =>
      if stats.Iter it then
        match rt.lookup deploymentId it with
        | .ok (.ok (target, id)) => some ⟨rt, .done, [.scaleCheck target id], false⟩
        | _ => some (leave rt .done)
      else none
  | .scaleCheck target id, .nothing =>
    match rt.scaleCheck target id with
    -- `deploy_in_us` is called while the guard is still in scope
    | .ok (some d) => some ⟨rt, .chooseTarget d, [], true⟩
    | _ => some (leave rt .done)
  | .removeServer id, .nothing => some (leave (rt.removeServer id) .done)
  | _, _ => none

/-- What an answer does to a waiting task. -/
def awaitAnswer : Task → Told → Option Task
  | .saveDeployment d, .answer (.ok _) => some (.chooseTarget d)
  | .saveDeployment _, .answer (.error _) => some .done
  | .spawn d target, .answer (.ok true) => some (.record d target)
  | .spawn _ _, .answer _ => some .done
  | _, _ => none

/-- The task of a call, which has decoded its request; a request that cannot be decoded ends it. -/
def startCall [Crates] (rt : SchedulerRuntime) (tasks : List Task) : Call → Option Task
  | .join r =>
    match joinServer r with
    | .ok (.ok server) => some (.pushServer server)
    | _ => some .done
  | .report r =>
    match reportStats r with
    | .ok stats => some (.insertStats stats)
    | .error _ => some .done
  | .deploy r id => if FreshId rt tasks id then some (.cloneInner ⟨id, r.name, r.source⟩) else none
  | .lookup r => some (.lookup r.deploymentId)
  | .failedServer result server =>
    match failedServer result server with
    | .ok (some id) => some (.removeServer id)
    | _ => some .done

/-- **The tasks of the scheduler** around the mutex of its runtime. -/
def schedulerTasks [Crates] : TaskSystem SchedulerRuntime Task Call Told where
  start := startCall
  enters := Task.enters
  body := sectionBody
  await := awaitAnswer
  halt := .done

variable [Crates]

/-! ### What the sections do -/

/-- What a section can do to its task. -/
inductive Section (rt : SchedulerRuntime) : Task → Outcome SchedulerRuntime Task → Prop
  | pushServer (server : ServerInfo) :
      Section rt (.pushServer server) (leave (rt.pushServer server) .readGroup)
  | readGroup : Section rt .readGroup (leave rt .done)
  | insertStats (stats : ServerStats) :
      Section rt (.insertStats stats) (leave (rt.insertStats stats) .done)
  | cloneInner (d : DeploymentInfo) : Section rt (.cloneInner d) (leave rt (.saveDeployment d))
  | chosen (d : DeploymentInfo) (it : List ServerStats) (target : ServerInfo) :
      rt.cluster.serverStats.Iter it → rt.chooseTarget it = .ok target →
      Section rt (.chooseTarget d) (leave rt (.spawn d target))
  | panicked (d : DeploymentInfo) (it : List ServerStats) (p : Panic) :
      rt.cluster.serverStats.Iter it → rt.chooseTarget it = .error p →
      Section rt (.chooseTarget d) (leave rt .done)
  | record (d : DeploymentInfo) (target : ServerInfo) :
      Section rt (.record d target) (leave (rt.record d target) .done)
  | found (deploymentId : String) (target : ServerInfo) (id k : Uuid) (stats : StatsMap)
      (it : List ServerStats) :
      rt.lookupStats deploymentId = .ok (k, stats) → stats.Iter it →
      rt.lookup deploymentId it = .ok (.ok (target, id)) →
      Section rt (.lookup deploymentId) ⟨rt, .done, [.scaleCheck target id], false⟩
  | notFound (deploymentId : String) : Section rt (.lookup deploymentId) (leave rt .done)
  | scales (target : ServerInfo) (id : Uuid) (d : DeploymentInfo) :
      rt.scaleCheck target id = .ok (some d) →
      Section rt (.scaleCheck target id) ⟨rt, .chooseTarget d, [], true⟩
  | stays (target : ServerInfo) (id : Uuid) :
      (∀ d, rt.scaleCheck target id ≠ .ok (some d)) →
      Section rt (.scaleCheck target id) (leave rt .done)
  | removeServer (id : Uuid) : Section rt (.removeServer id) (leave (rt.removeServer id) .done)

/-- **What a section can do.** -/
theorem section_of {rt : SchedulerRuntime} {t : Task} {w : Told}
    {o : Outcome SchedulerRuntime Task} (h : sectionBody rt t w = some o) : Section rt t o := by
  unfold sectionBody at h
  split at h
  · obtain rfl := Option.some.inj h
    exact .pushServer _
  · obtain rfl := Option.some.inj h
    exact .readGroup
  · obtain rfl := Option.some.inj h
    exact .insertStats _
  · obtain rfl := Option.some.inj h
    exact .cloneInner _
  · next d it =>
    split_ifs at h with hit
    split at h
    · next target ht =>
      obtain rfl := Option.some.inj h
      exact .chosen d it target hit ht
    · next p hp =>
      obtain rfl := Option.some.inj h
      exact .panicked d it p hit hp
  · obtain rfl := Option.some.inj h
    exact .record _ _
  · next deploymentId it =>
    split at h
    · obtain rfl := Option.some.inj h
      exact .notFound deploymentId
    · next k stats hstats =>
      split_ifs at h with hit
      split at h
      · next target id hl =>
        obtain rfl := Option.some.inj h
        exact .found deploymentId target id k stats it hstats hit hl
      · obtain rfl := Option.some.inj h
        exact .notFound deploymentId
  · next target id =>
    split at h
    · next d hd =>
      obtain rfl := Option.some.inj h
      exact .scales target id d hd
    · next hn =>
      obtain rfl := Option.some.inj h
      exact .stays target id hn
  · obtain rfl := Option.some.inj h
    exact .removeServer _
  · simp at h

/-- **The shared state after a section**: four of the sections change it. -/
theorem sectionBody_shared {rt : SchedulerRuntime} {t : Task} {w : Told}
    {o : Outcome SchedulerRuntime Task} (h : sectionBody rt t w = some o) :
    (∃ server, t = .pushServer server ∧ o = leave (rt.pushServer server) .readGroup) ∨
    (∃ stats, t = .insertStats stats ∧ o = leave (rt.insertStats stats) .done) ∨
    (∃ d target, t = .record d target ∧ o = leave (rt.record d target) .done) ∨
    (∃ id, t = .removeServer id ∧ o = leave (rt.removeServer id) .done) ∨
    (t.writes = false ∧ o.shared = rt) := by
  cases section_of h with
  | pushServer server => exact Or.inl ⟨server, rfl, rfl⟩
  | insertStats stats => exact Or.inr (Or.inl ⟨stats, rfl, rfl⟩)
  | record d target => exact Or.inr (Or.inr (Or.inl ⟨d, target, rfl, rfl⟩))
  | removeServer id => exact Or.inr (Or.inr (Or.inr (Or.inl ⟨id, rfl, rfl⟩)))
  | _ => exact Or.inr (Or.inr (Or.inr (Or.inr ⟨rfl, rfl⟩)))

/-- **No task changes the group** of the cluster. -/
theorem astep_group {s s' : Atomic SchedulerRuntime Task} {a : Act Call Told}
    (h : schedulerTasks.astep s a = some s') :
    s'.shared.cluster.group = s.shared.cluster.group := by
  rcases TaskSystem.astep_cases h with ⟨r, t, rfl, -, rfl⟩ | ⟨i, w, t, o, rfl, -, -, ho, rfl⟩ |
    ⟨i, w, t, t', rfl, -, -, -, rfl⟩ | ⟨i, rfl, rfl⟩
  · rfl
  · rcases sectionBody_shared ho with ⟨server, -, rfl⟩ | ⟨stats, -, rfl⟩ | ⟨d, target, -, rfl⟩ |
      ⟨id, -, rfl⟩ | ⟨-, hsh⟩
    · rfl
    · rfl
    · rfl
    · exact Cluster.removeServer_group _ _
    · rw [hsh]
  · rfl
  · rfl

end Laqista
