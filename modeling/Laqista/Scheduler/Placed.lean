import Laqista.Scheduler.Handlers

/-! # Placing a deployment, on the side of the scheduler

`deploy_in_us` calls `spawn` at a target and records the target when the call has succeeded. Only
then does a step change the deployments and the instances (`astep_recorded`), and only success
leads there (`astep_recording`). If every server calls with the address of its id, the scheduler
knows and calls servers under these addresses only (`astep_at`). -/

namespace Laqista

open Laqista.Proto Laqista.Lib Laqista.Lib.Tasks

/-- A call of `spawn` by the scheduler: its task there, the deployment, and the server it calls. -/
structure SpawnCall where
  task : ℕ
  deployment : DeploymentInfo
  target : ServerInfo
  deriving DecidableEq

/-- The call whose reply a task of the scheduler waits for. -/
def waiting (sys : Atomic SchedulerRuntime Task) (i : ℕ) : Option SpawnCall :=
  match sys.tasks[i]? with
  | some (.spawn deployment target) => some ⟨i, deployment, target⟩
  | _ => none

/-- The step is a successful reply to a task that waits for one. -/
def succeeds (sys : Atomic SchedulerRuntime Task) : Act Call Told → Bool
  | .await i (.answer (.ok true)) => (waiting sys i).isSome
  | _ => false

/-- The call that a step records. -/
def recorded (sys : Atomic SchedulerRuntime Task) : Act Call Told → Option SpawnCall
  | .enter i _ =>
    match sys.tasks[i]? with
    | some (.record deployment target) => some ⟨i, deployment, target⟩
    | _ => none
  | _ => none

/-- The task is on its way to a placement and has not come to recording it. -/
def Task.unplaced : Task → Bool
  | cloneInner _ | saveDeployment _ | chooseTarget _ | spawn _ _ => true
  | _ => false

/-- The server is a location of the deployment. -/
def Cluster.Locates (c : Cluster) (id : Uuid) (server : ServerInfo) : Prop :=
  ∃ i, c.instances.lookup id = some i ∧ server ∈ i.servers

/-- The scheduler's instances after these calls have been recorded. -/
def recordAll (rt : SchedulerRuntime) (calls : List SpawnCall) : SchedulerRuntime :=
  calls.foldl (fun rt call => rt.record call.deployment call.target) rt

/-- The same deployments and instances. -/
def SameStored (rt rt' : SchedulerRuntime) : Prop :=
  rt.deployments = rt'.deployments ∧ rt.cluster.instances = rt'.cluster.instances

theorem locates_record {rt : SchedulerRuntime} {d : DeploymentInfo} {target : ServerInfo}
    {id : Uuid} {server : ServerInfo} (h : (rt.record d target).cluster.Locates id server) :
    rt.cluster.Locates id server ∨ (id = d.id ∧ server = target) := by
  obtain ⟨i, hi, hs⟩ := h
  have hlookup : (rt.cluster.insertInstance d [target]).instances.lookup id = some i := hi
  rw [Cluster.lookup_insertInstance] at hlookup
  split_ifs at hlookup with hid
  · subst hid
    rcases hold : rt.cluster.instances.lookup d.id with _ | old
    · rw [hold] at hlookup
      obtain rfl := Option.some.inj hlookup
      exact .inr ⟨rfl, List.mem_singleton.mp hs⟩
    · rw [hold] at hlookup
      obtain rfl := Option.some.inj hlookup
      rcases List.mem_append.mp hs with hs | hs
      · exact .inl ⟨old, hold, hs⟩
      · exact .inr ⟨rfl, List.mem_singleton.mp hs⟩
  · exact .inl ⟨i, hlookup, hs⟩

theorem recordAll_append (rt : SchedulerRuntime) (calls : List SpawnCall) (call : SpawnCall) :
    recordAll rt (calls ++ [call]) =
      (recordAll rt calls).record call.deployment call.target := by
  unfold recordAll
  rw [List.foldl_append]
  rfl

theorem SameStored.trans {rt₁ rt₂ rt₃ : SchedulerRuntime} (h : SameStored rt₁ rt₂)
    (h' : SameStored rt₂ rt₃) : SameStored rt₁ rt₃ :=
  ⟨h.1.trans h'.1, h.2.trans h'.2⟩

/-- Recording a call changes the same in runtimes that store the same. -/
theorem SameStored.record {rt rt' : SchedulerRuntime} (h : SameStored rt rt') (d : DeploymentInfo)
    (target : ServerInfo) : SameStored (rt.record d target) (rt'.record d target) := by
  obtain ⟨hd, hi⟩ := h
  unfold SameStored SchedulerRuntime.record Cluster.insertInstance
  rw [hd, hi]
  exact ⟨rfl, rfl⟩

theorem waiting_eq_some {sys : Atomic SchedulerRuntime Task} {i : ℕ} {call : SpawnCall} :
    waiting sys i = some call ↔
      call.task = i ∧ sys.tasks[i]? = some (.spawn call.deployment call.target) := by
  unfold waiting
  split
  · next d target ht =>
    rw [ht]
    constructor
    · intro h
      obtain rfl := Option.some.inj h
      exact ⟨rfl, rfl⟩
    · rintro ⟨rfl, h⟩
      obtain ⟨rfl, rfl⟩ := Task.spawn.inj (Option.some.inj h)
      rfl
  · next hne =>
    constructor
    · intro h
      simp at h
    · rintro ⟨-, h⟩
      exact absurd h (hne _ _)

theorem recorded_eq_some {sys : Atomic SchedulerRuntime Task} {i : ℕ} {w : Told}
    {call : SpawnCall} : recorded sys (.enter i w) = some call ↔
      call.task = i ∧ sys.tasks[i]? = some (.record call.deployment call.target) := by
  unfold recorded
  dsimp only
  split
  · next d target ht =>
    rw [ht]
    constructor
    · intro h
      obtain rfl := Option.some.inj h
      exact ⟨rfl, rfl⟩
    · rintro ⟨rfl, h⟩
      obtain ⟨rfl, rfl⟩ := Task.record.inj (Option.some.inj h)
      rfl
  · next hne =>
    constructor
    · intro h
      simp at h
    · rintro ⟨-, h⟩
      exact absurd h (hne _ _)

variable [Crates] {sys sys' : Atomic SchedulerRuntime Task} {a : Act Call Told}

/-- **What is stored changes only when a call is recorded**; its task has ended then. -/
theorem astep_recorded (h : schedulerTasks.astep sys a = some sys') :
    (recorded sys a = none ∧ SameStored sys'.shared sys.shared) ∨
      ∃ call, recorded sys a = some call ∧
        sys.tasks[call.task]? = some (.record call.deployment call.target) ∧
        sys'.tasks[call.task]? = some .done ∧
        (∀ i t, i ≠ call.task → sys.tasks[i]? = some t → sys'.tasks[i]? = some t) ∧
        sys'.shared = sys.shared.record call.deployment call.target := by
  rcases TaskSystem.astep_cases h with ⟨r, t, rfl, -, rfl⟩ | ⟨i, w, t, o, rfl, ht, -, ho, rfl⟩ |
    ⟨i, w, t, t', rfl, -, -, -, rfl⟩ | ⟨i, rfl, rfl⟩
  · exact .inl ⟨rfl, rfl, rfl⟩
  · have hnone : (∀ d target, t ≠ .record d target) → recorded sys (.enter i w) = none := by
      intro hne
      rw [Option.eq_none_iff_forall_ne_some]
      intro call hcall
      obtain ⟨-, hrecord⟩ := recorded_eq_some.mp hcall
      rw [ht] at hrecord
      exact hne _ _ (Option.some.inj hrecord)
    have hi : i < sys.tasks.length := (List.getElem?_eq_some_iff.mp ht).1
    rcases sectionBody_shared ho with ⟨server, rfl, rfl⟩ | ⟨stats, rfl, rfl⟩ |
      ⟨d, target, rfl, rfl⟩ | ⟨id, rfl, rfl⟩ | ⟨hw, hsh⟩
    · exact .inl ⟨hnone (by simp), rfl, rfl⟩
    · exact .inl ⟨hnone (by simp), rfl, rfl⟩
    · refine .inr ⟨⟨i, d, target⟩, recorded_eq_some.mpr ⟨rfl, ht⟩, ht, ?_, ?_, rfl⟩
      · simp [leave, hi]
      · intro j u hj hu
        refine getElem?_append_of_some ?_
        rw [List.getElem?_set_ne (Ne.symm hj)]
        exact hu
    · exact .inl ⟨hnone (by simp), rfl, Cluster.removeServer_instances _ _⟩
    · refine .inl ⟨hnone ?_, ?_⟩
      · rintro d target rfl
        simp [Task.writes] at hw
      · dsimp only
        rw [hsh]
        exact ⟨rfl, rfl⟩
  · exact .inl ⟨rfl, rfl, rfl⟩
  · exact .inl ⟨rfl, rfl, rfl⟩

/-- A task comes to its second section when its call has succeeded. -/
theorem astep_recording (h : schedulerTasks.astep sys a = some sys') {d : DeploymentInfo}
    {target : ServerInfo} (hd : .record d target ∈ sys'.tasks) : .record d target ∈ sys.tasks ∨
      ∃ i, a = .await i (.answer (.ok true)) ∧ sys.tasks[i]? = some (.spawn d target) := by
  rcases TaskSystem.astep_cases h with ⟨r, t, rfl, ht, rfl⟩ | ⟨i, w, t, o, rfl, ht, -, ho, rfl⟩ |
    ⟨i, w, t, t', rfl, ht, -, ha, rfl⟩ | ⟨i, rfl, rfl⟩
  · rcases List.mem_append.mp hd with hd | hd
    · exact .inl hd
    · have hstart : startCall sys.shared sys.tasks r = some (.record d target) := by
        rw [List.mem_singleton.mp hd]
        exact ht
      rcases r with r | r | ⟨r, id⟩ | r | ⟨result, server⟩
      all_goals
        simp only [startCall] at hstart
        try split at hstart
        all_goals simp at hstart
  · left
    rcases List.mem_append.mp hd with hd | hd
    · rcases List.mem_or_eq_of_mem_set hd with hd | hd
      · exact hd
      · have hsection := section_of ho
        cases hsection <;> simp [leave] at hd
    · have hsection := section_of ho
      cases hsection <;> simp [leave] at hd
  · rcases List.mem_or_eq_of_mem_set hd with hd | hd
    · exact .inl hd
    · right
      have hanswer : awaitAnswer t w = some (.record d target) := by
        rw [hd]
        exact ha
      unfold awaitAnswer at hanswer
      split at hanswer
      · simp at hanswer
      · simp at hanswer
      · obtain ⟨rfl, rfl⟩ := Task.record.inj (Option.some.inj hanswer)
        exact ⟨i, rfl, ht⟩
      · simp at hanswer
      · simp at hanswer
  · rcases List.mem_or_eq_of_mem_set hd with hd | hd
    · exact .inl hd
    · exact absurd hd (by simp [schedulerTasks])

/-- A task that has ended does nothing more. -/
theorem astep_done (h : schedulerTasks.astep sys a = some sys') {i : ℕ}
    (hi : sys.tasks[i]? = some .done) : sys'.tasks[i]? = some .done := by
  have hlt : i < sys.tasks.length := (List.getElem?_eq_some_iff.mp hi).1
  rcases TaskSystem.astep_cases h with ⟨r, t, rfl, -, rfl⟩ | ⟨j, w, t, o, rfl, ht, he, -, rfl⟩ |
    ⟨j, w, t, t', rfl, ht, -, ha, rfl⟩ | ⟨j, rfl, rfl⟩
  · exact getElem?_append_of_some hi
  · refine getElem?_append_of_some ?_
    have hne : j ≠ i := by
      rintro rfl
      rw [hi] at ht
      obtain rfl := Option.some.inj ht
      simp [schedulerTasks, Task.enters] at he
    rw [List.getElem?_set_ne hne]
    exact hi
  · have hne : j ≠ i := by
      rintro rfl
      rw [hi] at ht
      obtain rfl := Option.some.inj ht
      simp [schedulerTasks, awaitAnswer] at ha
    rw [List.getElem?_set_ne hne]
    exact hi
  · by_cases hji : j = i
    · subst hji
      simp [hlt, schedulerTasks]
    · rw [List.getElem?_set_ne hji]
      exact hi

/-! ### Addresses -/

variable {addr : Uuid → String}

/-- The server has the address of its id. -/
def ServerInfo.At (addr : Uuid → String) (server : ServerInfo) : Prop :=
  server.addr = addr server.id

/-- The server that a task brings into the cluster, or calls. -/
def Task.server : Task → Option ServerInfo
  | pushServer server => some server
  | insertStats stats => some stats.server
  | spawn _ target | record _ target => some target
  | _ => none

/-- All servers of the cluster have the addresses of their ids. -/
structure Cluster.At (addr : Uuid → String) (c : Cluster) : Prop where
  servers : ∀ server ∈ c.servers, server.At addr
  stats : ∀ id stats, c.serverStats.lookup id = some stats → stats.server.At addr
  locations : ∀ id server, c.Locates id server → server.At addr

def Task.At (addr : Uuid → String) (t : Task) : Prop :=
  ∀ server, t.server = some server → server.At addr

/-- A call by a server that has the address of its id. -/
def Call.At (addr : Uuid → String) : Call → Prop
  | join r => ∀ server, joinServer r = .ok (.ok server) → server.At addr
  | report r => ∀ stats, reportStats r = .ok stats → stats.server.At addr
  | _ => True

omit [Crates] in
theorem clusterAt_record {rt : SchedulerRuntime} (h : rt.cluster.At addr) {d : DeploymentInfo}
    {target : ServerInfo} (ht : target.At addr) : (rt.record d target).cluster.At addr := by
  refine ⟨h.servers, h.stats, fun id server hs => ?_⟩
  rcases locates_record hs with hs | ⟨-, rfl⟩
  · exact h.locations id server hs
  · exact ht

omit [Crates] in
theorem clusterAt_insertStats {rt : SchedulerRuntime} (h : rt.cluster.At addr) {stats : ServerStats}
    (hs : stats.server.At addr) : (rt.insertStats stats).cluster.At addr := by
  refine ⟨h.servers, fun id st hst => ?_, h.locations⟩
  have hlookup : (rt.cluster.insertStats stats).serverStats.lookup id = some st := hst
  rw [Cluster.lookup_insertStats] at hlookup
  split_ifs at hlookup with hid
  · rcases hold : rt.cluster.serverStats.lookup stats.server.id with _ | old
    · rw [hold] at hlookup
      obtain rfl := Option.some.inj hlookup
      exact hs
    · rw [hold] at hlookup
      obtain rfl := Option.some.inj hlookup
      exact h.stats _ old hold
  · exact h.stats id st hlookup

omit [Crates] in
/-- The target that is chosen has the address of its id. -/
theorem chooseTarget_at {rt : SchedulerRuntime} (h : rt.cluster.At addr) {it : List ServerStats}
    (hit : rt.cluster.serverStats.Iter it) {target : ServerInfo}
    (ht : rt.chooseTarget it = .ok target) : target.At addr := by
  rcases chooseTarget_ok ht with ⟨stats, hs, rfl⟩ | hs
  · exact h.stats _ stats (hit.lookup hs)
  · exact h.servers target hs

/-- What a section keeps. -/
theorem section_at {rt : SchedulerRuntime} {t : Task} {w : Told}
    {o : Outcome SchedulerRuntime Task} (h : rt.cluster.At addr) (ht : t.At addr)
    (ho : sectionBody rt t w = some o) :
    o.shared.cluster.At addr ∧ o.next.At addr ∧ ∀ u ∈ o.spawned, u.At addr := by
  have hnone : ∀ u : Task, u.server = none → u.At addr := by
    intro u hu server hs
    rw [hu] at hs
    exact absurd hs (by simp)
  have hnil : ∀ u ∈ ([] : List Task), u.At addr := by simp
  cases section_of ho with
  | pushServer server =>
    refine ⟨⟨fun s hs => ?_, h.stats, h.locations⟩, hnone _ rfl, hnil⟩
    rcases List.mem_append.mp hs with hs | hs
    · exact h.servers s hs
    · rw [List.mem_singleton.mp hs]
      exact ht server rfl
  | insertStats stats => exact ⟨clusterAt_insertStats h (ht _ rfl), hnone _ rfl, hnil⟩
  | chosen d it target hit hc =>
    refine ⟨h, fun server hs => ?_, hnil⟩
    obtain rfl := Option.some.inj hs
    exact chooseTarget_at h hit hc
  | record d target => exact ⟨clusterAt_record h (ht _ rfl), hnone _ rfl, hnil⟩
  | found deploymentId target id =>
    refine ⟨h, hnone _ rfl, fun u hu => ?_⟩
    rw [List.mem_singleton.mp hu]
    exact hnone _ rfl
  | removeServer id =>
    refine ⟨⟨fun s hs => ?_, ?_, ?_⟩, hnone _ rfl, hnil⟩
    · have hs' : s ∈ (rt.cluster.removeServer id).2.servers := hs
      rw [Cluster.removeServer_servers] at hs'
      exact h.servers s (List.mem_of_mem_eraseP hs')
    · intro k stats hst
      have hst' : (rt.cluster.removeServer id).2.serverStats.lookup k = some stats := hst
      rw [Cluster.removeServer_serverStats] at hst'
      exact h.stats k stats hst'
    · rintro k server ⟨i, hi, hs⟩
      have hi' : (rt.cluster.removeServer id).2.instances.lookup k = some i := hi
      rw [Cluster.removeServer_instances] at hi'
      exact h.locations k server ⟨i, hi', hs⟩
  | readGroup => exact ⟨h, hnone _ rfl, hnil⟩
  | cloneInner d => exact ⟨h, hnone _ rfl, hnil⟩
  | panicked d => exact ⟨h, hnone _ rfl, hnil⟩
  | notFound deploymentId => exact ⟨h, hnone _ rfl, hnil⟩
  | scales target id d hd => exact ⟨h, hnone _ rfl, hnil⟩
  | stays target id => exact ⟨h, hnone _ rfl, hnil⟩

theorem startCall_at {rt : SchedulerRuntime} {tasks : List Task} {r : Call} {t : Task}
    (hr : r.At addr) (h : startCall rt tasks r = some t) : t.At addr := by
  intro server hs
  rcases r with r | r | ⟨r, id⟩ | r | ⟨result, sender⟩
  · simp only [startCall] at h
    split at h
    · next joined hj =>
      obtain rfl := Option.some.inj h
      obtain rfl := Option.some.inj hs
      exact hr _ hj
    · obtain rfl := Option.some.inj h
      simp [Task.server] at hs
  · simp only [startCall] at h
    split at h
    · next stats hst =>
      obtain rfl := Option.some.inj h
      obtain rfl := Option.some.inj hs
      exact hr _ hst
    · obtain rfl := Option.some.inj h
      simp [Task.server] at hs
  · simp only [startCall] at h
    split_ifs at h
    obtain rfl := Option.some.inj h
    simp [Task.server] at hs
  · obtain rfl := Option.some.inj h
    simp [Task.server] at hs
  · simp only [startCall] at h
    split at h
    · obtain rfl := Option.some.inj h
      simp [Task.server] at hs
    · obtain rfl := Option.some.inj h
      simp [Task.server] at hs

omit [Crates] in
theorem awaitAnswer_at {t t' : Task} {w : Told} (ht : t.At addr) (h : awaitAnswer t w = some t') :
    t'.At addr := by
  intro server hs
  unfold awaitAnswer at h
  split at h
  · obtain rfl := Option.some.inj h
    simp [Task.server] at hs
  · obtain rfl := Option.some.inj h
    simp [Task.server] at hs
  · obtain rfl := Option.some.inj h
    exact ht server hs
  · obtain rfl := Option.some.inj h
    simp [Task.server] at hs
  · simp at h

/-- **Addresses stay those of the ids**, if every server calls with its own. -/
theorem astep_at (h : sys.shared.cluster.At addr ∧ ∀ t ∈ sys.tasks, t.At addr)
    (hr : ∀ r, a = .start r → r.At addr) (hs : schedulerTasks.astep sys a = some sys') :
    sys'.shared.cluster.At addr ∧ ∀ t ∈ sys'.tasks, t.At addr := by
  obtain ⟨hc, htasks⟩ := h
  have hdone : Task.At addr .done := by
    intro server hd
    simp [Task.server] at hd
  rcases TaskSystem.astep_cases hs with ⟨r, t, rfl, ht, rfl⟩ | ⟨i, w, t, o, rfl, ht, -, ho, rfl⟩ |
    ⟨i, w, t, t', rfl, ht, -, ha, rfl⟩ | ⟨i, rfl, rfl⟩
  · refine ⟨hc, fun u hu => ?_⟩
    rcases List.mem_append.mp hu with hu | hu
    · exact htasks u hu
    · rw [List.mem_singleton.mp hu]
      exact startCall_at (hr r rfl) ht
  · obtain ⟨hshared, hnext, hspawned⟩ := section_at hc (htasks t (List.mem_of_getElem? ht)) ho
    refine ⟨hshared, fun u hu => ?_⟩
    rcases List.mem_append.mp hu with hu | hu
    · rcases List.mem_or_eq_of_mem_set hu with hu | rfl
      · exact htasks u hu
      · exact hnext
    · exact hspawned u hu
  · refine ⟨hc, fun u hu => ?_⟩
    rcases List.mem_or_eq_of_mem_set hu with hu | rfl
    · exact htasks u hu
    · exact awaitAnswer_at (htasks t (List.mem_of_getElem? ht)) ha
  · refine ⟨hc, fun u hu => ?_⟩
    rcases List.mem_or_eq_of_mem_set hu with hu | rfl
    · exact htasks u hu
    · exact hdone

end Laqista
