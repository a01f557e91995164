import Laqista.Scheduler.Handlers

/-! # Deployments and instances

A runtime keeps the deployments it knows and, in its cluster, the instances. `deploy_in_us` writes
both together, and no other section writes either of them; so they have the same keys and the same
information (`Matched`) as long as a task that is about to place a deployment has the one that is
stored under its id, if there is one (`TasksKnown`). Both are kept by every step (`known_step`,
`matched_step`), because a new deployment gets a new id. -/

namespace Laqista

open Laqista.Proto Laqista.Lib Laqista.Lib.Runs Laqista.Lib.Tasks

/-- The deployments are those of the instances. -/
def SchedulerRuntime.Matched (rt : SchedulerRuntime) : Prop :=
  ∀ id, rt.deployments.lookup id = (rt.cluster.instances.lookup id).map (·.deployment)

/-- The tasks agree on what an id stands for, among themselves and with the runtime. -/
structure TasksKnown (sys : Atomic SchedulerRuntime Task) : Prop where
  tasks : ∀ t ∈ sys.tasks, ∀ u ∈ sys.tasks, ∀ d e, t.deployment = some d → u.deployment = some e →
    d.id = e.id → d = e
  stored : ∀ t ∈ sys.tasks, ∀ d e, t.deployment = some d →
    sys.shared.deployments.lookup d.id = some e → e = d

/-- A task is about to place the deployment, or it is stored. -/
def Known (sys : Atomic SchedulerRuntime Task) (d : DeploymentInfo) : Prop :=
  (∃ t ∈ sys.tasks, t.deployment = some d) ∨ sys.shared.deployments.lookup d.id = some d

theorem known_agree {s : Atomic SchedulerRuntime Task} (h : TasksKnown s) {d e : DeploymentInfo}
    (hd : Known s d) (he : Known s e) (hid : d.id = e.id) : d = e := by
  rcases hd with ⟨t, ht, hd⟩ | hd
  · rcases he with ⟨u, hu, he⟩ | he
    · exact h.tasks t ht u hu d e hd he hid
    · rw [← hid] at he
      exact (h.stored t ht d e hd he).symm
  · rcases he with ⟨u, hu, he⟩ | he
    · rw [hid] at hd
      exact h.stored u hu e d he hd
    · rw [hid, he] at hd
      exact (Option.some.inj hd).symm

/-- A new id is not the id of a known deployment. -/
theorem fresh_ne {s : Atomic SchedulerRuntime Task} {id : Uuid} (h : FreshId s.shared s.tasks id)
    {d : DeploymentInfo} (hd : Known s d) : d.id ≠ id := by
  obtain ⟨hstored, -, htasks⟩ := h
  rcases hd with ⟨t, ht, hd⟩ | hd
  · exact htasks t ht d hd
  · rintro rfl
    exact hstored (Keyed.mem_ids_of_lookup hd)

theorem tasksKnown_new (rt : SchedulerRuntime) : TasksKnown ⟨rt, []⟩ := by
  refine ⟨fun t ht => ?_, fun t ht => ?_⟩
  · simp at ht
  · simp at ht

/-- Recording a deployment writes both maps, and the old information of an instance is the same. -/
theorem matched_record {rt : SchedulerRuntime} (h : rt.Matched) {d : DeploymentInfo}
    (hd : ∀ e, rt.deployments.lookup d.id = some e → e = d) (target : ServerInfo) :
    (rt.record d target).Matched := by
  intro id
  unfold SchedulerRuntime.record
  dsimp only
  rw [Keyed.lookup_insert, Cluster.lookup_insertInstance]
  by_cases hid : id = d.id
  · rw [if_pos hid, if_pos hid]
    rcases hi : rt.cluster.instances.lookup d.id with _ | i
    · rfl
    · have hold := h d.id
      rw [hi] at hold
      have hinfo : i.deployment = d := hd _ hold
      show some d = some i.deployment
      rw [hinfo]
  · rw [if_neg hid, if_neg hid]
    exact h id

/-- A scheduler without instances starts matched, and only such a one. -/
theorem matched_new {cluster : Cluster} :
    (SchedulerRuntime.new cluster).Matched ↔ cluster.instances.ids = ∅ := by
  constructor
  · intro h
    refine Finset.eq_empty_of_forall_notMem fun id hid => ?_
    obtain ⟨i, hi⟩ := Keyed.mem_ids.mp hid
    have hm := h id
    unfold SchedulerRuntime.new at hm
    dsimp only at hm
    rw [Keyed.lookup_empty, hi] at hm
    simp at hm
  · intro h id
    have hnone : cluster.instances.lookup id = none := by
      rw [Keyed.lookup_eq_none, h]
      exact Finset.notMem_empty id
    unfold SchedulerRuntime.new
    dsimp only
    rw [Keyed.lookup_empty, hnone]
    rfl

/-! ### Where the deployment of a task comes from -/

section Origin

variable [Crates]

theorem startCall_deployment {rt : SchedulerRuntime} {tasks : List Task} {r : Call} {t : Task}
    (h : startCall rt tasks r = some t) {d : DeploymentInfo} (hd : t.deployment = some d) :
    FreshId rt tasks d.id := by
  rcases r with r | r | ⟨r, id⟩ | r | ⟨result, server⟩
  · simp only [startCall] at h
    split at h <;> (cases h; cases hd)
  · simp only [startCall] at h
    split at h <;> (cases h; cases hd)
  · simp only [startCall] at h
    split_ifs at h with hf
    obtain rfl := Option.some.inj h
    obtain rfl := Option.some.inj hd
    exact hf
  · obtain rfl := Option.some.inj h
    cases hd
  · simp only [startCall] at h
    split at h <;> (cases h; cases hd)

omit [Crates] in
theorem awaitAnswer_deployment {t t' : Task} {w : Told} (h : awaitAnswer t w = some t')
    {d : DeploymentInfo} (hd : t'.deployment = some d) : t.deployment = some d := by
  unfold awaitAnswer at h
  split at h <;> cases h <;> first | exact hd | cases hd

/-- Only checks are spawned. -/
theorem sectionBody_spawned {rt : SchedulerRuntime} {t : Task} {w : Told}
    {o : Outcome SchedulerRuntime Task} (h : sectionBody rt t w = some o) {u : Task}
    (hu : u ∈ o.spawned) : u.deployment = none := by
  cases section_of h with
  | found deploymentId target id =>
    rw [List.mem_singleton.mp hu]
    rfl
  | _ => simp [leave] at hu

/-- A section leaves its own deployment to its task, or one that is stored. -/
theorem sectionBody_next {rt : SchedulerRuntime} {t : Task} {w : Told}
    {o : Outcome SchedulerRuntime Task} (h : sectionBody rt t w = some o) {d : DeploymentInfo}
    (hd : o.next.deployment = some d) :
    t.deployment = some d ∨ rt.deployments.lookup d.id = some d := by
  cases section_of h with
  | cloneInner e => exact Or.inl hd
  | chosen e it target => exact Or.inl hd
  | scales target id e hscale =>
    obtain rfl := Option.some.inj hd
    obtain ⟨stats, -, -, hlook⟩ := scaleCheck_eq_some.mp hscale
    right
    rw [Keyed.key_of_lookup hlook]
    exact hlook
  | _ => simp [leave, Task.deployment] at hd

/-- **Where the deployment of a task comes from**: another task, the stored ones, or it is new. -/
theorem astep_deployment {s s' : Atomic SchedulerRuntime Task} {a : Act Call Told}
    (h : schedulerTasks.astep s a = some s') {u : Task} (hu : u ∈ s'.tasks) {d : DeploymentInfo}
    (hd : u.deployment = some d) :
    Known s d ∨ (FreshId s.shared s.tasks d.id ∧ ∀ v ∈ s'.tasks, v ∈ s.tasks ∨ v = u) := by
  rcases TaskSystem.astep_cases h with ⟨r, t, rfl, ht, rfl⟩ | ⟨i, w, t, o, rfl, ht, -, ho, rfl⟩ |
    ⟨i, w, t, t', rfl, ht, -, ha, rfl⟩ | ⟨i, rfl, rfl⟩
  · rcases List.mem_append.mp hu with hu | hu
    · exact Or.inl (Or.inl ⟨u, hu, hd⟩)
    · have hut := List.mem_singleton.mp hu
      subst hut
      refine Or.inr ⟨startCall_deployment ht hd, fun v hv => ?_⟩
      rcases List.mem_append.mp hv with hv | hv
      · exact Or.inl hv
      · exact Or.inr (List.mem_singleton.mp hv)
  · have hmem := List.mem_of_getElem? ht
    rcases List.mem_append.mp hu with hu | hu
    · rcases List.mem_or_eq_of_mem_set hu with hu | rfl
      · exact Or.inl (Or.inl ⟨u, hu, hd⟩)
      · rcases sectionBody_next ho hd with hd | hd
        · exact Or.inl (Or.inl ⟨t, hmem, hd⟩)
        · exact Or.inl (Or.inr hd)
    · rw [sectionBody_spawned ho hu] at hd
      simp at hd
  · have hmem := List.mem_of_getElem? ht
    rcases List.mem_or_eq_of_mem_set hu with hu | rfl
    · exact Or.inl (Or.inl ⟨u, hu, hd⟩)
    · exact Or.inl (Or.inl ⟨t, hmem, awaitAnswer_deployment ha hd⟩)
  · rcases List.mem_or_eq_of_mem_set hu with hu | rfl
    · exact Or.inl (Or.inl ⟨u, hu, hd⟩)
    · cases hd

/-- The stored deployments change only when one is recorded. -/
theorem astep_stored {s s' : Atomic SchedulerRuntime Task} {a : Act Call Told}
    (h : schedulerTasks.astep s a = some s') :
    (s'.shared.deployments = s.shared.deployments ∧
        s'.shared.cluster.instances = s.shared.cluster.instances) ∨
      ∃ d target, Task.record d target ∈ s.tasks ∧ s'.shared = s.shared.record d target := by
  rcases TaskSystem.astep_cases h with ⟨r, t, rfl, -, rfl⟩ | ⟨i, w, t, o, rfl, ht, -, ho, rfl⟩ |
    ⟨i, w, t, t', rfl, -, -, -, rfl⟩ | ⟨i, rfl, rfl⟩
  · exact Or.inl ⟨rfl, rfl⟩
  · rcases sectionBody_shared ho with ⟨server, -, rfl⟩ | ⟨stats, -, rfl⟩ | ⟨d, target, rfl, rfl⟩ |
      ⟨id, -, rfl⟩ | ⟨-, hsh⟩
    · exact Or.inl ⟨rfl, rfl⟩
    · exact Or.inl ⟨rfl, rfl⟩
    · exact Or.inr ⟨d, target, List.mem_of_getElem? ht, rfl⟩
    · exact Or.inl ⟨rfl, Cluster.removeServer_instances _ _⟩
    · dsimp only
      rw [hsh]
      exact Or.inl ⟨rfl, rfl⟩
  · exact Or.inl ⟨rfl, rfl⟩
  · exact Or.inl ⟨rfl, rfl⟩

/-- What is stored after a step was known before it. -/
theorem known_of_stored {s s' : Atomic SchedulerRuntime Task} {a : Act Call Told}
    (h : schedulerTasks.astep s a = some s') {id : Uuid} {e : DeploymentInfo}
    (he : s'.shared.deployments.lookup id = some e) : Known s e := by
  have hkey := Keyed.key_of_lookup he
  rcases astep_stored h with ⟨hdep, -⟩ | ⟨d, target, hmem, hsh⟩
  · rw [hdep, ← hkey] at he
    exact Or.inr he
  · have hdep : s'.shared.deployments = s.shared.deployments.insert d := by rw [hsh]; rfl
    rw [hdep, Keyed.lookup_insert] at he
    split_ifs at he with hid
    · obtain rfl := Option.some.inj he
      exact Or.inl ⟨_, hmem, rfl⟩
    · rw [← hkey] at he
      exact Or.inr he

/-! ### What every step keeps -/

theorem known_step {s s' : Atomic SchedulerRuntime Task} {a : Act Call Told} (h : TasksKnown s)
    (hs : schedulerTasks.astep s a = some s') : TasksKnown s' := by
  constructor
  · intro t ht u hu d e hd he hid
    rcases astep_deployment hs ht hd with hkd | ⟨hfresh, honly⟩
    · rcases astep_deployment hs hu he with hke | ⟨hfresh, honly⟩
      · exact known_agree h hkd hke hid
      · exact absurd hid (fresh_ne hfresh hkd)
    · -- the task is new, and every other task is an old one
      rcases honly u hu with hu | rfl
      · exact absurd hid.symm (fresh_ne hfresh (Or.inl ⟨u, hu, he⟩))
      · rw [hd] at he
        exact Option.some.inj he
  · intro t ht d e hd he
    have hke := known_of_stored hs he
    have hid := Keyed.key_of_lookup he
    rcases astep_deployment hs ht hd with hkd | ⟨hfresh, -⟩
    · exact known_agree h hke hkd hid
    · exact absurd hid (fresh_ne hfresh hke)

theorem matched_step {s s' : Atomic SchedulerRuntime Task} {a : Act Call Told} (hk : TasksKnown s)
    (h : s.shared.Matched) (hs : schedulerTasks.astep s a = some s') : s'.shared.Matched := by
  rcases astep_stored hs with ⟨hdep, hinst⟩ | ⟨d, target, hmem, hsh⟩
  · intro id
    rw [hdep, hinst]
    exact h id
  · rw [hsh]
    exact matched_record h (fun e he => hk.stored _ hmem d e rfl he) target

/-- The tasks of a scheduler keep its deployments matched. -/
theorem matched_run {sys sys' : Atomic SchedulerRuntime Task} {bs : List (Act Call Told)}
    (hk : TasksKnown sys) (h : sys.shared.Matched)
    (hrun : run schedulerTasks.astep sys bs = some sys') :
    sys'.shared.Matched := by
  have hboth : TasksKnown sys' ∧ sys'.shared.Matched :=
    run_invariant (I := fun t => TasksKnown t ∧ t.shared.Matched)
      (fun _ _ _ ht hb => ⟨known_step ht.1 hb, matched_step ht.1 ht.2 hb⟩) ⟨hk, h⟩ hrun
  exact hboth.2

/-- So do they with the mutex. -/
theorem matched_locked {rt : SchedulerRuntime} {s : Locked SchedulerRuntime Task}
    {as : List (LAct Call Told)} (h : rt.Matched)
    (hrun : run schedulerTasks.lstep (unlocked rt) as = some s) : s.shared.Matched := by
  obtain ⟨bs, hb⟩ := locked_reaches_atomic (orderly_unlocked schedulerTasks rt) hrun
  exact matched_run (tasksKnown_new rt) h hb

end Origin

end Laqista
