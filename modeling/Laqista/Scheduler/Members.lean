import Laqista.Scheduler.Handlers

/-! # Servers with stats or instances are members

Only the servers of a cluster are to have stats and to be locations of instances (`Members`); then a
lookup and a deployment choose members (`lookup_mem`, `chooseTarget_mem`). Of the sections, `report`
takes the stats of whoever sends them, `deploy_in_us` records a target that it has chosen in an
earlier section, and `handle_failed_server` removes a server without its stats and its instances.
`members_always_iff` says for each of the three when it keeps the invariant, and that there is no
other way to lose it. -/

namespace Laqista

open Laqista.Proto Laqista.Lib Laqista.Lib.Runs Laqista.Lib.Tasks

/-- The server is a location of an instance. -/
def Cluster.Hosts (c : Cluster) (id : Uuid) : Prop :=
  ∃ deploymentId i, c.instances.lookup deploymentId = some i ∧ ∃ s ∈ i.servers, s.id = id

/-- Only members have stats or host instances. -/
structure Members (c : Cluster) : Prop where
  stats : ∀ id ∈ c.serverStats.ids, id ∈ c.ids
  hosts : ∀ id, c.Hosts id → id ∈ c.ids

/-- The section of the task keeps the servers with stats or instances among the members. -/
def Task.KeepsMembers (rt : SchedulerRuntime) : Task → Prop
  | insertStats stats => stats.server.id ∈ rt.cluster.ids
  | record _ target => target.id ∈ rt.cluster.ids
  | removeServer id => 2 ≤ rt.cluster.ids.count id ∨
      (id ∉ rt.cluster.serverStats.ids ∧ ¬ rt.cluster.Hosts id)
  | _ => True

/-- If the step is a section, it keeps the members. -/
def MemberStep (s : Atomic SchedulerRuntime Task) : Act Call Told → Prop
  | .enter i _ => ∀ t, s.tasks[i]? = some t → t.KeepsMembers s.shared
  | _ => True

/-! ### The operations on a cluster -/

theorem hosts_iff {c : Cluster} {id : Uuid} : c.Hosts id ↔ ∃ d, c.HostedBy d id := by
  unfold Cluster.Hosts Cluster.HostedBy
  simp only [List.mem_map]

theorem hosts_insertInstance {c : Cluster} {d : DeploymentInfo} {target : ServerInfo} {id : Uuid} :
    (c.insertInstance d [target]).Hosts id ↔ id = target.id ∨ c.Hosts id := by
  simp only [hosts_iff, Cluster.hostedBy_insertInstance]
  constructor
  · rintro ⟨k, ⟨-, hid⟩ | hk⟩
    · exact Or.inl hid
    · exact Or.inr ⟨k, hk⟩
  · rintro (hid | ⟨k, hk⟩)
    · exact ⟨d.id, Or.inl ⟨rfl, hid⟩⟩
    · exact ⟨k, Or.inr hk⟩

theorem members_new (server : ServerInfo) : Members (Cluster.new server) where
  stats := by
    intro id hid
    cases hid
  hosts := by
    rintro id ⟨k, i, hi, -⟩
    cases hi

theorem members_insertStats {c : Cluster} (h : Members c) (stats : ServerStats) :
    Members (c.insertStats stats) ↔ stats.server.id ∈ c.ids := by
  constructor
  · intro h'
    exact h'.stats _ (Cluster.mem_ids_insertStats.mpr (Or.inl rfl))
  · intro hmem
    refine ⟨fun id hid => ?_, h.hosts⟩
    rcases Cluster.mem_ids_insertStats.mp hid with rfl | hid
    · exact hmem
    · exact h.stats id hid

theorem members_insertInstance {c : Cluster} (h : Members c) (d : DeploymentInfo)
    (target : ServerInfo) : Members (c.insertInstance d [target]) ↔ target.id ∈ c.ids := by
  constructor
  · intro h'
    exact h'.hosts _ (hosts_insertInstance.mpr (Or.inl rfl))
  · intro hmem
    refine ⟨h.stats, fun id hid => ?_⟩
    rcases hosts_insertInstance.mp hid with rfl | hid
    · exact hmem
    · exact h.hosts id hid

theorem members_removeServer {c : Cluster} (h : Members c) (id : Uuid) :
    Members (c.removeServer id).2 ↔
      2 ≤ c.ids.count id ∨ (id ∉ c.serverStats.ids ∧ ¬ c.Hosts id) := by
  have hhosts : ∀ k, (c.removeServer id).2.Hosts k ↔ c.Hosts k := by
    intro k
    unfold Cluster.Hosts
    rw [Cluster.removeServer_instances]
  constructor
  · intro h'
    by_cases hcount : 2 ≤ c.ids.count id
    · exact Or.inl hcount
    · right
      have hgone : id ∉ (c.removeServer id).2.ids := fun hid =>
        hcount ((Cluster.mem_ids_removeServer.mp hid).2 rfl)
      refine ⟨fun hs => hgone (h'.stats id ?_), fun hh => hgone (h'.hosts id ((hhosts id).mpr hh))⟩
      rw [Cluster.removeServer_serverStats]
      exact hs
  · intro hc
    have keep : ∀ k, k ∈ c.ids → (k = id → k ∈ c.serverStats.ids ∨ c.Hosts k) →
        k ∈ (c.removeServer id).2.ids := by
      intro k hk hused
      refine Cluster.mem_ids_removeServer.mpr ⟨hk, fun he => ?_⟩
      rcases hc with hc | ⟨hs, hh⟩
      · rw [he]
        exact hc
      · rcases hused he with hu | hu
        · exact absurd (he ▸ hu) hs
        · exact absurd (he ▸ hu) hh
    refine ⟨fun k hk => ?_, fun k hk => ?_⟩
    · rw [Cluster.removeServer_serverStats] at hk
      exact keep k (h.stats k hk) fun _ => Or.inl hk
    · rw [hhosts] at hk
      exact keep k (h.hosts k hk) fun _ => Or.inr hk

theorem members_push {rt : SchedulerRuntime} (h : Members rt.cluster) (server : ServerInfo) :
    Members (rt.pushServer server).cluster := by
  have hids : ∀ id, id ∈ rt.cluster.ids → id ∈ (rt.pushServer server).cluster.ids := by
    intro id hid
    simp only [SchedulerRuntime.pushServer, Cluster.ids, List.map_append, List.mem_append]
    exact Or.inl hid
  exact ⟨fun id hid => hids id (h.stats id hid), fun id hid => hids id (h.hosts id hid)⟩

/-! ### What is chosen -/

/-- The target that a deployment chooses is a member. -/
theorem chooseTarget_mem {rt : SchedulerRuntime} (h : Members rt.cluster) {it : List ServerStats}
    (hit : rt.cluster.serverStats.Iter it) {target : ServerInfo}
    (ht : rt.chooseTarget it = .ok target) : target.id ∈ rt.cluster.ids := by
  rcases chooseTarget_ok ht with ⟨stats, hs, rfl⟩ | hs
  · exact h.stats _ (Keyed.mem_ids_of_lookup (hit.lookup hs))
  · exact Cluster.mem_ids.mpr ⟨target, hs, rfl⟩

section Runs

variable [Crates]

/-- The server that a lookup returns is a member. -/
theorem lookup_mem {rt : SchedulerRuntime} (h : Members rt.cluster) {deploymentId : String}
    {id : Uuid} {stats : StatsMap} (hl : rt.lookupStats deploymentId = .ok (id, stats))
    {it : List ServerStats} (hit : stats.Iter it) {target : ServerInfo}
    (ht : rt.lookup deploymentId it = .ok (.ok (target, id))) : target.id ∈ rt.cluster.ids := by
  obtain ⟨-, entry, hentry, rfl⟩ := lookup_ok ht
  obtain ⟨i, hi, rfl⟩ := lookupStats_ok hl
  obtain ⟨hlook, -⟩ := Keyed.lookup_restrict (hit.lookup hentry)
  exact h.stats _ (Keyed.mem_ids_of_lookup hlook)

/-- Only members have stats or instances, and only members are chosen. -/
structure MembersOnly (rt : SchedulerRuntime) : Prop where
  members : Members rt.cluster
  target : ∀ it target, rt.cluster.serverStats.Iter it → rt.chooseTarget it = .ok target →
    target.id ∈ rt.cluster.ids
  lookup : ∀ deploymentId id stats it target, rt.lookupStats deploymentId = .ok (id, stats) →
    stats.Iter it → rt.lookup deploymentId it = .ok (.ok (target, id)) → target.id ∈ rt.cluster.ids

theorem membersOnly_iff {rt : SchedulerRuntime} : MembersOnly rt ↔ Members rt.cluster :=
  ⟨fun h => h.members, fun h => ⟨h, fun _ _ hit ht => chooseTarget_mem h hit ht,
    fun _ _ _ _ _ hl hit ht => lookup_mem h hl hit ht⟩⟩

/-! ### Runs -/

/-- A section keeps the invariant exactly when its task does. -/
theorem members_section {rt : SchedulerRuntime} {t : Task} {w : Told}
    {o : Outcome SchedulerRuntime Task} (h : Members rt.cluster)
    (ho : sectionBody rt t w = some o) : Members o.shared.cluster ↔ t.KeepsMembers rt := by
  rcases sectionBody_shared ho with ⟨server, rfl, rfl⟩ | ⟨stats, rfl, rfl⟩ | ⟨d, target, rfl, rfl⟩ |
    ⟨id, rfl, rfl⟩ | ⟨hw, hsh⟩
  · exact iff_of_true (members_push h server) trivial
  · exact members_insertStats h stats
  · exact members_insertInstance h d target
  · exact members_removeServer h id
  · rw [hsh]
    refine iff_of_true h ?_
    cases t with
    | insertStats stats => cases hw
    | record d target => cases hw
    | removeServer id => cases hw
    | _ => trivial

theorem members_step {s s' : Atomic SchedulerRuntime Task} {a : Act Call Told}
    (h : Members s.shared.cluster) (hs : schedulerTasks.astep s a = some s') :
    Members s'.shared.cluster ↔ MemberStep s a := by
  refine (TaskSystem.astep_keeps_iff (P := fun rt => Members rt.cluster)
    (fun _ _ _ _ hm ho => members_section hm ho) h hs).trans ?_
  rcases a with r | ⟨i, w⟩ | ⟨i, w⟩ | i
  all_goals exact Iff.rfl

/-- **Only members have stats or instances, and only members are chosen**, throughout a run of a new
scheduler, exactly when in each step: a report is stored for a member, a target is recorded while it
is a member, and a server is removed that stays a member or has neither stats nor instances. -/
theorem members_always_iff (server : ServerInfo) (as : List (Act Call Told)) :
    Always schedulerTasks.astep (fun s => MembersOnly s.shared) ⟨.fromServer server, []⟩ as ↔
      EachStep schedulerTasks.astep MemberStep ⟨.fromServer server, []⟩ as := by
  simp only [membersOnly_iff]
  exact always_iff_eachStep (I := fun _ => True) (fun _ _ _ _ _ _ _ => trivial)
    (fun s a s' _ h hs => members_step h hs) trivial (members_new server)

end Runs

/-! ### A failed server that is chosen -/

section Failed

attribute [local instance] Crates.hyphenated

def failingServer : ServerInfo := ⟨2, "http://10.0.0.2:50051"⟩

/-- A second server joins, reports and is removed as failed. -/
def failedRun : List (Act Call Told) :=
  [.start (.join ⟨some failingServer.into⟩), .enter 0 .nothing,
    .start (.report ⟨some failingServer.into, []⟩), .enter 1 .nothing,
    .start (.failedServer (.error (.transportError ⟨"connection refused"⟩)) failingServer.into),
    .enter 2 .nothing]

theorem failedServer_chosen : ¬ ∀ (server : ServerInfo) (as : List (Act Call Told)),
    Always schedulerTasks.astep (fun s => MembersOnly s.shared) ⟨.fromServer server, []⟩ as := by
  intro h
  have hrun : (run schedulerTasks.astep
      ⟨.fromServer ⟨1, "http://10.0.0.1:50051"⟩, []⟩ failedRun).map
      (fun s => (s.shared.cluster.ids, s.shared.chooseTarget [⟨failingServer, []⟩],
        decide (s.shared.cluster.serverStats.Iter [⟨failingServer, []⟩]))) =
      some ([1], .ok failingServer, true) := by decide +kernel
  obtain ⟨s, hs, he⟩ := Option.map_eq_some_iff.mp hrun
  simp only [Prod.mk.injEq, decide_eq_true_eq] at he
  have hmem := (h _ failedRun failedRun s List.prefix_rfl hs).target _ _ he.2.2 he.2.1
  rw [he.1] at hmem
  exact absurd hmem (by decide)

end Failed

end Laqista
