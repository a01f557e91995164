import Laqista.Scheduler.Decisions
import Laqista.Scheduler.Placed

/-! # What a lookup finds

`lookup` schedules over the stats of the hosts of a deployment. A server that it returns is a host,
with the information under which its stats are stored (`looksUpHosts`). It returns one exactly when
a host has stats and the windows of the hosts are complete (`finds_iff`); `found_section` says which
sections keep that. -/

namespace Laqista

open Laqista.Proto Laqista.Lib Laqista.Lib.Tasks

namespace Cluster

/-- The server is a location of the deployment and the one whose stats are stored under its id. -/
structure KnownHost (c : Cluster) (d : Uuid) (server : ServerInfo) : Prop where
  hosts : c.HostedBy d server.id
  stored : ∃ stats, c.serverStats.lookup server.id = some stats ∧ stats.server = server

/-- A host of the deployment has stats, and all windows of the hosts are complete. -/
structure Answers (c : Cluster) (d : Uuid) : Prop where
  reported : ∃ id, c.HostedBy d id ∧ id ∈ c.serverStats.ids
  windows : ∀ id stats, c.HostedBy d id → c.serverStats.lookup id = some stats →
    ∀ w ∈ stats.stats, Complete w

/-- Stats are stored under the id of their server. -/
theorem id_of_stats {c : Cluster} {id : Uuid} {stats : ServerStats}
    (h : c.serverStats.lookup id = some stats) : stats.server.id = id :=
  Keyed.key_of_lookup (m := c.serverStats) h

theorem answers_congr {c c' : Cluster} (hi : c.instances = c'.instances)
    (hs : c.serverStats = c'.serverStats) {d : Uuid} (h : c.Answers d) : c'.Answers d := by
  refine ⟨?_, fun id stats hh hl => ?_⟩
  · obtain ⟨id, hh, hid⟩ := h.reported
    exact ⟨id, (hostedBy_congr hi).mp hh, hs ▸ hid⟩
  · exact h.windows id stats ((hostedBy_congr hi).mpr hh) (by rw [hs]; exact hl)

end Cluster

namespace SchedulerRuntime

variable [Crates]

/-- A lookup returns known hosts only. -/
def LooksUpHosts (rt : SchedulerRuntime) : Prop :=
  ∀ deploymentId d stats it target id, rt.lookupStats deploymentId = .ok (d, stats) →
    stats.Iter it → rt.lookup deploymentId it = .ok (.ok (target, id)) →
    id = d ∧ rt.cluster.KnownHost d target

/-- **A server that a lookup returns hosts the deployment**, and is known under this id. -/
theorem looksUpHosts (rt : SchedulerRuntime) : rt.LooksUpHosts := by
  intro deploymentId d stats it target id hstats hit h
  obtain ⟨⟨m, hm⟩, entry, hentry, rfl⟩ := lookup_ok h
  obtain ⟨rfl, rfl⟩ : d = id ∧ stats = m := by
    rw [hstats] at hm
    simpa using hm
  obtain ⟨i, hi, rfl⟩ := lookupStats_ok hstats
  obtain ⟨hlook, hmem⟩ := Keyed.lookup_restrict (hit.lookup hentry)
  exact ⟨rfl, ⟨i, hi, hmem⟩, entry, hlook, rfl⟩

/-- A lookup of the deployment returns a server, whatever the order of the stats. -/
def Finds (rt : SchedulerRuntime) (d : Uuid) : Prop :=
  ∀ deploymentId, parseUuid deploymentId = .ok d →
    ∃ stats, rt.lookupStats deploymentId = .ok (d, stats) ∧
      ∀ it, stats.Iter it → ∃ target, rt.lookup deploymentId it = .ok (.ok (target, d))

theorem lookupStats_eq {rt : SchedulerRuntime} {deploymentId : String} {d : Uuid}
    (h : parseUuid deploymentId = .ok d) {i : AppInstancesInfo}
    (hi : rt.cluster.instances.lookup d = some i) : rt.lookupStats deploymentId =
      .ok (d, rt.cluster.serverStats.restrict (i.servers.map (·.id))) := by
  unfold lookupStats Cluster.getInstanceServerIds
  rw [h]
  simp only [hi]

/-- A lookup returns a server if there are stats to schedule over and their windows are complete. -/
theorem exists_lookup {rt : SchedulerRuntime} {deploymentId : String} {d : Uuid} {stats : StatsMap}
    (h : rt.lookupStats deploymentId = .ok (d, stats)) {it : List ServerStats} :
    (∃ target, rt.lookup deploymentId it = .ok (.ok (target, d))) ↔
      it ≠ [] ∧ ∀ s ∈ it, ∀ w ∈ s.stats, Complete w := by
  unfold SchedulerRuntime.lookup
  rw [h]
  constructor
  · rintro ⟨target, ht⟩
    obtain ⟨scheduled, hs, hrest⟩ := bind_eq_ok.mp ht
    refine ⟨?_, isOk_scheduleBy.mp ⟨scheduled, hs⟩⟩
    rintro rfl
    obtain rfl := Except.ok.inj hs
    simp at hrest
  · rintro ⟨hne, hc⟩
    obtain ⟨scheduled, hs⟩ := isOk_scheduleBy.mpr hc
    rcases scheduled with _ | target
    · exact absurd (schedule_none hs) hne
    · exact ⟨target, bind_eq_ok.mpr ⟨some target, hs, rfl⟩⟩

omit [Crates] in
/-- The stats of the hosts, in an order of them. -/
theorem mem_hostStats {rt : SchedulerRuntime} {d : Uuid} {i : AppInstancesInfo}
    (hi : rt.cluster.instances.lookup d = some i) {it : List ServerStats}
    (hit : (rt.cluster.serverStats.restrict (i.servers.map (·.id))).Iter it) {s : ServerStats} :
    s ∈ it ↔ rt.cluster.serverStats.lookup s.server.id = some s ∧
      rt.cluster.HostedBy d s.server.id := by
  rw [hit.mem, Keyed.lookup_restrict_iff]
  constructor
  · rintro ⟨hs, hmem⟩
    exact ⟨hs, i, hi, hmem⟩
  · rintro ⟨hs, j, hj, hmem⟩
    obtain rfl := Option.some.inj (hi.symm.trans hj)
    exact ⟨hs, hmem⟩

/-- **A lookup finds a server exactly when a host has stats** and the hosts' windows are complete.
-/
theorem finds_iff {rt : SchedulerRuntime} {d : Uuid} : rt.Finds d ↔ rt.cluster.Answers d := by
  constructor
  · intro h
    obtain ⟨stats, hstats, hall⟩ := h (printUuid d) (parseUuid_printUuid d)
    obtain ⟨i, hi, rfl⟩ := lookupStats_ok hstats
    obtain ⟨it, hit⟩ := Keyed.exists_iter (rt.cluster.serverStats.restrict (i.servers.map (·.id)))
    obtain ⟨hne, hc⟩ := (exists_lookup hstats).mp (hall it hit)
    refine ⟨?_, fun id stats hh hl => ?_⟩
    · obtain ⟨s, hs⟩ := List.exists_mem_of_ne_nil it hne
      obtain ⟨hl, hh⟩ := (mem_hostStats hi hit).mp hs
      exact ⟨s.server.id, hh, Keyed.mem_ids_of_lookup hl⟩
    · obtain rfl := Cluster.id_of_stats hl
      exact hc stats ((mem_hostStats hi hit).mpr ⟨hl, hh⟩)
  · intro h deploymentId hd
    obtain ⟨id, hh, hid⟩ := h.reported
    have hlisted := hh
    obtain ⟨i, hi, -⟩ := hlisted
    have hstats := lookupStats_eq hd hi
    refine ⟨_, hstats, fun it hit => (exists_lookup hstats).mpr ⟨?_, fun s hs => ?_⟩⟩
    · obtain ⟨s, hs⟩ := Keyed.mem_ids.mp hid
      obtain rfl := Cluster.id_of_stats hs
      exact List.ne_nil_of_mem ((mem_hostStats hi hit).mpr ⟨hs, hh⟩)
    · obtain ⟨hl, hhs⟩ := (mem_hostStats hi hit).mp hs
      exact h.windows _ s hhs hl

/-! ### What the sections keep -/

/-- If the deployment has been placed, a lookup of it returns a server. -/
def Found (d : Uuid) (rt : SchedulerRuntime) : Prop :=
  d ∈ rt.cluster.instances.ids → rt.Finds d

end SchedulerRuntime

/-- The section of the task keeps the deployment found: it is recorded at a server with stats, if
not for another time, and only complete windows get into the stats of a host. -/
def Task.KeepsFound (d : Uuid) (rt : SchedulerRuntime) : Task → Prop
  | insertStats stats => rt.cluster.HostedBy d stats.server.id → ∀ w ∈ stats.stats, Complete w
  | record deployment target => deployment.id = d →
      (d ∈ rt.cluster.instances.ids ∨ target.id ∈ rt.cluster.serverStats.ids) ∧
        ∀ stats, rt.cluster.serverStats.lookup target.id = some stats →
          ∀ w ∈ stats.stats, Complete w
  | _ => True

variable [Crates] {rt : SchedulerRuntime} {d : Uuid}

theorem found_congr {rt' : SchedulerRuntime} (hi : rt.cluster.instances = rt'.cluster.instances)
    (hs : rt.cluster.serverStats = rt'.cluster.serverStats) (h : rt.Found d) : rt'.Found d := by
  intro hd
  rw [SchedulerRuntime.finds_iff]
  refine Cluster.answers_congr hi hs (SchedulerRuntime.finds_iff.mp (h ?_))
  rw [hi]
  exact hd

theorem found_insertStats (h : rt.Found d) (stats : ServerStats) :
    (rt.insertStats stats).Found d ↔
      (rt.cluster.HostedBy d stats.server.id → ∀ w ∈ stats.stats, Complete w) := by
  have hlook := Cluster.lookup_insertStats rt.cluster stats
  constructor
  · rintro h' ⟨i, hi, hmem⟩ w hw
    have hans := SchedulerRuntime.finds_iff.mp (h' (Keyed.mem_ids_of_lookup hi))
    have hself := hlook stats.server.id
    rw [if_pos rfl] at hself
    refine hans.windows stats.server.id _ ⟨i, hi, hmem⟩ hself w ?_
    rcases rt.cluster.serverStats.lookup stats.server.id with _ | old
    · exact hw
    · exact List.mem_append_right _ hw
  · intro hc hd
    have hans := SchedulerRuntime.finds_iff.mp (h hd)
    rw [SchedulerRuntime.finds_iff]
    refine ⟨?_, fun id s hh hs w hw => ?_⟩
    · obtain ⟨id, hh, hid⟩ := hans.reported
      exact ⟨id, hh, Cluster.mem_ids_insertStats.mpr (Or.inr hid)⟩
    · have hs' : (rt.cluster.insertStats stats).serverStats.lookup id = some s := hs
      rw [hlook] at hs'
      split_ifs at hs' with hid
      · subst hid
        obtain rfl := Option.some.inj hs'
        rcases ho : rt.cluster.serverStats.lookup stats.server.id with _ | old
        · rw [ho] at hw
          exact hc hh w hw
        · rw [ho] at hw
          rcases List.mem_append.mp hw with hw | hw
          · exact hans.windows _ old hh ho w hw
          · exact hc hh w hw
      · exact hans.windows id s hh hs' w hw

omit [Crates] in
theorem mem_ids_of_hostedBy {c : Cluster} {id : Uuid} (h : c.HostedBy d id) :
    d ∈ c.instances.ids := by
  obtain ⟨i, hi, -⟩ := h
  exact Keyed.mem_ids_of_lookup hi

theorem found_record (h : rt.Found d) (deployment : DeploymentInfo) (target : ServerInfo) :
    (rt.record deployment target).Found d ↔ (deployment.id = d →
      (d ∈ rt.cluster.instances.ids ∨ target.id ∈ rt.cluster.serverStats.ids) ∧
        ∀ stats, rt.cluster.serverStats.lookup target.id = some stats →
          ∀ w ∈ stats.stats, Complete w) := by
  have hhosted : ∀ id, (rt.record deployment target).cluster.HostedBy d id ↔
      (d = deployment.id ∧ id = target.id) ∨ rt.cluster.HostedBy d id :=
    fun id => Cluster.hostedBy_insertInstance
  constructor
  · rintro h' rfl
    have htarget := (hhosted target.id).mpr (Or.inl ⟨rfl, rfl⟩)
    have hans := SchedulerRuntime.finds_iff.mp (h' (mem_ids_of_hostedBy htarget))
    refine ⟨?_, fun stats hs => hans.windows _ stats htarget hs⟩
    obtain ⟨id, hh, hid⟩ := hans.reported
    rcases (hhosted id).mp hh with ⟨-, rfl⟩ | hh
    · exact Or.inr hid
    · exact Or.inl (mem_ids_of_hostedBy hh)
  · intro hc hd
    rw [SchedulerRuntime.finds_iff]
    by_cases hid : deployment.id = d
    · obtain ⟨hsome, hcomplete⟩ := hc hid
      have htarget := (hhosted target.id).mpr (Or.inl ⟨hid.symm, rfl⟩)
      refine ⟨?_, fun id stats hh hs => ?_⟩
      · rcases hsome with hlisted | hstats
        · obtain ⟨id, hh, hid⟩ := (SchedulerRuntime.finds_iff.mp (h hlisted)).reported
          exact ⟨id, (hhosted id).mpr (Or.inr hh), hid⟩
        · exact ⟨target.id, htarget, hstats⟩
      · rcases (hhosted id).mp hh with ⟨-, rfl⟩ | hh
        · exact hcomplete stats hs
        · have hlisted := mem_ids_of_hostedBy hh
          exact (SchedulerRuntime.finds_iff.mp (h hlisted)).windows id stats hh hs
    · have hold : ∀ id, (rt.record deployment target).cluster.HostedBy d id →
          rt.cluster.HostedBy d id := by
        intro id hh
        rcases (hhosted id).mp hh with ⟨he, -⟩ | hh
        · exact absurd he.symm hid
        · exact hh
      have hlisted : d ∈ rt.cluster.instances.ids := by
        obtain ⟨i, hi⟩ := Keyed.mem_ids.mp hd
        have hi' : (rt.cluster.insertInstance deployment [target]).instances.lookup d = some i := hi
        rw [Cluster.lookup_insertInstance, if_neg (Ne.symm hid)] at hi'
        exact Keyed.mem_ids_of_lookup hi'
      have hans := SchedulerRuntime.finds_iff.mp (h hlisted)
      refine ⟨?_, fun id stats hh hs => hans.windows id stats (hold id hh) hs⟩
      obtain ⟨id, hh, hstats⟩ := hans.reported
      exact ⟨id, (hhosted id).mpr (Or.inr hh), hstats⟩

/-- **A section keeps the deployment found exactly when its task does.** -/
theorem found_section {t : Task} {w : Told} {o : Outcome SchedulerRuntime Task} (h : rt.Found d)
    (ho : sectionBody rt t w = some o) : o.shared.Found d ↔ t.KeepsFound d rt := by
  rcases sectionBody_shared ho with ⟨server, rfl, rfl⟩ | ⟨stats, rfl, rfl⟩ |
    ⟨deployment, target, rfl, rfl⟩ | ⟨id, rfl, rfl⟩ | ⟨hw, hsh⟩
  · exact iff_of_true (found_congr rfl rfl h) trivial
  · exact found_insertStats h stats
  · exact found_record h deployment target
  · exact iff_of_true (found_congr (Cluster.removeServer_instances _ _).symm
      (Cluster.removeServer_serverStats _ _).symm h) trivial
  · rw [hsh]
    refine iff_of_true h ?_
    cases t with
    | insertStats stats => cases hw
    | record deployment target => cases hw
    | _ => trivial

end Laqista
