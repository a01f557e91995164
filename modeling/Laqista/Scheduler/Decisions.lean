import Laqista.Scheduler.Handlers

/-! # Decisions that do not panic

The scheduler decides over the windows that were reported to it, and `deploy_in_us` over the first
server of the list as well. A window with an absent part and an empty list make a decision panic,
and `report` takes any window while `handle_failed_server` removes any server. `decides_iff`: all
decisions return exactly when every stored window is complete and there is a server.
`decides_always_iff`: in a run they always do exactly when each report that is stored has complete
windows and no removal takes the last server. -/

namespace Laqista

open Laqista.Proto Laqista.Lib Laqista.Lib.Runs Laqista.Lib.Tasks

/-- No part of the window is absent. -/
def Complete (w : MonitorWindow) : Prop :=
  ∃ start stop utilization, w = ⟨some ⟨some start, some stop⟩, some utilization⟩

/-- None of the decisions of the scheduler panics: neither over all stats nor over those of some
servers, in any order. -/
structure Decides (rt : SchedulerRuntime) : Prop where
  schedule : ∀ it, rt.cluster.serverStats.Iter it → ∃ r, schedule it = .ok r
  scheduleGpu : ∀ it, rt.cluster.serverStats.Iter it → ∃ r, scheduleGpu it = .ok r
  lookup : ∀ ids it, (rt.cluster.serverStats.restrict ids).Iter it →
    (∃ r, Laqista.schedule it = .ok r) ∧ ∃ r, Laqista.scheduleGpu it = .ok r
  needsScaleOut : ∀ id stats, rt.cluster.serverStats.lookup id = some stats →
    ∃ b, needsScaleOut stats = .ok b
  target : ∀ it, rt.cluster.serverStats.Iter it → ∃ server, rt.chooseTarget it = .ok server

/-- Every stored window is complete, and there is a server. -/
structure Usable (rt : SchedulerRuntime) : Prop where
  windows : ∀ id stats, rt.cluster.serverStats.lookup id = some stats →
    ∀ w ∈ stats.stats, Complete w
  servers : rt.cluster.servers ≠ []

/-- The section of the task stores complete windows, and does not remove the last server. -/
def Task.KeepsUsable (rt : SchedulerRuntime) : Task → Prop
  | insertStats stats => ∀ w ∈ stats.stats, Complete w
  | removeServer id => 2 ≤ rt.cluster.servers.length ∨ id ∉ rt.cluster.ids
  | _ => True

/-! ### When a decision returns -/

theorem isOk_expect {α : Type} {message : String} {o : Option α} {a : α} :
    expect message o = .ok a ↔ o = some a := by
  rcases o with _ | b
  · simp [expect]
  · simp [expect]

theorem isOk_nextWindow {w : MonitorWindow} : (∃ r, nextWindow w = .ok r) ↔ Complete w := by
  unfold nextWindow Complete
  simp only [isOk_bind, isOk_expect, pure_eq_ok, Except.ok.injEq, exists_eq', and_true]
  constructor
  · rintro ⟨⟨start, stop⟩, hw, _, rfl, _, rfl, u, hu⟩
    exact ⟨_, _, u, by rw [← hw, ← hu]⟩
  · rintro ⟨start, stop, u, rfl⟩
    exact ⟨_, rfl, start, rfl, stop, rfl, u, rfl⟩

/-- The rate of a server can be computed exactly when its windows are complete. -/
theorem isOk_utilizedRate {percent : ResourceUtilization → Int32} {stats : ServerStats} :
    (∃ r, utilizedRate percent stats = .ok r) ↔ ∀ w ∈ stats.stats, Complete w := by
  unfold utilizedRate ServerStats.windows
  rw [isOk_bind]
  simp only [pure_eq_ok, Except.ok.injEq, exists_eq', and_true, isOk_mapM, isOk_nextWindow]

/-- **A schedule returns** exactly when all windows of all its entries are complete. -/
theorem isOk_scheduleBy {percent : ResourceUtilization → Int32} {it : List ServerStats} :
    (∃ r, scheduleBy (utilizedRate percent) it = .ok r) ↔
      ∀ stats ∈ it, ∀ w ∈ stats.stats, Complete w := by
  rcases it with _ | ⟨first, rest⟩
  · simp [scheduleBy]
  · have hstep : ∀ least stats, (∃ r, scheduleStep (utilizedRate percent) least stats = .ok r) ↔
        ∀ w ∈ stats.stats, Complete w := by
      intro least stats
      unfold scheduleStep
      rw [isOk_bind]
      simp only [pure_eq_ok, Except.ok.injEq, exists_eq', and_true, isOk_utilizedRate]
    unfold scheduleBy
    dsimp only
    rw [isOk_bind]
    simp only [pure_eq_ok, Except.ok.injEq, exists_eq', and_true]
    exact isOk_foldlM hstep

theorem isOk_needsScaleOut {stats : ServerStats} (h : ∀ w ∈ stats.stats, Complete w) :
    ∃ b, needsScaleOut stats = .ok b := by
  unfold needsScaleOut
  split
  · exact ⟨false, rfl⟩
  · next stat hs =>
    obtain ⟨start, stop, u, rfl⟩ := h stat (List.mem_of_getLast? hs)
    exact ⟨_, rfl⟩

/-- **All decisions return exactly when the stored windows are complete and there is a server.** -/
theorem decides_iff {rt : SchedulerRuntime} : Decides rt ↔ Usable rt := by
  constructor
  · intro h
    obtain ⟨it, hit⟩ := Keyed.exists_iter rt.cluster.serverStats
    refine ⟨fun id stats hs => ?_, fun hnil => ?_⟩
    · exact isOk_scheduleBy.mp (h.schedule it hit) stats (hit.mem_of_lookup hs)
    · obtain ⟨server, hserver⟩ := h.target it hit
      obtain ⟨scheduled, -, hrest⟩ := bind_eq_ok.mp hserver
      obtain ⟨first, hfirst, -⟩ := bind_eq_ok.mp hrest
      rw [hnil] at hfirst
      simp [index0] at hfirst
  · intro h
    have hall : ∀ it, rt.cluster.serverStats.Iter it → ∀ stats ∈ it, ∀ w ∈ stats.stats,
        Complete w := fun it hit stats hs => h.windows _ stats (hit.lookup hs)
    have hsome : ∀ ids it, (rt.cluster.serverStats.restrict ids).Iter it → ∀ stats ∈ it,
        ∀ w ∈ stats.stats, Complete w := fun ids it hit stats hs =>
      h.windows _ stats (Keyed.lookup_restrict (hit.lookup hs)).1
    refine ⟨fun it hit => isOk_scheduleBy.mpr (hall it hit),
      fun it hit => isOk_scheduleBy.mpr (hall it hit),
      fun ids it hit => ⟨isOk_scheduleBy.mpr (hsome ids it hit),
        isOk_scheduleBy.mpr (hsome ids it hit)⟩,
      fun id stats hs => isOk_needsScaleOut (h.windows id stats hs), fun it hit => ?_⟩
    obtain ⟨scheduled, hsched⟩ := isOk_scheduleBy.mpr (hall it hit)
    rcases hl : rt.cluster.servers with _ | ⟨first, rest⟩
    · exact absurd hl h.servers
    · exact ⟨_, bind_eq_ok.mpr ⟨scheduled, hsched, bind_eq_ok.mpr ⟨first, by rw [hl]; rfl, rfl⟩⟩⟩

/-! ### What the sections keep -/

theorem usable_insertStats {rt : SchedulerRuntime} (h : Usable rt) (stats : ServerStats) :
    Usable (rt.insertStats stats) ↔ ∀ w ∈ stats.stats, Complete w := by
  have hlook := Cluster.lookup_insertStats rt.cluster stats
  constructor
  · intro h' w hw
    have hself := hlook stats.server.id
    rw [if_pos rfl] at hself
    refine h'.windows _ _ hself w ?_
    rcases rt.cluster.serverStats.lookup stats.server.id with _ | old
    · exact hw
    · exact List.mem_append_right _ hw
  · intro hc
    refine ⟨fun id s hs w hw => ?_, h.servers⟩
    rw [SchedulerRuntime.insertStats, hlook] at hs
    split_ifs at hs with hid
    · obtain rfl := Option.some.inj hs
      rcases ho : rt.cluster.serverStats.lookup stats.server.id with _ | old
      · rw [ho] at hw
        exact hc w hw
      · rw [ho] at hw
        rcases List.mem_append.mp hw with hw | hw
        · exact h.windows _ old ho w hw
        · exact hc w hw
    · exact h.windows id s hs w hw

theorem usable_removeServer {rt : SchedulerRuntime} (h : Usable rt) (id : Uuid) :
    Usable (rt.removeServer id) ↔ 2 ≤ rt.cluster.servers.length ∨ id ∉ rt.cluster.ids := by
  have hstats : (rt.removeServer id).cluster.serverStats = rt.cluster.serverStats :=
    Cluster.removeServer_serverStats _ _
  have hlen : (rt.removeServer id).cluster.servers.length = (rt.cluster.ids.erase id).length := by
    have hids := congrArg List.length (Cluster.removeServer_ids rt.cluster id)
    rwa [Cluster.ids, List.length_map] at hids
  have hold : rt.cluster.ids.length = rt.cluster.servers.length := List.length_map _
  have hpos : 0 < rt.cluster.servers.length := List.length_pos_iff.mpr h.servers
  have hne : (rt.removeServer id).cluster.servers ≠ [] ↔
      2 ≤ rt.cluster.servers.length ∨ id ∉ rt.cluster.ids := by
    rw [← List.length_pos_iff, hlen, List.length_erase]
    by_cases hid : id ∈ rt.cluster.ids
    · rw [if_pos hid]
      simp only [hid, not_true_eq_false, or_false]
      omega
    · rw [if_neg hid]
      simp only [hid, not_false_eq_true, or_true, iff_true]
      omega
  rw [← hne]
  exact ⟨fun h' => h'.servers, fun hs => ⟨fun k s hk => h.windows k s (hstats ▸ hk), hs⟩⟩

section Runs

variable [Crates]

/-- A section keeps the decisions exactly when its task does. -/
theorem usable_section {rt : SchedulerRuntime} {t : Task} {w : Told}
    {o : Outcome SchedulerRuntime Task} (h : Usable rt) (ho : sectionBody rt t w = some o) :
    Usable o.shared ↔ t.KeepsUsable rt := by
  rcases sectionBody_shared ho with ⟨server, rfl, rfl⟩ | ⟨stats, rfl, rfl⟩ | ⟨d, target, rfl, rfl⟩ |
    ⟨id, rfl, rfl⟩ | ⟨hw, hsh⟩
  · exact iff_of_true ⟨h.windows, by simp [leave, SchedulerRuntime.pushServer]⟩ trivial
  · exact usable_insertStats h stats
  · exact iff_of_true ⟨h.windows, h.servers⟩ trivial
  · exact usable_removeServer h id
  · rw [hsh]
    refine iff_of_true h ?_
    cases t with
    | insertStats stats => cases hw
    | removeServer id => cases hw
    | _ => trivial

/-- **Decisions never panic**, throughout a run from a state in which they do not, exactly when in
each step a report is stored only with complete windows and a server is removed only if another one
stays. -/
theorem decides_always_iff {rt : SchedulerRuntime} (h : Decides rt) (as : List (Act Call Told)) :
    Always schedulerTasks.astep (fun s => Decides s.shared) ⟨rt, []⟩ as ↔
      EachStep schedulerTasks.astep
        (TaskSystem.AtSection fun rt t => Task.KeepsUsable rt t) ⟨rt, []⟩ as := by
  simp only [decides_iff]
  refine always_iff_eachStep (I := fun _ => True) (fun _ _ _ _ _ _ _ => trivial)
    (fun s a s' _ hs hstep => ?_) trivial (decides_iff.mp h)
  exact TaskSystem.astep_keeps_iff (P := Usable) (fun _ _ _ _ hu ho => usable_section hu ho) hs
    hstep

end Runs

/-- A new scheduler can decide. -/
theorem decides_fromServer (server : ServerInfo) : Decides (.fromServer server) := by
  rw [decides_iff]
  refine ⟨fun id stats hs => ?_, by simp [SchedulerRuntime.fromServer, SchedulerRuntime.new,
    Cluster.new]⟩
  have hnone : (Keyed.empty fun s : ServerStats => s.server.id).lookup id = none :=
    Keyed.lookup_empty id
  have hs' : (Keyed.empty fun s : ServerStats => s.server.id).lookup id = some stats := hs
  rw [hnone] at hs'
  simp at hs'

/-! ### Reports with and without their parts -/

section Example

attribute [local instance] Crates.hyphenated

def loneServer : ServerInfo := ⟨1, "http://10.0.0.1:50051"⟩

/-- The server reports the windows. -/
def reportRun (windows : List MonitorWindow) : List (Act Call Told) :=
  [.start (.report ⟨some loneServer.into, windows⟩), .enter 0 .nothing]

theorem start_report (windows : List MonitorWindow) :
    schedulerTasks.astep ⟨.fromServer loneServer, []⟩
      (.start (.report ⟨some loneServer.into, windows⟩)) =
        some ⟨.fromServer loneServer, [.insertStats ⟨loneServer, windows⟩]⟩ := by
  simp [TaskSystem.astep, schedulerTasks, startCall, reportStats_into]

/-- A window without its parts is accepted. -/
theorem emptyWindow_panics : ¬ ∀ (server : ServerInfo) (as : List (Act Call Told)),
    Always schedulerTasks.astep (fun s => Decides s.shared) ⟨.fromServer server, []⟩ as := by
  intro h
  have hrun : run schedulerTasks.astep ⟨.fromServer loneServer, []⟩ (reportRun [⟨none, none⟩]) =
      some ⟨(SchedulerRuntime.fromServer loneServer).insertStats ⟨loneServer, [⟨none, none⟩]⟩,
        [.done]⟩ := by
    unfold reportRun
    rw [run_cons, start_report]
    rfl
  have hdec := h loneServer _ _ _ List.prefix_rfl hrun
  obtain ⟨start, stop, u, hw⟩ := (decides_iff.mp hdec).windows 1 ⟨loneServer, [⟨none, none⟩]⟩
    (by decide +kernel) ⟨none, none⟩ (by simp)
  simp at hw

/-- A report with a complete window keeps the decisions. -/
theorem completeWindow_decides :
    Always schedulerTasks.astep (fun s => Decides s.shared) ⟨.fromServer loneServer, []⟩
      (reportRun [⟨some ⟨some ⟨0, 0⟩, some ⟨0, 1000⟩⟩, some ⟨80, 0, 0, 0, 0, 0⟩⟩]) := by
  refine (decides_always_iff (decides_fromServer loneServer) _).mpr ?_
  refine eachStep_cons.mpr fun s hs => ⟨trivial, eachStep_cons.mpr fun s' _ => ⟨?_, eachStep_nil⟩⟩
  rw [start_report] at hs
  obtain rfl := Option.some.inj hs
  intro t ht
  obtain rfl := Option.some.inj ht
  intro w hw
  rw [List.mem_singleton.mp hw]
  exact ⟨_, _, _, rfl⟩

end Example

end Laqista
