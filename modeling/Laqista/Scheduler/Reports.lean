import Laqista.Scheduler.Handlers

/-! # What the reports leave

`report` puts the windows of a server behind those it has sent before, whatever else the scheduler
does in between. The information about the server is that of its first report: later ones do not
replace it (`lookup_ofReports`). So the stats are the history of the reports (`StatsHistory`)
exactly when no server has come back with other information (`statsHistory_iff`). -/

namespace Laqista

open Laqista.Proto Laqista.Lib Laqista.Lib.Runs Laqista.Lib.Tasks

/-- The report that the task brings. -/
def Task.report : Task → Option ServerStats
  | insertStats stats => some stats
  | _ => none

/-- The report that a step accepts: the section of `report` for it. -/
def accepted (sys : Atomic SchedulerRuntime Task) : Act Call Told → Option ServerStats
  | .enter i _ => sys.tasks[i]?.bind Task.report
  | _ => none

/-- The reports of a server, in the order of their arrival. -/
def reportsOf (id : Uuid) (reports : List ServerStats) : List ServerStats :=
  reports.filter fun r => r.server.id = id

/-- The stats after the reports. -/
def storeReports (m : StatsMap) (reports : List ServerStats) : StatsMap :=
  reports.foldl (fun m r => m.upsert r fun s => s.append r.stats) m

/-- The stats are the history of the reports: the servers that have reported, with all windows in
the order of their arrival and the information of the latest report. -/
structure StatsHistory (reports : List ServerStats) (m : StatsMap) : Prop where
  ids : ∀ id, id ∈ m.ids ↔ ∃ r ∈ reports, r.server.id = id
  windows : ∀ id stats, m.lookup id = some stats →
    stats.stats = (reportsOf id reports).flatMap (·.stats)
  server : ∀ id stats, m.lookup id = some stats →
    (reportsOf id reports).getLast?.map (·.server) = some stats.server

/-- The latest report of every server has the information of its first one. -/
def SameServers (reports : List ServerStats) : Prop :=
  ∀ id, (reportsOf id reports).getLast?.map (·.server) =
    (reportsOf id reports).head?.map (·.server)

theorem mem_reportsOf {id : Uuid} {reports : List ServerStats} {r : ServerStats} :
    r ∈ reportsOf id reports ↔ r ∈ reports ∧ r.server.id = id := by
  unfold reportsOf
  rw [List.mem_filter, decide_eq_true_iff]

/-- An entry takes in the windows of further reports. -/
theorem foldl_append (reports : List ServerStats) (s : ServerStats) :
    reports.foldl (fun s r => s.append r.stats) s =
      ⟨s.server, s.stats ++ reports.flatMap (·.stats)⟩ := by
  induction reports generalizing s with
  | nil => simp
  | cons r reports ih =>
    rw [List.foldl_cons, ih, List.flatMap_cons, ServerStats.append_server,
      ServerStats.append_stats, List.append_assoc]

/-- **What the reports leave**: the information of the first report and the windows of all. -/
theorem lookup_ofReports (reports : List ServerStats) (id : Uuid) :
    (storeReports (.empty _) reports).lookup id =
      (reportsOf id reports).head?.map fun r =>
        ⟨r.server, (reportsOf id reports).flatMap (·.stats)⟩ := by
  have hfold := Keyed.lookup_foldl_upsert_empty (fun s : ServerStats => s.server.id)
    (fun r s => s.append r.stats) (fun _ _ => rfl) reports id
  refine hfold.trans ?_
  show (reportsOf id reports).head?.map
    (fun r => (reportsOf id reports).tail.foldl (fun s r => s.append r.stats) r) = _
  rcases reportsOf id reports with _ | ⟨r, rest⟩
  · rfl
  · simp only [List.head?_cons, List.tail_cons, Option.map_some, foldl_append, List.flatMap_cons]

theorem mem_ids_ofReports (reports : List ServerStats) (id : Uuid) :
    id ∈ (storeReports (.empty _) reports).ids ↔ ∃ r ∈ reports, r.server.id = id := by
  rw [Keyed.mem_ids]
  simp only [lookup_ofReports, Option.map_eq_some_iff]
  constructor
  · rintro ⟨-, r, hr, -⟩
    obtain ⟨hmem, hid⟩ := mem_reportsOf.mp (List.mem_of_mem_head? hr)
    exact ⟨r, hmem, hid⟩
  · rintro ⟨r, hr, hid⟩
    have hne : reportsOf id reports ≠ [] := List.ne_nil_of_mem (mem_reportsOf.mpr ⟨hr, hid⟩)
    exact ⟨_, _, List.head?_eq_some_head hne, rfl⟩

/-- **The stats are the history exactly when the servers are the same.** -/
theorem statsHistory_ofReports (reports : List ServerStats) :
    StatsHistory reports (storeReports (.empty _) reports) ↔ SameServers reports := by
  have hlook := lookup_ofReports reports
  constructor
  · intro h id
    rcases hr : (reportsOf id reports).head? with _ | r
    · rw [List.head?_eq_none_iff.mp hr]
      rfl
    · have hid := hlook id
      rw [hr, Option.map_some] at hid
      have hlatest := h.server id _ hid
      exact hlatest
  · intro h
    refine ⟨mem_ids_ofReports reports, fun id stats hs => ?_, fun id stats hs => ?_⟩
    · rw [hlook] at hs
      obtain ⟨r, -, rfl⟩ := Option.map_eq_some_iff.mp hs
      rfl
    · rw [hlook] at hs
      obtain ⟨r, hr, rfl⟩ := Option.map_eq_some_iff.mp hs
      rw [h id, hr]
      rfl

section Runs

variable [Crates]

/-- The reports that a run accepts. -/
def acceptedReports (sys : Atomic SchedulerRuntime Task) : List (Act Call Told) → List ServerStats
  | [] => []
  | a :: as => (accepted sys a).toList ++
      match schedulerTasks.astep sys a with
      | some sys' => acceptedReports sys' as
      | none => []

/-- **A step changes the stats by the report that it accepts**, and by nothing else. -/
theorem astep_accepted {s s' : Atomic SchedulerRuntime Task} {a : Act Call Told}
    (h : schedulerTasks.astep s a = some s') : s'.shared.cluster.serverStats =
      storeReports s.shared.cluster.serverStats (accepted s a).toList := by
  rcases TaskSystem.astep_cases h with ⟨r, t, rfl, -, rfl⟩ | ⟨i, w, t, o, rfl, ht, -, ho, rfl⟩ |
    ⟨i, w, t, t', rfl, -, -, -, rfl⟩ | ⟨i, rfl, rfl⟩
  · rfl
  · have hacc : accepted s (.enter i w) = t.report := by
      simp only [accepted, ht, Option.bind_some]
    rw [hacc]
    rcases sectionBody_shared ho with ⟨server, rfl, rfl⟩ | ⟨stats, rfl, rfl⟩ |
      ⟨d, target, rfl, rfl⟩ | ⟨id, rfl, rfl⟩ | ⟨hw, hsh⟩
    · rfl
    · rfl
    · rfl
    · exact Cluster.removeServer_serverStats _ _
    · dsimp only
      rw [hsh]
      cases t with
      | insertStats stats => cases hw
      | _ => rfl
  · rfl
  · rfl

/-- **The stats after a run** are those before it with the reports that it has accepted. -/
theorem run_accepted {s s' : Atomic SchedulerRuntime Task} {as : List (Act Call Told)}
    (h : run schedulerTasks.astep s as = some s') : s'.shared.cluster.serverStats =
      storeReports s.shared.cluster.serverStats (acceptedReports s as) := by
  induction as generalizing s with
  | nil =>
    obtain rfl := Option.some.inj h
    rfl
  | cons a as ih =>
    obtain ⟨s₁, h1, h2⟩ := Option.bind_eq_some_iff.mp h
    have hrest : acceptedReports s (a :: as) =
        (accepted s a).toList ++ acceptedReports s₁ as := by
      simp only [acceptedReports, h1]
    rw [ih h2, astep_accepted h1, hrest]
    unfold storeReports
    rw [List.foldl_append]

/-- **The stats of a scheduler are the history of its reports**, at the end of a run, exactly when
no server's latest report has other information than its first one. -/
theorem statsHistory_iff {cluster : Cluster} (hnew : cluster.serverStats = .empty _)
    {as : List (Act Call Told)} {s : Atomic SchedulerRuntime Task}
    (h : run schedulerTasks.astep ⟨.new cluster, []⟩ as = some s) :
    StatsHistory (acceptedReports ⟨.new cluster, []⟩ as) s.shared.cluster.serverStats ↔
      SameServers (acceptedReports ⟨.new cluster, []⟩ as) := by
  have hstats := run_accepted h
  have hstart : (SchedulerRuntime.new cluster).cluster.serverStats = .empty _ := hnew
  rw [hstart] at hstats
  rw [hstats, statsHistory_ofReports]

end Runs

/-! ### A server that comes back -/

section Moved

attribute [local instance] Crates.hyphenated

def movingServer : ServerInfo := ⟨2, "http://10.0.0.2:50051"⟩

/-- The server under its id at a new address. -/
def movedServer : ServerInfo := ⟨2, "http://10.0.0.9:50051"⟩

/-- Two reports, one after the other. -/
def reportTwice (first second : ServerInfo) : List (Act Call Told) :=
  [.start (.report ⟨some first.into, [⟨none, none⟩]⟩), .enter 0 .nothing,
    .start (.report ⟨some second.into, []⟩), .enter 1 .nothing]

/-- A scheduler that accepts both. -/
def reportedTo : Cluster := .new ⟨1, "http://10.0.0.1:50051"⟩

theorem moved_server_is_forgotten :
    ¬ ∀ (cluster : Cluster) (as : List (Act Call Told)) (s : Atomic SchedulerRuntime Task),
      cluster.serverStats = .empty _ →
      run schedulerTasks.astep ⟨.new cluster, []⟩ as = some s →
      StatsHistory (acceptedReports ⟨.new cluster, []⟩ as) s.shared.cluster.serverStats := by
  intro h
  have hrun : (run schedulerTasks.astep ⟨.new reportedTo, []⟩
      (reportTwice movingServer movedServer)).map
        (fun s => s.shared.cluster.serverStats.lookup 2) =
          some (some ⟨movingServer, [⟨none, none⟩]⟩) := by decide +kernel
  have haccepted : acceptedReports ⟨.new reportedTo, []⟩ (reportTwice movingServer movedServer) =
      [⟨movingServer, [⟨none, none⟩]⟩, ⟨movedServer, []⟩] := by decide +kernel
  obtain ⟨s, hs, hlook⟩ := Option.map_eq_some_iff.mp hrun
  have hlatest := (h reportedTo _ s rfl hs).server 2 _ hlook
  rw [haccepted] at hlatest
  exact absurd hlatest (by decide)

theorem staying_server_is_kept : ∃ s, run schedulerTasks.astep ⟨.new reportedTo, []⟩
      (reportTwice movingServer movingServer) = some s ∧
    StatsHistory (acceptedReports ⟨.new reportedTo, []⟩ (reportTwice movingServer movingServer))
      s.shared.cluster.serverStats := by
  have hrun : (run schedulerTasks.astep ⟨.new reportedTo, []⟩
      (reportTwice movingServer movingServer)).isSome = true := by decide +kernel
  have haccepted : acceptedReports ⟨.new reportedTo, []⟩ (reportTwice movingServer movingServer) =
      [⟨movingServer, [⟨none, none⟩]⟩, ⟨movingServer, []⟩] := by decide +kernel
  obtain ⟨s, hs⟩ := Option.isSome_iff_exists.mp hrun
  refine ⟨s, hs, (statsHistory_iff rfl hs).mpr ?_⟩
  rw [haccepted]
  intro id
  by_cases hid : movingServer.id = id
  · simp [reportsOf, hid]
  · simp [reportsOf, hid]

end Moved

end Laqista
