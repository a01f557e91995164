import Laqista.Monitor.Units
import Laqista.Monitor.Windows
import Laqista.Scheduler.Lock
import Laqista.Scheduler.Reports

/-! # What the monitors do not measure

Both monitors send `-1` for the CPU, and the scheduler looks at nothing else when it decides about a
scale-out. So with their windows no background task of a lookup ever scales out, and the mutex of
the runtime is given back by every section: whoever waits for it is served (`monitored_served`).

The window of a line of radeontop takes a second, but the scheduler only subtracts the nanoseconds,
which are the same at both ends. Every rate is then no number, and every decision falls on the first
server of the map (`radeon_takes_first`), whatever the load. -/

namespace Laqista

open Laqista.Proto Laqista.Lib Laqista.Lib.Runs Laqista.Lib.Tasks

/-- The window is from one of the monitors. -/
def FromMonitor (w : MonitorWindow) : Prop :=
  (∃ m : RadeonMetrics, m.intoWindow = .ok w) ∨
    ∃ (m : PowerMetrics) (window : MetricsWindow), m.intoMetricsWindow = .ok window ∧
      window.intoWindow = w

/-- The window is from a line of radeontop, outside of leap seconds. -/
def FromRadeon (w : MonitorWindow) : Prop :=
  ∃ m : RadeonMetrics, m.timestamp.nanos < 10 ^ 9 ∧ m.intoWindow = .ok w

/-- The window has a utilisation, but not of the CPU. -/
def Unmeasured (w : MonitorWindow) : Prop := ∃ u, w.utilization = some u ∧ u.cpu = -1

/-- For the scheduler, the window takes no time. -/
def Momentary (w : MonitorWindow) : Prop := ∃ x, nextWindow w = .ok x ∧ x.nanos.toInt = 0

/-! ### Windows -/

theorem RadeonMetrics.intoWindow_ok {m : RadeonMetrics} {w : MonitorWindow}
    (h : m.intoWindow = .ok w) : ∃ stop, m.timestamp.checkedAdd (10 ^ 9) = some stop ∧
      w = ⟨some ⟨some (datetimeToProst m.timestamp), some (datetimeToProst stop)⟩,
        some m.intoUtilization⟩ := by
  obtain ⟨window, hw, h⟩ := bind_eq_ok.mp h
  obtain rfl := Except.ok.inj h
  rcases hstop : m.timestamp.checkedAdd (10 ^ 9) with _ | stop
  · simp only [timeWindow, hstop, reduceCtorEq] at hw
  · simp only [timeWindow, hstop, Except.ok.injEq] at hw
    exact ⟨stop, rfl, by rw [← hw]⟩

theorem FromMonitor.unmeasured {w : MonitorWindow} (h : FromMonitor w) : Unmeasured w := by
  rcases h with ⟨m, hm⟩ | ⟨m, window, -, rfl⟩
  · obtain ⟨stop, -, rfl⟩ := RadeonMetrics.intoWindow_ok hm
    exact ⟨_, rfl, rfl⟩
  · exact ⟨_, rfl, rfl⟩

/-- The nanoseconds at both ends are the same. -/
theorem FromRadeon.momentary {w : MonitorWindow} (h : FromRadeon w) : Momentary w := by
  obtain ⟨m, hleap, hm⟩ := h
  obtain ⟨stop, hstop, rfl⟩ := RadeonMetrics.intoWindow_ok hm
  have hns := DateTime.checkedAdd_ns hstop (.inl hleap)
  have hsecs := DateTime.checkedAdd_second hstop
  have hnanos : stop.nanos = m.timestamp.nanos := by
    unfold DateTime.ns at hns
    omega
  refine ⟨_, nextWindow_eq _ _ _, ?_⟩
  rw [subtractWindow_toInt]
  unfold datetimeToProst
  rw [hnanos, Int.sub_self]

/-! ### Decisions -/

/-- Nothing that was not measured asks for a scale-out. -/
theorem needsScaleOut_unmeasured {stats : ServerStats} (h : ∀ w ∈ stats.stats, Unmeasured w) :
    needsScaleOut stats = .ok false := by
  unfold needsScaleOut
  rcases hlast : stats.stats.getLast? with _ | stat
  · rfl
  · obtain ⟨u, hu, hcpu⟩ := h stat (List.mem_of_getLast? hlast)
    simp only [hu, expect, ok_bind, hcpu, pure_eq_ok, Except.ok.injEq]
    decide

theorem utilizedRate_momentary (percent : ResourceUtilization → Int32) {stats : ServerStats}
    (h : ∀ w ∈ stats.stats, Momentary w) : utilizedRate percent stats = .ok .nan := by
  obtain ⟨xs, hxs, -, hall⟩ := mapM_ok_of_forall h
  have htotal : (xs.map fun w => (w.nanos.toInt : ℚ)).sum = 0 := by
    refine List.sum_eq_zero fun q hq => ?_
    obtain ⟨x, hx, rfl⟩ := List.mem_map.mp hq
    rw [hall x hx]
    rfl
  have hutilized : (xs.map fun w =>
      ((mulAsPercent w.nanos (percent w.utilization).toInt64).toInt : ℚ)).sum = 0 := by
    refine List.sum_eq_zero fun q hq => ?_
    obtain ⟨x, hx, rfl⟩ := List.mem_map.mp hq
    have hnanos : (x.nanos.toInt : ℚ) = 0 := by
      rw [hall x hx]
      rfl
    unfold mulAsPercent
    rw [hnanos, zero_mul]
    rfl
  have hw : stats.windows = .ok xs := hxs
  unfold utilizedRate
  rw [hw, ok_bind]
  dsimp only
  rw [htotal, hutilized]
  rfl

/-- No rate is below another one that is no number, so the first server stays the least. -/
theorem scheduleBy_nan {rate : ServerStats → Except Panic F64} {it : List ServerStats}
    (h : ∀ stats ∈ it, rate stats = .ok .nan) :
    scheduleBy rate it = .ok (it.head?.map (·.server)) := by
  have hfold : ∀ (l : List ServerStats) (least : ServerStats × F64),
      (∀ stats ∈ l, rate stats = .ok .nan) → l.foldlM (scheduleStep rate) least = .ok least := by
    intro l
    induction l with
    | nil => exact fun _ _ => rfl
    | cons stats l ih =>
      intro least hl
      have hstep : scheduleStep rate least stats = .ok least := by
        unfold scheduleStep
        rw [hl stats (List.mem_cons_self ..), ok_bind]
        rfl
      rw [List.foldlM_cons, hstep, ok_bind]
      exact ih least fun s hs => hl s (List.mem_cons_of_mem _ hs)
  rcases it with _ | ⟨first, rest⟩
  · rfl
  · unfold scheduleBy
    dsimp only
    rw [hfold _ _ h]
    rfl

/-! ### Runs -/

/-- All windows that were reported have the property, in the stats and on their way there. -/
structure Collected (P : MonitorWindow → Prop) (s : Atomic SchedulerRuntime Task) : Prop where
  stored : ∀ id stats, s.shared.cluster.serverStats.lookup id = some stats →
    ∀ w ∈ stats.stats, P w
  brought : ∀ t ∈ s.tasks, ∀ stats, t.report = some stats → ∀ w ∈ stats.stats, P w

section Runs

variable [Crates] {P : MonitorWindow → Prop}

/-- No section and no answer leads to a report. -/
theorem section_report {rt : SchedulerRuntime} {t : Task} {w : Told}
    {o : Outcome SchedulerRuntime Task} (h : sectionBody rt t w = some o) :
    o.next.report = none ∧ ∀ t' ∈ o.spawned, t'.report = none := by
  cases section_of h with
  | found deploymentId target id k stats it =>
    refine ⟨rfl, fun t' ht' => ?_⟩
    rw [List.mem_singleton.mp ht']
    rfl
  | _ => exact ⟨rfl, nofun⟩

omit [Crates] in
theorem await_report {t t' : Task} {w : Told} (h : awaitAnswer t w = some t') :
    t'.report = none := by
  unfold awaitAnswer at h
  split at h
  all_goals
    cases h
    try rfl

/-- A task that brings a report has it from its request. -/
theorem start_report_windows {rt : SchedulerRuntime} {tasks : List Task} {r : Call} {t : Task}
    {stats : ServerStats} (h : startCall rt tasks r = some t) (ht : t.report = some stats) :
    ∃ q, r = .report q ∧ stats.stats = q.windows := by
  cases r with
  | report q =>
    refine ⟨q, rfl, ?_⟩
    unfold startCall at h
    dsimp only at h
    rcases hq : reportStats q with e | stats'
    · rw [hq] at h
      obtain rfl := Option.some.inj h
      exact absurd ht (by simp [Task.report])
    · rw [hq] at h
      obtain rfl := Option.some.inj h
      obtain rfl := Option.some.inj ht
      unfold reportStats at hq
      split at hq
      · exact absurd hq (by simp)
      · split at hq
        · obtain rfl := Except.ok.inj hq
          rfl
        · exact absurd hq (by simp)
  | join q =>
    unfold startCall at h
    dsimp only at h
    split at h
    all_goals
      obtain rfl := Option.some.inj h
      exact absurd ht (by simp [Task.report])
  | deploy q id =>
    unfold startCall at h
    dsimp only at h
    split_ifs at h
    obtain rfl := Option.some.inj h
    exact absurd ht (by simp [Task.report])
  | lookup q =>
    obtain rfl := Option.some.inj h
    exact absurd ht (by simp [Task.report])
  | failedServer result server =>
    unfold startCall at h
    dsimp only at h
    split at h
    all_goals
      obtain rfl := Option.some.inj h
      exact absurd ht (by simp [Task.report])

omit [Crates] in
/-- The stats after the section of a report. -/
theorem stored_insertStats {rt : SchedulerRuntime} {stats : ServerStats}
    (h : ∀ id old, rt.cluster.serverStats.lookup id = some old → ∀ w ∈ old.stats, P w)
    (hnew : ∀ w ∈ stats.stats, P w) (id : Uuid) (stored : ServerStats)
    (hs : (rt.insertStats stats).cluster.serverStats.lookup id = some stored) :
    ∀ w ∈ stored.stats, P w := by
  intro w hw
  rw [SchedulerRuntime.insertStats, Cluster.lookup_insertStats] at hs
  split_ifs at hs with hid
  · obtain rfl := Option.some.inj hs
    rcases ho : rt.cluster.serverStats.lookup stats.server.id with _ | old
    · rw [ho] at hw
      exact hnew w hw
    · rw [ho] at hw
      rcases List.mem_append.mp hw with hw | hw
      · exact h _ old ho w hw
      · exact hnew w hw
  · exact h id stored hs w hw

omit [Crates] in
/-- The reports of the tasks after one of them has gone on. -/
theorem brought_set {s : Atomic SchedulerRuntime Task} (h : Collected P s) (i : ℕ) {next : Task}
    (spawned : List Task) (hnext : next.report = none) (hspawned : ∀ t ∈ spawned, t.report = none) :
    ∀ t ∈ s.tasks.set i next ++ spawned, ∀ stats, t.report = some stats →
      ∀ w ∈ stats.stats, P w := by
  intro t ht stats hstats
  rcases List.mem_append.mp ht with ht | ht
  · rcases List.mem_or_eq_of_mem_set ht with ht | rfl
    · exact h.brought t ht stats hstats
    · rw [hnext] at hstats
      cases hstats
  · rw [hspawned t ht] at hstats
    cases hstats

/-- **One step collects what is reported**, and nothing else. -/
theorem collected_step {s s' : Locked SchedulerRuntime Task} {a : LAct Call Told}
    (h : Collected P s.toAtomic) (ha : ∀ q, a = .start (.report q) → ∀ w ∈ q.windows, P w)
    (hstep : schedulerTasks.lstep s a = some s') : Collected P s'.toAtomic := by
  rcases TaskSystem.lstep_cases hstep with ⟨r, t, rfl, hr, rfl⟩ | ⟨i, t, rfl, -, -, rfl⟩ |
    ⟨i, q, rfl, -, -, rfl⟩ | ⟨i, w, t, o, rfl, -, -, ht, hb, rfl⟩ |
    ⟨i, w, t, t', rfl, -, -, hw, rfl⟩ | ⟨i, rfl, -, rfl⟩
  · refine ⟨h.stored, fun u hu stats hstats => ?_⟩
    rcases List.mem_append.mp hu with hu | hu
    · exact h.brought u hu stats hstats
    · rw [List.mem_singleton.mp hu] at hstats
      obtain ⟨q, rfl, hq⟩ := start_report_windows hr hstats
      rw [hq]
      exact ha q rfl
  · exact h
  · exact h
  · obtain ⟨hnext, hspawned⟩ := section_report hb
    refine ⟨?_, brought_set h i o.spawned hnext hspawned⟩
    rcases sectionBody_shared hb with ⟨server, rfl, rfl⟩ | ⟨stats, rfl, rfl⟩ |
      ⟨d, target, rfl, rfl⟩ | ⟨id, rfl, rfl⟩ | ⟨-, hsh⟩
    · exact h.stored
    · exact stored_insertStats h.stored (h.brought _ (List.mem_of_getElem? ht) stats rfl)
    · exact h.stored
    · intro k stats hk
      rw [show (leave (s.shared.removeServer id) .done).shared.cluster.serverStats =
        s.shared.cluster.serverStats from Cluster.removeServer_serverStats _ _] at hk
      exact h.stored k stats hk
    · dsimp only
      rw [hsh]
      exact h.stored
  · have hnone := await_report hw
    have hset := brought_set h i [] hnone nofun
    rw [List.append_nil] at hset
    exact ⟨h.stored, hset⟩
  · have hset := brought_set h i [] (rfl : Task.done.report = none) nofun
    rw [List.append_nil] at hset
    exact ⟨h.stored, hset⟩

omit [Crates] in
/-- A scheduler without stats has collected nothing. -/
theorem collected_new {cluster : Cluster} (hnew : cluster.serverStats = .empty _) :
    Collected P (unlocked (.new cluster) : Locked SchedulerRuntime Task).toAtomic := by
  refine ⟨fun id stats hs => ?_, nofun⟩
  have hs' : cluster.serverStats.lookup id = some stats := hs
  rw [hnew, Keyed.lookup_empty] at hs'
  cases hs'

/-- The invariant rule for runs in which the reported windows have the property. -/
theorem collected_invariant {I : Locked SchedulerRuntime Task → Prop}
    (hI : ∀ s a s', Collected P s.toAtomic → I s → schedulerTasks.lstep s a = some s' → I s')
    {cluster : Cluster} (hnew : cluster.serverStats = .empty _) {as : List (LAct Call Told)}
    {s : Locked SchedulerRuntime Task} (h0 : I (unlocked (.new cluster)))
    (hreports : ∀ q, .start (.report q) ∈ as → ∀ w ∈ q.windows, P w)
    (hrun : run schedulerTasks.lstep (unlocked (.new cluster)) as = some s) :
    Collected P s.toAtomic ∧ I s :=
  run_invariant_of (I := fun s : Locked SchedulerRuntime Task => Collected P s.toAtomic ∧ I s)
    (K := fun a => ∀ q, a = .start (.report q) → ∀ w ∈ q.windows, P w)
    (fun s a s' ha hs hstep => ⟨collected_step hs.1 ha hstep, hI s a s' hs.1 hs.2 hstep⟩)
    ⟨collected_new hnew, h0⟩ (fun a ha q hq => hreports q (by rw [← hq]; exact ha)) hrun

/-! ### Scale-outs and the mutex -/

omit [Crates] in
/-- Without a measured CPU, no check scales out. -/
theorem Collected.not_scalesOut {s : Atomic SchedulerRuntime Task} (h : Collected Unmeasured s)
    (target : ServerInfo) (id : Uuid) : ¬ ScalesOut s.shared target id := by
  rintro ⟨stats, d, hstats, hscale, -⟩
  rw [needsScaleOut_unmeasured (h.stored _ stats hstats)] at hscale
  cases hscale

/-- A task at a request always has a section to run. -/
theorem exists_section (rt : SchedulerRuntime) {t : Task} (h : t.enters = true) :
    ∃ w o, sectionBody rt t w = some o := by
  cases t with
  | pushServer server => exact ⟨.nothing, _, rfl⟩
  | readGroup => exact ⟨.nothing, _, rfl⟩
  | insertStats stats => exact ⟨.nothing, _, rfl⟩
  | cloneInner d => exact ⟨.nothing, _, rfl⟩
  | saveDeployment d => cases h
  | chooseTarget d =>
    obtain ⟨it, hit⟩ := Keyed.exists_iter rt.cluster.serverStats
    refine ⟨.order it, ?_⟩
    unfold sectionBody
    dsimp only
    rw [if_pos hit]
    split
    · exact ⟨_, rfl⟩
    · exact ⟨_, rfl⟩
  | spawn d target => cases h
  | record d target => exact ⟨.nothing, _, rfl⟩
  | lookup deploymentId =>
    rcases hl : rt.lookupStats deploymentId with e | ⟨k, stats⟩
    · refine ⟨.order [], leave rt .done, ?_⟩
      simp only [sectionBody, hl]
    · obtain ⟨it, hit⟩ := Keyed.exists_iter stats
      refine ⟨.order it, ?_⟩
      simp only [sectionBody, hl, if_pos hit]
      split
      · exact ⟨_, rfl⟩
      · exact ⟨_, rfl⟩
  | scaleCheck target id =>
    refine ⟨.nothing, ?_⟩
    unfold sectionBody
    dsimp only
    split
    · exact ⟨_, rfl⟩
    · exact ⟨_, rfl⟩
  | removeServer id => exact ⟨.nothing, _, rfl⟩
  | done => cases h

/-- Each section gives the mutex back. -/
theorem Collected.returns {s s' : Locked SchedulerRuntime Task} {a : LAct Call Told}
    (h : Collected Unmeasured s.toAtomic) (hstep : schedulerTasks.lstep s a = some s') :
    schedulerTasks.Returns s a := by
  rw [returns_iff_noScaleOut hstep]
  cases a with
  | body w => exact fun i target id _ _ => h.not_scalesOut target id
  | _ => trivial

/-- **With the monitors as they are, the scheduler serves everybody.** In every run in which only
windows of the monitors are reported, no lookup leads to a scale-out, and each task that waits for
the mutex gets it after at most two steps of the mutex for each task in the queue. -/
theorem monitored_served {cluster : Cluster} (hnew : cluster.serverStats = .empty _)
    {as : List (LAct Call Told)} {s : Locked SchedulerRuntime Task}
    (hreports : ∀ q, .start (.report q) ∈ as → ∀ w ∈ q.windows, FromMonitor w)
    (hrun : run schedulerTasks.lstep (unlocked (.new cluster)) as = some s) :
    (∀ target id, ¬ ScalesOut s.shared target id) ∧
      ∀ i ∈ s.queue, ∃ bs s', (∀ b ∈ bs, b.OfMutex) ∧ bs.length ≤ 2 * s.queue.length ∧
        run schedulerTasks.lstep s bs = some s' ∧ s'.owner = some i ∧ s'.inside = true := by
  have hunmeasured : ∀ q, .start (.report q) ∈ as → ∀ w ∈ q.windows, Unmeasured w :=
    fun q hq w hw => (hreports q hq w hw).unmeasured
  have hstart : OwnerInside (unlocked (.new cluster) : Locked SchedulerRuntime Task) := by
    intro i hi
    cases hi
  obtain ⟨hcollected, hinside⟩ := collected_invariant
    (fun s a s' hc hs hstep => ownerInside_step hs hstep (hc.returns hstep)) hnew hstart
    hunmeasured hrun
  have horderly : Orderly schedulerTasks s := run_invariant
    (fun _ _ _ hs hstep => orderly_step hs hstep) (orderly_unlocked _ _) hrun
  refine ⟨hcollected.not_scalesOut, fun i hi => granted_of_returns
    (I := fun s : Locked SchedulerRuntime Task => Collected Unmeasured s.toAtomic)
    (fun sh t ht => exists_section sh ht) (fun s a s' hs ha hstep => ?_) hcollected horderly
    hinside hi⟩
  refine ⟨collected_step hs (fun q hq => ?_) hstep, hs.returns hstep⟩
  rw [hq] at ha
  exact absurd ha id

/-! ### The first server -/

omit [Crates] in
/-- Stats of windows that take no time are decided by their order. -/
theorem Collected.scheduleBy {s : Atomic SchedulerRuntime Task} (h : Collected Momentary s)
    (percent : ResourceUtilization → Int32) {it : List ServerStats}
    (hit : ∀ stats ∈ it, s.shared.cluster.serverStats.lookup stats.server.id = some stats) :
    scheduleBy (utilizedRate percent) it = .ok (it.head?.map (·.server)) :=
  scheduleBy_nan fun stats hs => utilizedRate_momentary percent (h.stored _ stats (hit stats hs))

omit [Crates] in
/-- The target of a deployment, where `schedule` takes the first. -/
theorem chooseTarget_of_first {rt : SchedulerRuntime} {it : List ServerStats} {target : ServerInfo}
    (hschedule : schedule it = .ok (it.head?.map (·.server)))
    (h : rt.chooseTarget it = .ok target) :
    (it.head?.map (·.server)).or rt.cluster.servers.head? = some target := by
  obtain ⟨scheduled, hs, hrest⟩ := bind_eq_ok.mp h
  obtain ⟨first, hfirst, hrest⟩ := bind_eq_ok.mp hrest
  obtain rfl := Except.ok.inj hrest
  obtain rfl := Except.ok.inj (hs.symm.trans hschedule)
  rcases hservers : rt.cluster.servers with _ | ⟨a, rest⟩
  · rw [hservers] at hfirst
    cases hfirst
  · rw [hservers] at hfirst
    obtain rfl := Except.ok.inj hfirst
    rcases it with _ | ⟨b, it⟩
    · rfl
    · rfl

/-- What a lookup finds, where `schedule` takes the first of the hosts. -/
theorem lookup_of_first {rt : SchedulerRuntime} {deploymentId : String} {k : Uuid}
    {stats : StatsMap} {it : List ServerStats} {target : ServerInfo} {id : Uuid}
    (hstats : rt.lookupStats deploymentId = .ok (k, stats))
    (hschedule : schedule it = .ok (it.head?.map (·.server)))
    (h : rt.lookup deploymentId it = .ok (.ok (target, id))) :
    it.head?.map (·.server) = some target := by
  unfold SchedulerRuntime.lookup at h
  rw [hstats] at h
  obtain ⟨scheduled, hs, hrest⟩ := bind_eq_ok.mp h
  obtain rfl := Except.ok.inj (hs.symm.trans hschedule)
  rcases it with _ | ⟨b, it⟩
  · cases hrest
  · cases hrest
    rfl

/-- **With the Radeon monitor, the scheduler takes the first server**, whatever the loads were. In
every run in which only its windows are reported, the target of a deployment is the first server in
the order of the stats, or without stats the first one of the cluster, a lookup returns the first of
the hosts with stats, and the loads of the GPUs would not change that. -/
theorem radeon_takes_first {cluster : Cluster} (hnew : cluster.serverStats = .empty _)
    {as : List (LAct Call Told)} {s : Locked SchedulerRuntime Task}
    (hreports : ∀ q, .start (.report q) ∈ as → ∀ w ∈ q.windows, FromRadeon w)
    (hrun : run schedulerTasks.lstep (unlocked (.new cluster)) as = some s) :
    (∀ it target, s.shared.cluster.serverStats.Iter it → s.shared.chooseTarget it = .ok target →
      (it.head?.map (·.server)).or s.shared.cluster.servers.head? = some target) ∧
    (∀ deploymentId k stats it target id, s.shared.lookupStats deploymentId = .ok (k, stats) →
      stats.Iter it → s.shared.lookup deploymentId it = .ok (.ok (target, id)) →
        it.head?.map (·.server) = some target) ∧
    ∀ it, s.shared.cluster.serverStats.Iter it →
      scheduleGpu it = .ok (it.head?.map (·.server)) := by
  have hmomentary : ∀ q, .start (.report q) ∈ as → ∀ w ∈ q.windows, Momentary w :=
    fun q hq w hw => (hreports q hq w hw).momentary
  obtain ⟨hcollected, -⟩ := collected_invariant (I := fun _ => True)
    (fun _ _ _ _ _ _ => trivial) hnew trivial hmomentary hrun
  refine ⟨fun it target hit htarget => ?_,
    fun deploymentId k stats it target id hstats hit hl => ?_,
    fun it hit => hcollected.scheduleBy _ fun stats hs => hit.lookup hs⟩
  · exact chooseTarget_of_first (hcollected.scheduleBy _ fun stats hs => hit.lookup hs) htarget
  · obtain ⟨i, -, rfl⟩ := lookupStats_ok hstats
    exact lookup_of_first hstats (hcollected.scheduleBy _ fun stats hs =>
      (Keyed.lookup_restrict (hit.lookup hs)).1) hl

end Runs

section Examples

attribute [local instance] Crates.hyphenated

/-- Two servers with Radeon GPUs, of which the first one is busy. -/
def radeonServer : ServerInfo := ⟨2, "http://10.0.0.2:50051"⟩

def idleServer : ServerInfo := ⟨3, "http://10.0.0.3:50051"⟩

def loadedLine : RadeonMetrics := { idleAt ordinary with gpu := 99 / 100 }

def windowWith (gpu : Int32) : MonitorWindow :=
  ⟨some ⟨some ⟨59, 0⟩, some ⟨0, 0⟩⟩, some ⟨-1, -1, -1, gpu, -1, -1⟩⟩

theorem intoWindow_idle : (idleAt ordinary).intoWindow = .ok (windowWith 0) := by
  decide +kernel

theorem intoWindow_loaded : loadedLine.intoWindow = .ok (windowWith 99) := by
  have hpercent : loadedLine.gpu * 100 = 99 := by
    unfold loadedLine
    norm_num
  have hgpu : toI32 (loadedLine.gpu * 100) = 99 := by
    rw [hpercent]
    decide
  have hwindow : loadedLine.timeWindow = .ok ⟨some ⟨59, 0⟩, some ⟨0, 0⟩⟩ := by decide +kernel
  unfold RadeonMetrics.intoWindow RadeonMetrics.intoUtilization
  rw [hwindow, hgpu]
  rfl

theorem fromRadeon_windowWith : FromRadeon (windowWith 0) ∧ FromRadeon (windowWith 99) := by
  have hleap : ordinary.nanos < 10 ^ 9 := by decide
  exact ⟨⟨_, hleap, intoWindow_idle⟩, ⟨_, hleap, intoWindow_loaded⟩⟩

def reportFrom (server : ServerInfo) (gpu : Int32) : Call :=
  .report ⟨some server.into, [windowWith gpu]⟩

/-- The busy server reports; while a deployment waits for the mutex, it is looked up. -/
def queuedRun : List (LAct Call Told) :=
  [.start (reportFrom radeonServer 99), .request 0, .grant, .body .nothing,
    .start (.deploy ⟨"src", "face"⟩ 7), .request 1, .start (.lookup ⟨printUuid 7⟩), .request 2]

theorem queuedRun_served : ∃ s s' bs,
    run schedulerTasks.lstep (unlocked (.new (.new radeonServer))) queuedRun = some s ∧
      run schedulerTasks.lstep s bs = some s' ∧ s.queue = [1, 2] ∧ bs.length ≤ 4 ∧
        s'.owner = some 2 ∧ s'.inside = true := by
  have hrun : (run schedulerTasks.lstep (unlocked (.new (.new radeonServer))) queuedRun).map
      (fun s => s.queue) = some [1, 2] := by decide +kernel
  obtain ⟨s, hs, hqueue⟩ := Option.map_eq_some_iff.mp hrun
  have hreports : ∀ q, .start (.report q) ∈ queuedRun → ∀ w ∈ q.windows, FromMonitor w := by
    intro q hq w hw
    simp only [queuedRun, reportFrom, List.mem_cons, LAct.start.injEq, Call.report.injEq,
      reduceCtorEq, List.not_mem_nil, or_false] at hq
    subst hq
    rw [List.mem_singleton.mp hw]
    exact .inl ⟨_, intoWindow_loaded⟩
  have hwaits : 2 ∈ s.queue := by
    rw [hqueue]
    decide
  obtain ⟨-, hserved⟩ := monitored_served rfl hreports hs
  obtain ⟨bs, s', -, hlen, hbs, howner, hinside⟩ := hserved 2 hwaits
  rw [hqueue] at hlen
  exact ⟨s, s', bs, hs, hbs, hqueue, hlen, howner, hinside⟩

/-- Both servers report. -/
def reportsRun : List (LAct Call Told) :=
  [.start (reportFrom radeonServer 99), .request 0, .grant, .body .nothing,
    .start (reportFrom idleServer 0), .request 1, .grant, .body .nothing]

def reportedStats : List ServerStats :=
  [⟨radeonServer, [windowWith 99]⟩, ⟨idleServer, [windowWith 0]⟩]

theorem reportsRun_takes_loaded : ∃ s,
    run schedulerTasks.lstep (unlocked (.new (.new radeonServer))) reportsRun = some s ∧
      s.shared.cluster.serverStats.Iter reportedStats ∧
      scheduleGpu reportedStats = .ok (some radeonServer) := by
  have hrun : (run schedulerTasks.lstep (unlocked (.new (.new radeonServer))) reportsRun).map
      (fun s => decide (s.shared.cluster.serverStats.Iter reportedStats)) = some true := by
    decide +kernel
  obtain ⟨s, hs, hiter⟩ := Option.map_eq_some_iff.mp hrun
  have hreports : ∀ q, .start (.report q) ∈ reportsRun → ∀ w ∈ q.windows, FromRadeon w := by
    intro q hq w hw
    simp only [reportsRun, reportFrom, List.mem_cons, LAct.start.injEq, Call.report.injEq,
      reduceCtorEq, List.not_mem_nil, or_false, false_or] at hq
    rcases hq with rfl | rfl
    · rw [List.mem_singleton.mp hw]
      exact fromRadeon_windowWith.2
    · rw [List.mem_singleton.mp hw]
      exact fromRadeon_windowWith.1
  obtain ⟨-, -, hgpu⟩ := radeon_takes_first rfl hreports hs
  have hit := of_decide_eq_true hiter
  exact ⟨s, hs, hit, hgpu _ hit⟩

end Examples

end Laqista
