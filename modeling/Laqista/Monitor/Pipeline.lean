import Laqista.Lib.Channel
import Laqista.Monitor.Readers
import Laqista.Report
import Laqista.Scheduler.Reports

/-! # From the output of a monitor to the stats of the scheduler

The monitor task sends one window after the other through a channel with room for one; the reporter
receives a window, calls `report` and waits for the reply; the scheduler takes the windows in, among
the calls of everybody else. A token that is cancelled ends the reporter and its monitor between
two windows. A report that fails ends the reporter with a panic, and the monitor fails at its next
send. The two monitors differ in how they read (`WindowReader`).

`delivered_in_order`: whatever happens in which order, what the scheduler has of the server is what
it had before and then the windows of a beginning of the output, each once and in order; and while
the reporter is there, the windows that are missing are on their way. -/

namespace Laqista.Monitor

open Laqista.Proto Laqista.Lib Laqista.Lib.Runs Laqista.Lib.Tasks

/-- How a monitor reads what its child prints: where it starts, and the windows that come one after
the other until it ends, with an error or without. -/
structure WindowReader (R : Type) where
  start : StdoutLines → Except Panic R
  next : R → Except Panic (Option (MonitorWindow × R))
  reported : R → List MonitorWindow
  reported_some : ∀ {r window r'}, next r = .ok (some (window, r')) →
    reported r = window :: reported r'
  reported_none : ∀ {r}, (∀ window r', next r ≠ .ok (some (window, r'))) → reported r = []

/-- Where the task of the monitor is. -/
inductive MonitorPhase (R : Type) where
  | starting (stdout : StdoutLines)
  | reading (reader : R)
  | sending (window : MonitorWindow) (reader : R)
  | ended

/-- Where a call of `report` is. -/
inductive CallPhase where
  | connecting
  /-- The call is the given task of the scheduler. -/
  | sent (task : ℕ)
  /-- The scheduler has taken the window in. -/
  | accepted
  deriving DecidableEq, Repr

/-- Where `MetricsReporter::start` is. -/
inductive ReporterPhase where
  | selecting (rep : MetricsReporter)
  | reporting (rep : MetricsReporter) (window : MonitorWindow) (call : CallPhase)
  /-- It has returned or panicked. A call that was lost may still be a task of the scheduler. -/
  | ended (lost : Option (MonitorWindow × ℕ))
  deriving DecidableEq

/-- A reporter of the server with its monitor, and the scheduler. -/
structure Monitoring (R : Type) where
  server : ServerInfo
  monitor : MonitorPhase R
  channel : Channel MonitorWindow 1
  reporter : ReporterPhase
  scheduler : Atomic SchedulerRuntime Task

inductive MonitoringStep where
  | start
  | read
  | send
  | receive
  | cancelled
  | connect
  | accept
  | reply (call : Except Loss ReportResponse) (receives : Bool)
  /-- The scheduler goes on with its other tasks. -/
  | other (a : Act Call Told)

/-- The task of the scheduler that brings the window of the reporter. -/
def ReporterPhase.task : ReporterPhase → Option (MonitorWindow × ℕ)
  | reporting _ w (.sent i) => some (w, i)
  | ended lost => lost
  | _ => none

namespace Monitoring

variable {R : Type} [Crates]

/-- The windows that the scheduler has of the server. -/
def delivered (s : Monitoring R) : List MonitorWindow :=
  ((s.scheduler.shared.cluster.serverStats.lookup s.server.id).map (·.stats)).getD []

/-- No report of another server is one of this server, and the reporter's own task is left to the
step for it. -/
def others (s : Monitoring R) : Act Call Told → Bool
  | .start (.report r) =>
    match reportStats r with
    | .ok stats => stats.server.id ≠ s.server.id
    | .error _ => true
  | .enter i _ =>
    match s.reporter with
    | .reporting _ _ (.sent j) => i ≠ j
    | _ => true
  | _ => true

def step (m : WindowReader R) (s : Monitoring R) : MonitoringStep → Option (Monitoring R)
  | .start =>
    match s.monitor with
    | .starting stdout =>
      match m.start stdout with
      | .ok reader => some { s with monitor := .reading reader }
      | .error _ => some { s with monitor := .ended }
    | _ => none
  | .read =>
    match s.monitor with
    | .reading reader =>
      match m.next reader with
      | .ok (some (window, reader)) => some { s with monitor := .sending window reader }
      | .ok none => some { s with monitor := .ended }
      | .error _ => some { s with monitor := .ended }
    | _ => none
  | .send =>
    match s.monitor with
    | .sending window reader =>
      match s.channel.send window with
      | some (.ok channel) => some { s with monitor := .reading reader, channel := channel }
      | some (.error ()) => some { s with monitor := .ended }
      | none => none
    | _ => none
  | .receive =>
    match s.reporter, s.channel.recv with
    | .selecting rep, some (window, channel) =>
      some { s with reporter := .reporting rep window .connecting, channel := channel }
    | _, _ => none
  | .cancelled =>
    match s.reporter with
    | .selecting _ => some
        { s with
          reporter := .ended none
          -- what the aborted task may still read and send is received by nobody
          monitor := .ended
          channel := s.channel.close }
    | _ => none
  | .connect =>
    match s.reporter with
    | .reporting rep window .connecting =>
      (schedulerTasks.astep s.scheduler (.start (.report (rep.reportRequest window)))).map
        fun scheduler =>
          { s with
            reporter := .reporting rep window (.sent s.scheduler.tasks.length)
            scheduler := scheduler }
    | _ => none
  | .accept =>
    match s.reporter with
    | .reporting rep window (.sent i) =>
      (schedulerTasks.astep s.scheduler (.enter i .nothing)).map fun scheduler =>
        { s with reporter := .reporting rep window .accepted, scheduler := scheduler }
    | _ => none
  | .reply call receives =>
    match s.reporter with
    | .reporting rep _ phase =>
      match rep.startTurn call receives with
      | .ok rep =>
        -- only a report that the scheduler has taken in is answered
        if phase = .accepted then some { s with reporter := .selecting rep } else none
      | .error _ => some
          { s with reporter := .ended s.reporter.task, channel := s.channel.close }
    | _ => none
  | .other a =>
    if s.others a then
      (schedulerTasks.astep s.scheduler a).map fun scheduler => { s with scheduler := scheduler }
    else none

end Monitoring

/-! ### What there is to deliver -/

/-- The windows of what the child prints. -/
def WindowReader.windows {R : Type} (m : WindowReader R) (stdout : StdoutLines) :
    List MonitorWindow :=
  match m.start stdout with
  | .ok reader => m.reported reader
  | .error _ => []

/-- The windows that a monitor is going to send. -/
def MonitorPhase.upcoming {R : Type} (m : WindowReader R) : MonitorPhase R → List MonitorWindow
  | starting stdout => m.windows stdout
  | reading reader => m.reported reader
  | sending window reader => window :: m.reported reader
  | ended => []

/-- The window that the reporter has, if the scheduler has not taken it in. -/
def ReporterPhase.held : ReporterPhase → List MonitorWindow
  | reporting _ window .connecting | reporting _ window (.sent _) => [window]
  | _ => []

namespace Monitoring

variable {R : Type} [Crates]

/-- The windows on their way from the monitor to the scheduler. -/
def inFlight (s : Monitoring R) : List MonitorWindow := s.reporter.held ++ s.channel.buffer

/-- The reporter has not ended. -/
def Alive (s : Monitoring R) : Prop := ∀ lost, s.reporter ≠ .ended lost

/-- A new reporter with a new monitor, at a scheduler without a pending report of the server. -/
structure Starts (s : Monitoring R) (stdout : StdoutLines) : Prop where
  monitor : s.monitor = .starting stdout
  channel : s.channel = .new
  reporter : ∃ scheduler, s.reporter = .selecting (.new s.server scheduler)
  tasks : ∀ stats, Task.insertStats stats ∈ s.scheduler.tasks → stats.server.id ≠ s.server.id

/-- **What is kept**, with all windows that there are to deliver: while the reporter is there, each
is delivered, in flight or still to come; the only task with a report of the server is the
reporter's, and its window is the next one to deliver. -/
structure Ordered (m : WindowReader R) (all : List MonitorWindow) (s : Monitoring R) :
    Prop where
  alive : s.Alive → s.channel.closed = false ∧
    all = s.delivered ++ s.inFlight ++ s.monitor.upcoming m
  dead : ∀ lost, s.reporter = .ended lost → s.channel.closed = true ∧
    ∃ rest, all = s.delivered ++ rest ∧ ∀ window i stats, lost = some (window, i) →
      s.scheduler.tasks[i]? = some (.insertStats stats) → ∃ later, rest = window :: later
  tasks : ∀ i stats, s.scheduler.tasks[i]? = some (.insertStats stats) →
    stats.server.id = s.server.id → ∃ window, s.reporter.task = some (window, i)
  task : ∀ window i, s.reporter.task = some (window, i) →
    s.scheduler.tasks[i]? = some (.insertStats ⟨s.server, [window]⟩) ∨
      s.scheduler.tasks[i]? = some .done
  server : ∀ rep, s.reporter = .selecting rep ∨
    (∃ window call, s.reporter = .reporting rep window call) → rep.server = s.server

/-! ### The scheduler's steps -/

/-- The windows that a report brings for the server. -/
def windowsFor (id : Uuid) (stats : ServerStats) : List MonitorWindow :=
  if stats.server.id = id then stats.stats else []

variable {s s' : Monitoring R} {m : WindowReader R} {scheduler : Atomic SchedulerRuntime Task}
  {a : Act Call Told}

/-- A step of the scheduler delivers what it accepts. -/
theorem delivered_astep (h : schedulerTasks.astep s.scheduler a = some scheduler) :
    delivered { s with scheduler := scheduler } =
      s.delivered ++ (accepted s.scheduler a).toList.flatMap (windowsFor s.server.id) := by
  have hstats := astep_accepted h
  unfold delivered
  dsimp only
  rw [hstats]
  rcases accepted s.scheduler a with _ | r
  · simp [storeReports]
  · show ((Keyed.lookup (Keyed.upsert _ r fun s => s.append r.stats) s.server.id).map _).getD [] = _
    rw [Keyed.lookup_upsert (f := fun s : ServerStats => s.append r.stats) fun _ => rfl]
    simp only [Option.toList_some, List.flatMap_cons, List.flatMap_nil, List.append_nil]
    unfold windowsFor
    by_cases hid : r.server.id = s.server.id
    · rw [if_pos hid.symm, if_pos hid, hid]
      rcases s.scheduler.shared.cluster.serverStats.lookup s.server.id with _ | old
      · rfl
      · rfl
    · rw [if_neg (Ne.symm hid), if_neg hid, List.append_nil]

/-- No section leads to a report. -/
theorem section_insertStats {rt : SchedulerRuntime} {t : Task} {o : Outcome SchedulerRuntime Task}
    (h : Section rt t o) (stats : ServerStats) :
    o.next ≠ .insertStats stats ∧ .insertStats stats ∉ o.spawned := by
  cases h
  all_goals simp [leave]

omit [Crates] in
theorem awaitAnswer_insertStats {t t' : Task} {w : Told} (h : awaitAnswer t w = some t')
    (stats : ServerStats) : t' ≠ .insertStats stats := by
  unfold awaitAnswer at h
  split at h
  all_goals simp at h
  all_goals simp [← h]

theorem startCall_insertStats {rt : SchedulerRuntime} {tasks : List Task} {c : Call}
    {stats : ServerStats} (h : startCall rt tasks c = some (.insertStats stats)) :
    ∃ r, c = .report r ∧ reportStats r = .ok stats := by
  unfold startCall at h
  split at h
  · split at h
    all_goals simp at h
  · split at h
    · next st hst =>
      simp only [Option.some.injEq, Task.insertStats.injEq] at h
      exact ⟨_, rfl, h ▸ hst⟩
    · simp at h
  · split_ifs at h
    simp at h
  · simp at h
  · split at h
    all_goals simp at h

/-- **Where a report comes from**: it was pending, or it is the call that starts. -/
theorem insertStats_of_astep {k : ℕ} {stats : ServerStats}
    (h : schedulerTasks.astep s.scheduler a = some scheduler)
    (hk : scheduler.tasks[k]? = some (.insertStats stats)) :
    s.scheduler.tasks[k]? = some (.insertStats stats) ∨
      ∃ r, a = .start (.report r) ∧ k = s.scheduler.tasks.length ∧ reportStats r = .ok stats := by
  rcases TaskSystem.task_of_astep h hk with hold | ⟨c, rfl, hlen, hc⟩ | ⟨i, w, t, o, -, -, ho, ht⟩ |
    ⟨i, w, t, -, -, ht⟩ | ht
  · exact .inl hold
  · obtain ⟨r, rfl, hr⟩ := startCall_insertStats hc
    exact .inr ⟨r, rfl, hlen, hr⟩
  · obtain ⟨hnext, hspawned⟩ := section_insertStats (section_of ho) stats
    exact ht.elim (fun he => absurd he.symm hnext) fun hmem => absurd hmem hspawned
  · exact absurd rfl (awaitAnswer_insertStats ht stats)
  · simp [schedulerTasks] at ht

/-- A task with a report keeps it until its section, and then it is done. -/
theorem report_astep {i : ℕ} {stats : ServerStats}
    (h : schedulerTasks.astep s.scheduler a = some scheduler)
    (hi : s.scheduler.tasks[i]? = some (.insertStats stats) ∨ s.scheduler.tasks[i]? = some .done) :
    (∀ w, a ≠ .enter i w) ∧ (scheduler.tasks[i]? = s.scheduler.tasks[i]? ∨
      scheduler.tasks[i]? = some .done) ∨
    (∃ w, a = .enter i w) ∧ s.scheduler.tasks[i]? = some (.insertStats stats) ∧
      scheduler.tasks[i]? = some .done := by
  have hlt : i < s.scheduler.tasks.length := by
    rcases hi with hi | hi
    · exact (List.getElem?_eq_some_iff.mp hi).1
    · exact (List.getElem?_eq_some_iff.mp hi).1
  rcases TaskSystem.astep_cases h with ⟨r, t, rfl, -, rfl⟩ | ⟨j, w, t, o, rfl, ht, he, ho, rfl⟩ |
    ⟨j, w, t, t', rfl, ht, he, ht', rfl⟩ | ⟨j, rfl, rfl⟩
  · exact .inl ⟨by simp, .inl (List.getElem?_append_left hlt)⟩
  · by_cases hj : j = i
    · subst hj
      right
      rcases hi with hi | hi
      · rw [hi] at ht
        obtain rfl := Option.some.inj ht
        have hbody := section_of ho
        cases hbody
        refine ⟨⟨w, rfl⟩, hi, ?_⟩
        simp [leave, hlt]
      · rw [hi] at ht
        obtain rfl := Option.some.inj ht
        simp [schedulerTasks, Task.enters] at he
    · left
      refine ⟨fun w' he' => hj (by cases he'; rfl), .inl ?_⟩
      dsimp only
      rw [List.getElem?_append_left (by simpa using hlt), List.getElem?_set_ne hj]
  · by_cases hj : j = i
    · subst hj
      rcases hi with hi | hi
      · rw [hi] at ht
        obtain rfl := Option.some.inj ht
        simp [schedulerTasks, Task.enters] at he
      · rw [hi] at ht
        obtain rfl := Option.some.inj ht
        simp [schedulerTasks, awaitAnswer] at ht'
    · left
      refine ⟨by simp, .inl ?_⟩
      dsimp only
      rw [List.getElem?_set_ne hj]
  · left
    refine ⟨by simp, ?_⟩
    dsimp only
    by_cases hj : j = i
    · subst hj
      right
      rw [List.getElem?_set_self hlt]
      rfl
    · exact .inl (List.getElem?_set_ne hj)

/-- **What a step of the scheduler delivers** is nothing, or the window of the reporter's task at
its section. -/
theorem delivered_cases {all : List MonitorWindow} (hs : Ordered m all s)
    (h : schedulerTasks.astep s.scheduler a = some scheduler) :
    delivered { s with scheduler := scheduler } = s.delivered ∨
    ∃ i w window, a = .enter i w ∧ s.reporter.task = some (window, i) ∧
      delivered { s with scheduler := scheduler } = s.delivered ++ [window] := by
  rw [delivered_astep h]
  rcases hacc : accepted s.scheduler a with _ | stats
  · exact .inl (by simp)
  · obtain ⟨i, w, rfl⟩ : ∃ i w, a = .enter i w := by
      cases a with
      | enter i w => exact ⟨i, w, rfl⟩
      | _ => simp [accepted] at hacc
    have htask : s.scheduler.tasks[i]? = some (.insertStats stats) := by
      obtain ⟨t, ht, hreport⟩ := Option.bind_eq_some_iff.mp hacc
      cases t with
      | insertStats st =>
        obtain rfl := Option.some.inj hreport
        exact ht
      | _ => simp [Task.report] at hreport
    simp only [Option.toList_some, List.flatMap_cons, List.flatMap_nil, List.append_nil]
    by_cases hid : stats.server.id = s.server.id
    · obtain ⟨window, hw⟩ := hs.tasks i stats htask hid
      have hstats : stats = ⟨s.server, [window]⟩ := by
        rcases hs.task window i hw with hi | hi
        · rw [htask] at hi
          exact Task.insertStats.inj (Option.some.inj hi)
        · rw [htask] at hi
          simp at hi
      refine .inr ⟨i, w, window, rfl, hw, ?_⟩
      rw [hstats]
      simp [windowsFor]
    · left
      simp [windowsFor, hid]

/-! ### One step -/

variable {all : List MonitorWindow}

omit [Crates] in
theorem alive_of_reporter {p : ReporterPhase} (h : s.reporter = p) (hp : ∀ lost, p ≠ .ended lost) :
    s.Alive := by
  intro lost
  rw [h]
  exact hp lost

omit [Crates] in
/-- What the monitor and the channel do among themselves. -/
theorem ordered_monitor (hs : Ordered m all s) {phase : MonitorPhase R}
    {c : Channel MonitorWindow 1} (hc : c.closed = s.channel.closed)
    (h : s.channel.closed = false →
      c.buffer ++ phase.upcoming m = s.channel.buffer ++ s.monitor.upcoming m) :
    Ordered m all { s with monitor := phase, channel := c } := by
  refine ⟨fun halive => ?_, fun lost hlost => ?_, hs.tasks, hs.task, hs.server⟩
  · obtain ⟨hopen, hall⟩ := hs.alive halive
    refine ⟨hc.trans hopen, ?_⟩
    have hsame := h hopen
    show all = s.delivered ++ (s.reporter.held ++ c.buffer) ++ phase.upcoming m
    rw [hall, inFlight]
    simp only [List.append_assoc, hsame]
  · obtain ⟨hclosed, hrest⟩ := hs.dead lost hlost
    exact ⟨hc.trans hclosed, hrest⟩

omit [Crates] in
/-- The reporter goes on between two steps of the scheduler. -/
theorem ordered_reporter (hs : Ordered m all s) (halive : s.Alive) {p : ReporterPhase}
    {c : Channel MonitorWindow 1} (hc : c.closed = false) (hp : ∀ lost, p ≠ .ended lost)
    (hheld : p.held ++ c.buffer = s.reporter.held ++ s.channel.buffer)
    (hold : s.reporter.task = none) (hnew : p.task = none)
    (hserver : ∀ rep, p = .selecting rep ∨ (∃ window call, p = .reporting rep window call) →
      rep.server = s.server) :
    Ordered m all { s with reporter := p, channel := c } := by
  refine ⟨fun _ => ⟨hc, ?_⟩, fun lost hlost => absurd hlost (hp lost), fun i stats hi hid => ?_,
    fun window i hi => ?_, hserver⟩
  · obtain ⟨-, hall⟩ := hs.alive halive
    rw [hall]
    show s.delivered ++ (s.reporter.held ++ s.channel.buffer) ++ s.monitor.upcoming m =
      s.delivered ++ (p.held ++ c.buffer) ++ s.monitor.upcoming m
    rw [hheld]
  · obtain ⟨window, hw⟩ := hs.tasks i stats hi hid
    rw [hold] at hw
    cases hw
  · rw [hnew] at hi
    cases hi

omit [Crates] in
/-- The window of the reporter's task is in flight. -/
theorem held_of_task (halive : s.Alive) {window : MonitorWindow} {i : ℕ}
    (h : s.reporter.task = some (window, i)) :
    ∃ rep, s.reporter = .reporting rep window (.sent i) ∧ s.reporter.held = [window] := by
  rcases hr : s.reporter with rep | ⟨rep, w, _ | j | _⟩ | lost
  · rw [hr] at h
    cases h
  · rw [hr] at h
    cases h
  · rw [hr] at h
    cases h
    exact ⟨rep, rfl, rfl⟩
  · rw [hr] at h
    cases h
  · exact absurd hr (halive lost)

omit [Crates] in
/-- The reporter ends, and what it has and what is in the channel is lost. -/
theorem ordered_end (hs : Ordered m all s) (halive : s.Alive) (phase : MonitorPhase R) :
    Ordered m all
      { s with
        reporter := .ended s.reporter.task
        monitor := phase
        channel := s.channel.close } := by
  obtain ⟨-, hall⟩ := hs.alive halive
  refine ⟨fun h => absurd rfl (h _), fun lost hlost => ⟨rfl, ?_⟩, hs.tasks, hs.task, ?_⟩
  · refine ⟨s.inFlight ++ s.monitor.upcoming m, by rw [← List.append_assoc]; exact hall, ?_⟩
    intro window i stats hw _
    obtain rfl := ReporterPhase.ended.inj hlost
    obtain ⟨rep, -, hheld⟩ := held_of_task halive hw
    refine ⟨s.channel.buffer ++ s.monitor.upcoming m, ?_⟩
    unfold inFlight
    rw [hheld]
    rfl
  · rintro rep (h | ⟨window, call, h⟩)
    · cases h
    · cases h

/-- **The scheduler goes on**, without the section of the reporter's task while the reporter waits
for it. -/
theorem ordered_other (hs : Ordered m all s) (ho : s.others a = true)
    (h : schedulerTasks.astep s.scheduler a = some scheduler) :
    Ordered m all { s with scheduler := scheduler } := by
  have htask : ∀ window i, s.reporter.task = some (window, i) →
      scheduler.tasks[i]? = some (.insertStats ⟨s.server, [window]⟩) ∨
        scheduler.tasks[i]? = some .done := by
    intro window i hi
    have hold := hs.task window i hi
    rcases report_astep h hold with ⟨-, hsame | hdone⟩ | ⟨-, -, hdone⟩
    · rw [hsame]
      exact hold
    · exact .inr hdone
    · exact .inr hdone
  refine ⟨fun halive => ?_, fun lost hlost => ?_, fun i stats hi hid => ?_, htask, hs.server⟩
  · obtain ⟨hopen, hall⟩ := hs.alive halive
    refine ⟨hopen, ?_⟩
    rcases delivered_cases hs h with hsame | ⟨i, w, window, rfl, hw, -⟩
    · show all = delivered { s with scheduler := scheduler } ++ s.inFlight ++ s.monitor.upcoming m
      rw [hsame]
      exact hall
    · have halive' : s.Alive := halive
      obtain ⟨rep, hr, -⟩ := held_of_task halive' hw
      simp [others, hr] at ho
  · obtain ⟨hclosed, rest, hall, hnext⟩ := hs.dead lost hlost
    have hreporter : s.reporter.task = lost := by
      show ReporterPhase.task s.reporter = lost
      have : s.reporter = .ended lost := hlost
      rw [this]
      rfl
    refine ⟨hclosed, ?_⟩
    rcases delivered_cases hs h with hsame | ⟨i, w, window, rfl, hw, hnew⟩
    · rw [hsame]
      refine ⟨rest, hall, fun window i stats hl hi => ?_⟩
      rcases insertStats_of_astep h hi with hold | ⟨r, -, hlen, -⟩
      · exact hnext window i stats hl hold
      · have hin : i < s.scheduler.tasks.length := by
          rcases hs.task window i (hreporter.trans hl) with hi | hi
          · exact (List.getElem?_eq_some_iff.mp hi).1
          · exact (List.getElem?_eq_some_iff.mp hi).1
        omega
    · -- the lost report arrives after all
      have hold := hs.task window i hw
      rcases report_astep h hold with ⟨hne, -⟩ | ⟨-, hi, hdone⟩
      · exact absurd rfl (hne w)
      · obtain ⟨later, rfl⟩ := hnext window i _ (hreporter.symm.trans hw) hi
        rw [hnew]
        refine ⟨later, by rw [hall]; simp, fun window' i' stats hl hi' => ?_⟩
        rw [hreporter, hl] at hw
        cases hw
        rw [hdone] at hi'
        cases hi'
  · rcases insertStats_of_astep h hi with hold | ⟨r, rfl, -, hr⟩
    · exact hs.tasks i stats hold hid
    · simp only [others, hr] at ho
      exact absurd hid (by simpa using ho)

/-- The call of the reporter becomes a task of the scheduler. -/
theorem ordered_connect (hs : Ordered m all s) {rep : MetricsReporter} {window : MonitorWindow}
    (hr : s.reporter = .reporting rep window .connecting)
    (h : schedulerTasks.astep s.scheduler (.start (.report (rep.reportRequest window))) =
      some scheduler) :
    Ordered m all
      { s with
        reporter := .reporting rep window (.sent s.scheduler.tasks.length)
        scheduler := scheduler } := by
  have hserver : rep.server = s.server := hs.server rep (.inr ⟨window, _, hr⟩)
  have hnew : scheduler = ⟨s.scheduler.shared,
      s.scheduler.tasks ++ [.insertStats ⟨s.server, [window]⟩]⟩ := by
    have hstats : reportStats (rep.reportRequest window) = .ok ⟨s.server, [window]⟩ := by
      unfold MetricsReporter.reportRequest
      rw [reportStats_into, hserver]
    simp only [TaskSystem.astep, schedulerTasks, startCall, hstats, Option.map_some,
      Option.some.injEq] at h
    exact h.symm
  subst hnew
  have halive : s.Alive := alive_of_reporter hr (by simp)
  obtain ⟨hopen, hall⟩ := hs.alive halive
  refine ⟨fun _ => ⟨hopen, ?_⟩, fun lost hlost => (by cases hlost), fun i stats hi hid => ?_,
    fun window' i hi => ?_, ?_⟩
  · rw [hall, inFlight, inFlight, hr]
    rfl
  · rcases Nat.lt_or_ge i s.scheduler.tasks.length with hlt | hge
    · rw [List.getElem?_append_left hlt] at hi
      obtain ⟨w, hw⟩ := hs.tasks i stats hi hid
      rw [hr] at hw
      cases hw
    · have hlt := (List.getElem?_eq_some_iff.mp hi).1
      rw [List.length_append, List.length_singleton] at hlt
      have hi' : i = s.scheduler.tasks.length := by omega
      rw [hi']
      exact ⟨window, rfl⟩
  · cases hi
    left
    rw [List.getElem?_concat_length]
  · rintro rep' (h' | ⟨w, call, h'⟩)
    · cases h'
    · cases h'
      exact hserver

/-- The scheduler takes in the window of the reporter. -/
theorem ordered_accept (hs : Ordered m all s) {rep : MetricsReporter} {window : MonitorWindow}
    {i : ℕ}
    (hr : s.reporter = .reporting rep window (.sent i))
    (h : schedulerTasks.astep s.scheduler (.enter i .nothing) = some scheduler) :
    Ordered m all
      { s with reporter := .reporting rep window .accepted, scheduler := scheduler } := by
  have halive : s.Alive := alive_of_reporter hr (by simp)
  have htask : s.reporter.task = some (window, i) := by
    rw [hr]
    rfl
  obtain ⟨hopen, hall⟩ := hs.alive halive
  have hold := hs.task window i htask
  rcases report_astep h hold with ⟨hne, -⟩ | ⟨-, hi, hdone⟩
  · exact absurd rfl (hne _)
  · have hacc : accepted s.scheduler (.enter i .nothing) = some ⟨s.server, [window]⟩ := by
      simp only [accepted, hi, Option.bind_some, Task.report]
    have hdel := delivered_astep h
    rw [hacc] at hdel
    refine ⟨fun _ => ⟨hopen, ?_⟩, fun lost hlost => (by cases hlost), fun k stats hk hid => ?_,
      fun w k hk => (by cases hk), ?_⟩
    · show all = delivered { s with scheduler := scheduler } ++ ([] ++ s.channel.buffer) ++
        s.monitor.upcoming m
      rw [hdel, hall, inFlight, hr]
      simp [windowsFor, ReporterPhase.held]
    · rcases insertStats_of_astep h hk with hold | ⟨r, hr', -⟩
      · obtain ⟨w, hw⟩ := hs.tasks k stats hold hid
        rw [htask] at hw
        cases hw
        rw [hdone] at hk
        cases hk
      · cases hr'
    · rintro rep' (h' | ⟨w, call, h'⟩)
      · cases h'
      · cases h'
        exact hs.server rep (.inr ⟨window, _, hr⟩)

/-- **Every step keeps the order.** -/
theorem ordered_step {x : MonitoringStep} (hs : Ordered m all s) (h : s.step m x = some s') :
    Ordered m all s' := by
  cases x with
  | start =>
    simp only [step] at h
    split at h
    · next stdout hm =>
      split at h
      · next reader hstart =>
        cases h
        refine ordered_monitor hs rfl fun _ => ?_
        rw [hm]
        simp only [MonitorPhase.upcoming, WindowReader.windows, hstart]
      · next p hstart =>
        cases h
        refine ordered_monitor hs rfl fun _ => ?_
        rw [hm]
        simp only [MonitorPhase.upcoming, WindowReader.windows, hstart]
    · cases h
  | read =>
    simp only [step] at h
    split at h
    · next reader hm =>
      -- without a window, what is reported has come to its end
      have hend : (∀ window r', m.next reader ≠ .ok (some (window, r'))) →
          Ordered m all { s with monitor := .ended } := by
        intro hno
        refine ordered_monitor hs rfl fun _ => ?_
        rw [hm]
        simp only [MonitorPhase.upcoming, m.reported_none hno]
      split at h
      · next window reader' hn =>
        cases h
        refine ordered_monitor hs rfl fun _ => ?_
        rw [hm]
        simp only [MonitorPhase.upcoming, m.reported_some hn]
      · next hn =>
        cases h
        refine hend fun window r' hn' => ?_
        rw [hn] at hn'
        cases hn'
      · next p hn =>
        cases h
        refine hend fun window r' hn' => ?_
        rw [hn] at hn'
        cases hn'
    · cases h
  | send =>
    simp only [step] at h
    split at h
    · next window reader hm =>
      split at h
      · next channel hsend =>
        cases h
        obtain ⟨hopen, hopen', hbuffer⟩ := Channel.send_ok hsend
        refine ordered_monitor hs (hopen'.trans hopen.symm) fun _ => ?_
        rw [hm, hbuffer]
        simp [MonitorPhase.upcoming]
      · next hsend =>
        cases h
        have hclosed := Channel.send_error hsend
        refine ordered_monitor hs rfl fun hopen => ?_
        rw [hclosed] at hopen
        cases hopen
      · cases h
    · cases h
  | receive =>
    simp only [step] at h
    split at h
    · next rep window channel hr hrecv =>
      cases h
      obtain ⟨hbuffer, hclosed⟩ := Channel.recv_some hrecv
      have halive : s.Alive := alive_of_reporter hr (by simp)
      refine ordered_reporter hs halive (hclosed.trans (hs.alive halive).1) (by simp) ?_ ?_ rfl ?_
      · rw [hr, hbuffer]
        rfl
      · rw [hr]
        rfl
      · rintro rep' (h' | ⟨w, call, h'⟩)
        · cases h'
        · cases h'
          exact hs.server rep (.inl hr)
    · cases h
  | cancelled =>
    simp only [step] at h
    split at h
    · next rep hr =>
      cases h
      have hend := ordered_end hs (alive_of_reporter hr (by simp)) .ended
      rw [hr] at hend
      exact hend
    · cases h
  | connect =>
    simp only [step] at h
    split at h
    · next rep window hr =>
      obtain ⟨scheduler, hstep, rfl⟩ := Option.map_eq_some_iff.mp h
      exact ordered_connect hs hr hstep
    · cases h
  | accept =>
    simp only [step] at h
    split at h
    · next rep window i hr =>
      obtain ⟨scheduler, hstep, rfl⟩ := Option.map_eq_some_iff.mp h
      exact ordered_accept hs hr hstep
    · cases h
  | reply call receives =>
    simp only [step] at h
    split at h
    · next rep window phase hr =>
      have halive : s.Alive := alive_of_reporter hr (by simp)
      split at h
      · next rep' hturn =>
        split_ifs at h with hphase
        cases h
        refine ordered_reporter hs halive (hs.alive halive).1 (by simp) ?_ ?_ rfl ?_
        · rw [hr, hphase]
          rfl
        · rw [hr, hphase]
          rfl
        · rintro rep'' (h' | ⟨w, c, h'⟩)
          · cases h'
            rw [(startTurn_ok hturn).2.1]
            exact hs.server rep (.inr ⟨window, phase, hr⟩)
          · cases h'
      · cases h
        exact ordered_end hs halive s.monitor
    · cases h
  | other a =>
    simp only [step] at h
    split_ifs at h with ho
    obtain ⟨scheduler, hstep, rfl⟩ := Option.map_eq_some_iff.mp h
    exact ordered_other hs ho hstep

omit [Crates] in
theorem Starts.alive {stdout : StdoutLines} (hs : s.Starts stdout) : s.Alive := by
  obtain ⟨scheduler, hr⟩ := hs.reporter
  exact alive_of_reporter hr (by simp)

/-- Each step is about the same server, and is one of the scheduler or leaves it alone. -/
theorem scheduler_step {x : MonitoringStep} (h : s.step m x = some s') : s'.server = s.server ∧
    (s'.scheduler = s.scheduler ∨
      ∃ a, schedulerTasks.astep s.scheduler a = some s'.scheduler) := by
  cases x with
  | other a =>
    simp only [step] at h
    split_ifs at h with ho
    obtain ⟨scheduler, hstep, rfl⟩ := Option.map_eq_some_iff.mp h
    exact ⟨rfl, .inr ⟨a, hstep⟩⟩
  | connect | accept =>
    simp only [step] at h
    split at h
    · obtain ⟨scheduler, hstep, rfl⟩ := Option.map_eq_some_iff.mp h
      exact ⟨rfl, .inr ⟨_, hstep⟩⟩
    · cases h
  | reply call receives =>
    simp only [step] at h
    split at h
    · split at h
      · split_ifs at h
        cases h
        exact ⟨rfl, .inl rfl⟩
      · cases h
        exact ⟨rfl, .inl rfl⟩
    · cases h
  | start | send | read =>
    simp only [step] at h
    split at h
    · split at h
      all_goals
        cases h
        try exact ⟨rfl, .inl rfl⟩
    · cases h
  | receive | cancelled =>
    simp only [step] at h
    split at h
    · cases h
      exact ⟨rfl, .inl rfl⟩
    · cases h

/-- What was delivered stays. -/
theorem delivered_step {x : MonitoringStep} (h : s.step m x = some s') :
    s.delivered <+: s'.delivered := by
  obtain ⟨hserver, hscheduler | ⟨a, ha⟩⟩ := scheduler_step h
  · unfold delivered
    rw [hserver, hscheduler]
  · have hdel := delivered_astep ha
    have hsame : s'.delivered = delivered { s with scheduler := s'.scheduler } := by
      unfold delivered
      rw [hserver]
    rw [hsame, hdel]
    exact List.prefix_append ..

omit [Crates] in
/-- At the start every window is still to come. -/
theorem ordered_start {stdout : StdoutLines} (hs : s.Starts stdout) :
    Ordered m (s.delivered ++ m.windows stdout) s := by
  obtain ⟨scheduler, hr⟩ := hs.reporter
  have htask : s.reporter.task = none := by
    rw [hr]
    rfl
  refine ⟨fun _ => ⟨?_, ?_⟩, fun lost hlost => absurd hlost (hs.alive lost),
    fun i stats hi hid => ?_, fun window i hi => ?_, ?_⟩
  · rw [hs.channel]
    rfl
  · rw [inFlight, hr, hs.channel, hs.monitor]
    simp [ReporterPhase.held, MonitorPhase.upcoming]
  · exact absurd hid (hs.tasks stats (List.mem_of_getElem? hi))
  · rw [htask] at hi
    cases hi
  · rintro rep (h | ⟨w, c, h⟩)
    · rw [hr] at h
      cases h
      rfl
    · rw [hr] at h
      cases h

/-- Over a run, the scheduler gains a beginning of what the child prints. -/
theorem sent_of_run {stdout : StdoutLines} {s₀ : Monitoring R} {xs : List MonitoringStep}
    (hs : s₀.Starts stdout) (h : run (step m) s₀ xs = some s) :
    ∃ sent rest, m.windows stdout = sent ++ rest ∧ s.delivered = s₀.delivered ++ sent ∧
      (s.Alive → rest = s.inFlight ++ s.monitor.upcoming m) := by
  have hordered : Ordered m (s₀.delivered ++ m.windows stdout) s :=
    run_invariant (fun _ _ _ hs' hstep => ordered_step hs' hstep) (ordered_start hs) h
  have hkept : s₀.delivered <+: s.delivered :=
    run_invariant (I := fun s : Monitoring R => s₀.delivered <+: s.delivered)
      (fun _ _ _ hs' hstep => hs'.trans (delivered_step hstep)) (List.prefix_refl _) h
  obtain ⟨sent, hsent⟩ := hkept
  -- what is missing comes after what was delivered
  have hrest : ∀ rest, s₀.delivered ++ m.windows stdout = s.delivered ++ rest →
      m.windows stdout = sent ++ rest := by
    intro rest hall
    rw [← hsent, List.append_assoc] at hall
    exact List.append_cancel_left hall
  by_cases halive : s.Alive
  · have hall := (hordered.alive halive).2
    rw [List.append_assoc] at hall
    exact ⟨sent, _, hrest _ hall, hsent.symm, fun _ => rfl⟩
  · have hended : ∃ lost, s.reporter = .ended lost := by
      unfold Alive at halive
      push Not at halive
      exact halive
    obtain ⟨lost, hlost⟩ := hended
    obtain ⟨-, rest, hall, -⟩ := hordered.dead lost hlost
    exact ⟨sent, rest, hrest rest hall, hsent.symm, fun ha => absurd ha halive⟩

/-- **Windows are delivered in order, and none is lost while the reporter is there.** In every run
of the monitor, the channel, the reporter and the scheduler, with whatever else the scheduler does
and whatever goes wrong, but without other reports for the server, the scheduler has what it had of
the server and then the windows of a beginning of the child's output, each once. Those that are
missing are the one the reporter has, the one in the channel and what the monitor will still send,
as long as the reporter has not ended. -/
theorem delivered_in_order {stdout : StdoutLines} {s₀ : Monitoring R} {xs : List MonitoringStep}
    (hs : s₀.Starts stdout) (h : run (step m) s₀ xs = some s) :
    s.server = s₀.server ∧ ∃ sent rest, m.windows stdout = sent ++ rest ∧
      s.delivered = s₀.delivered ++ sent ∧
        (s.Alive → s.inFlight.length ≤ 2 ∧ rest = s.inFlight ++ s.monitor.upcoming m) := by
  have hserver : s.server = s₀.server :=
    run_invariant (I := fun s : Monitoring R => s.server = s₀.server)
      (fun _ _ _ hs' hstep => (scheduler_step hstep).1.trans hs') rfl h
  obtain ⟨sent, rest, hwindows, hdelivered, hrest⟩ := sent_of_run hs h
  have hbuffer := s.channel.bounded
  have hheld : s.reporter.held.length ≤ 1 := by
    unfold ReporterPhase.held
    split
    all_goals simp
  have hflight : s.inFlight.length ≤ 2 := by
    unfold inFlight
    rw [List.length_append]
    omega
  exact ⟨hserver, sent, rest, hwindows, hdelivered, fun ha => ⟨hflight, hrest ha⟩⟩

end Monitoring

end Laqista.Monitor
