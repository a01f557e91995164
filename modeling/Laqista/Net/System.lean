import Laqista.Scheduler.Handlers
import Laqista.Report
import Mathlib.Logic.Function.Basic

/-! # Servers, schedulers and reporters

A `Net` is a set of servers some of which are schedulers. A scheduler is at its address and runs its
tasks (`Laqista.Scheduler.Handlers`); a reporter reports to the address of the scheduler it was
started for, and what it gets back goes through `putCluster`. Who is reachable is up to the
environment: any reporter may fail over at any time, a scheduler may crash, and it may start again
from `Cluster::new`.

Two fields say what has happened, for specifications: the cluster in the last reply of a reporter
(`Seat.seen`), and the address with which an id has joined last (`Net.joined`). -/

namespace Laqista

open Laqista.Proto Laqista.Lib Laqista.Lib.Runs Laqista.Lib.Tasks

/-- A scheduler with its tasks. -/
abbrev SchedulerState := Atomic SchedulerRuntime Task

/-- A reporter, with the cluster in the last reply it has got. -/
structure Seat where
  reporter : MetricsReporter
  seen : Option Cluster

/-- A command on its way from a reporter to the main loop of its server, with the cluster in the
last reply that the reporter had got. -/
structure Sent where
  server : ServerInfo
  seen : Option Cluster
  command : StateCommand

structure Net where
  schedulers : String → Option SchedulerState
  seats : List Seat
  inbox : List Sent
  /-- The address in the last join of an id; a new cluster has its scheduler joined. -/
  joined : Uuid → Option String

inductive NetAct where
  /-- A step of the tasks of the scheduler at an address. -/
  | serve (addr : String) (act : Act Call Told)
  /-- The main loop of a server starts a reporter. -/
  | startReporter (server scheduler : ServerInfo)
  /-- A report that is answered, with the instances of the reply in the order `it`. -/
  | report (seat : ℕ) (metrics : MonitorWindow) (it : List AppInstancesInfo)
  /-- A reporter takes the branch for a scheduler that cannot be reached. -/
  | failover (seat : ℕ)
  /-- The main loop of a server receives a command. -/
  | receive (k : ℕ)
  /-- A server starts as the scheduler of a cluster of its own. -/
  | boot (server : ServerInfo)
  | crash (addr : String)

/-- The server that a step of the tasks makes a member: the one of a `join` in `push_server`. -/
def pushed (sys : SchedulerState) : Act Call Told → Option ServerInfo
  | .enter i _ =>
    match sys.tasks[i]? with
    | some (.pushServer server) => some server
    | _ => none
  | _ => none

namespace Net

def empty : Net := ⟨fun _ => none, [], [], fun _ => none⟩

/-- The id joins with the address. -/
def join (s : Net) (server : ServerInfo) : Net :=
  { s with joined := Function.update s.joined server.id (some server.addr) }

def setScheduler (s : Net) (addr : String) (sys : Option SchedulerState) : Net :=
  { s with schedulers := Function.update s.schedulers addr sys }

/-- The scheduler at the address goes on as `sys`; a server may have joined it. -/
def served (s : Net) (addr : String) (sys : SchedulerState) : Option ServerInfo → Net
  | some server => (s.setScheduler addr (some sys)).join server
  | none => s.setScheduler addr (some sys)

/-- The server at the address ends, with its reporters and the commands it has not received. -/
def stop (s : Net) (addr : String) : Net :=
  { s.setScheduler addr none with
    seats := s.seats.filter fun seat => seat.reporter.server.addr ≠ addr
    inbox := s.inbox.filter fun x => x.server.addr ≠ addr }

@[simp] theorem join_schedulers (s : Net) (server : ServerInfo) :
    (s.join server).schedulers = s.schedulers := rfl

theorem join_joined (s : Net) (server : ServerInfo) (id : Uuid) :
    (s.join server).joined id = if id = server.id then some server.addr else s.joined id :=
  Function.update_apply _ _ _ _

@[simp] theorem join_seats (s : Net) (server : ServerInfo) : (s.join server).seats = s.seats := rfl

@[simp] theorem join_inbox (s : Net) (server : ServerInfo) : (s.join server).inbox = s.inbox := rfl

@[simp] theorem setScheduler_seats (s : Net) (addr : String) (sys : Option SchedulerState) :
    (s.setScheduler addr sys).seats = s.seats := rfl

@[simp] theorem setScheduler_inbox (s : Net) (addr : String) (sys : Option SchedulerState) :
    (s.setScheduler addr sys).inbox = s.inbox := rfl

@[simp] theorem setScheduler_joined (s : Net) (addr : String) (sys : Option SchedulerState) :
    (s.setScheduler addr sys).joined = s.joined := rfl

@[simp] theorem served_schedulers (s : Net) (addr : String) (sys : SchedulerState)
    (o : Option ServerInfo) :
    (s.served addr sys o).schedulers = (s.setScheduler addr (some sys)).schedulers := by
  rcases o with _ | server
  · rfl
  · rfl

@[simp] theorem served_seats (s : Net) (addr : String) (sys : SchedulerState)
    (o : Option ServerInfo) : (s.served addr sys o).seats = s.seats := by
  rcases o with _ | server
  · rfl
  · rfl

@[simp] theorem served_inbox (s : Net) (addr : String) (sys : SchedulerState)
    (o : Option ServerInfo) : (s.served addr sys o).inbox = s.inbox := by
  rcases o with _ | server
  · rfl
  · rfl

theorem setScheduler_schedulers (s : Net) (addr other : String) (sys : Option SchedulerState) :
    (s.setScheduler addr sys).schedulers other = if other = addr then sys else s.schedulers other :=
  Function.update_apply _ _ _ _

/-- A scheduler that is there after a server has stopped was there before. -/
theorem live_stop {s : Net} {addr other : String} {sys : SchedulerState}
    (h : (s.stop addr).schedulers other = some sys) :
    other ≠ addr ∧ s.schedulers other = some sys := by
  have h' : (s.setScheduler addr none).schedulers other = some sys := h
  rw [setScheduler_schedulers] at h'
  split_ifs at h' with ho
  exact ⟨ho, h'⟩

variable [Crates]

/-- The task of a report, from its call to its reply. -/
def serveReport (sys : SchedulerState) (r : ReportRequest) : Option SchedulerState :=
  run schedulerTasks.astep sys [.start (.report r), .enter sys.tasks.length .nothing]

def step (s : Net) : NetAct → Option Net
  | .serve addr act =>
    match s.schedulers addr with
    | some sys =>
      (schedulerTasks.astep sys act).map fun sys' => s.served addr sys' (pushed sys act)
    | none => none
  | .startReporter server scheduler =>
    some { s with seats := s.seats ++ [⟨.new server scheduler, none⟩] }
  | .report i metrics it =>
    match s.seats[i]? with
    | some seat =>
      match s.schedulers seat.reporter.scheduler.addr with
      | some sys =>
        match serveReport sys (seat.reporter.reportRequest metrics) with
        | some sys' =>
          if sys'.shared.cluster.instances.Iter it then
            some { s.setScheduler seat.reporter.scheduler.addr (some sys') with
              seats := s.seats.set i
                ⟨(seat.reporter.report (.ok (reportResponse sys'.shared it)) true).reporter,
                  some sys'.shared.cluster⟩ }
          else none
        | none => none
      | none => none
    | none => none
  | .failover i =>
    match s.seats[i]? with
    | some seat =>
      match seat.reporter.failover with
      | .ok (.ok command) =>
        some { s with inbox := s.inbox ++ [⟨seat.reporter.server, seat.seen, command⟩] }
      -- an error ends the reporter as a panic does
      | _ => some { s with seats := s.seats.eraseIdx i }
    | none => none
  | .receive k =>
    match s.inbox[k]? with
    | some x =>
      match x.command with
      | .becomeScheduler cluster =>
        some { s.setScheduler x.server.addr (some ⟨.new cluster, []⟩) with
          inbox := s.inbox.eraseIdx k }
      -- `run_start` drops a scheduler of its own now, which here may go on
      | _ => some { s with inbox := s.inbox.eraseIdx k }
    | none => none
  | .boot server =>
    some (((s.stop server.addr).setScheduler server.addr
      (some ⟨.fromServer server, []⟩)).join server)
  | .crash addr => some (s.stop addr)

end Net

/-! ### What a step can do -/

variable [Crates]

/-- **The scheduler in a report** stores the window of the reporter's server. -/
theorem serveReport_into (sys : SchedulerState) (rep : MetricsReporter) (metrics : MonitorWindow) :
    Net.serveReport sys (rep.reportRequest metrics) =
      some ⟨sys.shared.insertStats ⟨rep.server, [metrics]⟩, sys.tasks ++ [.done]⟩ := by
  have hstart : schedulerTasks.astep sys (.start (.report (rep.reportRequest metrics))) =
      some ⟨sys.shared, sys.tasks ++ [.insertStats ⟨rep.server, [metrics]⟩]⟩ := by
    simp [TaskSystem.astep, schedulerTasks, startCall, MetricsReporter.reportRequest,
      reportStats_into]
  unfold Net.serveReport
  rw [run_cons, hstart]
  simp [TaskSystem.astep, schedulerTasks, Task.enters, sectionBody, leave]

namespace Net

/-- **What a step can do.** -/
theorem step_cases {s s' : Net} {a : NetAct} (h : s.step a = some s') :
    (∃ addr act sys sys', a = .serve addr act ∧ s.schedulers addr = some sys ∧
      schedulerTasks.astep sys act = some sys' ∧
      s' = s.served addr sys' (pushed sys act)) ∨
    (∃ server scheduler, a = .startReporter server scheduler ∧
      s' = { s with seats := s.seats ++ [⟨.new server scheduler, none⟩] }) ∨
    (∃ i metrics it seat sys rt, a = .report i metrics it ∧ s.seats[i]? = some seat ∧
      s.schedulers seat.reporter.scheduler.addr = some sys ∧
      rt = sys.shared.insertStats ⟨seat.reporter.server, [metrics]⟩ ∧
      rt.cluster.instances.Iter it ∧
      s' = { s.setScheduler seat.reporter.scheduler.addr (some ⟨rt, sys.tasks ++ [.done]⟩) with
        seats := s.seats.set i ⟨(seat.reporter.putCluster (some (rt.cluster.into it))).2,
          some rt.cluster⟩ }) ∨
    (∃ i seat, a = .failover i ∧ s.seats[i]? = some seat ∧
      ((∃ command, seat.reporter.failover = .ok (.ok command) ∧
        s' = { s with inbox := s.inbox ++ [⟨seat.reporter.server, seat.seen, command⟩] }) ∨
      s' = { s with seats := s.seats.eraseIdx i })) ∨
    (∃ k x, a = .receive k ∧ s.inbox[k]? = some x ∧
      ((∃ cluster, x.command = .becomeScheduler cluster ∧
        s' = { s.setScheduler x.server.addr (some ⟨.new cluster, []⟩) with
          inbox := s.inbox.eraseIdx k }) ∨
      ((∀ cluster, x.command ≠ .becomeScheduler cluster) ∧
        s' = { s with inbox := s.inbox.eraseIdx k }))) ∨
    (∃ server, a = .boot server ∧ s' =
      ((s.stop server.addr).setScheduler server.addr
        (some ⟨.fromServer server, []⟩)).join server) ∨
    (∃ addr, a = .crash addr ∧ s' = s.stop addr) := by
  rcases a with ⟨addr, act⟩ | ⟨server, scheduler⟩ | ⟨i, metrics, it⟩ | i | k | server | addr
  · left
    simp only [step] at h
    split at h
    · next sys hsys =>
      obtain ⟨sys', hstep, hs'⟩ := Option.map_eq_some_iff.mp h
      exact ⟨addr, act, sys, sys', rfl, hsys, hstep, hs'.symm⟩
    · simp at h
  · right; left
    obtain rfl := Option.some.inj h
    exact ⟨server, scheduler, rfl, rfl⟩
  · right; right; left
    simp only [step] at h
    split at h
    · next seat hseat =>
      split at h
      · next sys hsys =>
        rw [serveReport_into] at h
        dsimp only at h
        split_ifs at h with hit
        obtain rfl := Option.some.inj h
        exact ⟨i, metrics, it, seat, sys, _, rfl, hseat, hsys, rfl, hit, rfl⟩
      · simp at h
    · simp at h
  · right; right; right; left
    simp only [step] at h
    split at h
    · next seat hseat =>
      split at h
      · next command hc =>
        obtain rfl := Option.some.inj h
        exact ⟨i, seat, rfl, hseat, Or.inl ⟨command, hc, rfl⟩⟩
      · obtain rfl := Option.some.inj h
        exact ⟨i, seat, rfl, hseat, Or.inr rfl⟩
    · simp at h
  · right; right; right; right; left
    simp only [step] at h
    split at h
    · next x hx =>
      split at h
      · next cluster hc =>
        obtain rfl := Option.some.inj h
        exact ⟨k, x, rfl, hx, Or.inl ⟨cluster, hc, rfl⟩⟩
      · next hc =>
        obtain rfl := Option.some.inj h
        exact ⟨k, x, rfl, hx, Or.inr ⟨hc, rfl⟩⟩
    · simp at h
  · right; right; right; right; right; left
    obtain rfl := Option.some.inj h
    exact ⟨server, rfl, rfl⟩
  · right; right; right; right; right; right
    obtain rfl := Option.some.inj h
    exact ⟨addr, rfl, rfl⟩

/-- **Where a scheduler comes from**: it has run its tasks, has been handed a cluster, or has
started with a cluster of its own. -/
theorem live_cases {s s' : Net} {a : NetAct} (h : s.step a = some s') {addr : String}
    {sys' : SchedulerState} (hl : s'.schedulers addr = some sys') :
    (∃ sys bs, s.schedulers addr = some sys ∧ run schedulerTasks.astep sys bs = some sys') ∨
    (∃ k x cluster, a = .receive k ∧ s.inbox[k]? = some x ∧ x.command = .becomeScheduler cluster ∧
      addr = x.server.addr ∧ sys' = ⟨.new cluster, []⟩) ∨
    (∃ server, a = .boot server ∧ addr = server.addr ∧ sys' = ⟨.fromServer server, []⟩) := by
  have hstay : s.schedulers addr = some sys' →
      ∃ sys bs, s.schedulers addr = some sys ∧ run schedulerTasks.astep sys bs = some sys' :=
    fun hs => ⟨sys', [], hs, rfl⟩
  have hset : ∀ {at' : String} {sys : SchedulerState},
      (s.setScheduler at' (some sys)).schedulers addr = some sys' →
      addr = at' ∧ sys' = sys ∨ s.schedulers addr = some sys' := by
    intro at' sys h
    rw [setScheduler_schedulers] at h
    split_ifs at h with ha
    · exact Or.inl ⟨ha, (Option.some.inj h).symm⟩
    · exact Or.inr h
  rcases step_cases h with ⟨at', act, sys, sys₁, rfl, hsys, hstep, rfl⟩ |
    ⟨server, scheduler, rfl, rfl⟩ |
    ⟨i, metrics, it, seat, sys, rt, rfl, hseat, hsys, rfl, -, rfl⟩ |
    ⟨i, seat, rfl, -, ⟨command, -, rfl⟩ | rfl⟩ |
    ⟨k, x, rfl, hx, ⟨cluster, hc, rfl⟩ | ⟨-, rfl⟩⟩ | ⟨server, rfl, rfl⟩ | ⟨at', rfl, rfl⟩
  · rw [served_schedulers] at hl
    rcases hset hl with ⟨rfl, rfl⟩ | hold
    · exact Or.inl ⟨sys, [act], hsys, by rw [run_cons, hstep]; rfl⟩
    · exact Or.inl (hstay hold)
  · exact Or.inl (hstay hl)
  · rcases hset hl with ⟨rfl, rfl⟩ | hold
    · exact Or.inl ⟨sys, [.start (.report (seat.reporter.reportRequest metrics)),
        .enter sys.tasks.length .nothing], hsys, serveReport_into sys seat.reporter metrics⟩
    · exact Or.inl (hstay hold)
  · exact Or.inl (hstay hl)
  · exact Or.inl (hstay hl)
  · rcases hset hl with ⟨rfl, rfl⟩ | hold
    · exact Or.inr (Or.inl ⟨k, x, cluster, rfl, hx, hc, rfl, rfl⟩)
    · exact Or.inl (hstay hold)
  · exact Or.inl (hstay hl)
  · rw [join_schedulers, setScheduler_schedulers] at hl
    split_ifs at hl with ha
    · exact Or.inr (Or.inr ⟨server, rfl, ha, (Option.some.inj hl).symm⟩)
    · exact Or.inl (hstay (live_stop hl).2)
  · exact Or.inl (hstay (live_stop hl).2)

/-- **Where a reporter comes from**: it was there, has just been started, or has got a reply. -/
theorem seat_cases {s s' : Net} {a : NetAct} (h : s.step a = some s') {seat : Seat}
    (hseat : seat ∈ s'.seats) :
    seat ∈ s.seats ∨ (∃ server scheduler, seat = ⟨.new server scheduler, none⟩) ∨
      ∃ old ∈ s.seats, ∃ sys metrics it rt,
        s.schedulers old.reporter.scheduler.addr = some sys ∧
          rt = sys.shared.insertStats ⟨old.reporter.server, [metrics]⟩ ∧
          rt.cluster.instances.Iter it ∧
          seat = ⟨(old.reporter.putCluster (some (rt.cluster.into it))).2, some rt.cluster⟩ := by
  rcases step_cases h with ⟨addr, act, sys, sys', rfl, -, -, rfl⟩ | ⟨server, scheduler, rfl, rfl⟩ |
    ⟨i, metrics, it, old, sys, rt, rfl, hold, hsys, hrt, hit, rfl⟩ |
    ⟨i, old, rfl, -, ⟨command, -, rfl⟩ | rfl⟩ |
    ⟨k, x, rfl, -, ⟨cluster, -, rfl⟩ | ⟨-, rfl⟩⟩ | ⟨server, rfl, rfl⟩ | ⟨addr, rfl, rfl⟩
  · rw [served_seats] at hseat
    exact Or.inl hseat
  · rcases List.mem_append.mp hseat with hseat | hseat
    · exact Or.inl hseat
    · exact Or.inr (Or.inl ⟨server, scheduler, List.mem_singleton.mp hseat⟩)
  · rcases List.mem_or_eq_of_mem_set hseat with hseat | hseat
    · exact Or.inl hseat
    · exact Or.inr (Or.inr ⟨old, List.mem_of_getElem? hold, sys, metrics, it, rt, hsys, hrt, hit,
        hseat⟩)
  · exact Or.inl hseat
  · exact Or.inl (List.mem_of_mem_eraseIdx hseat)
  · exact Or.inl hseat
  · exact Or.inl hseat
  · exact Or.inl (List.mem_of_mem_filter hseat)
  · exact Or.inl (List.mem_of_mem_filter hseat)

/-- **Where a command comes from**: it was on its way, or a failover has just sent it. -/
theorem sent_cases {s s' : Net} {a : NetAct} (h : s.step a = some s') {x : Sent}
    (hx : x ∈ s'.inbox) :
    x ∈ s.inbox ∨ ∃ seat ∈ s.seats, ∃ command, seat.reporter.failover = .ok (.ok command) ∧
      x = ⟨seat.reporter.server, seat.seen, command⟩ := by
  rcases step_cases h with ⟨addr, act, sys, sys', rfl, -, -, rfl⟩ | ⟨server, scheduler, rfl, rfl⟩ |
    ⟨i, metrics, it, old, sys, rt, rfl, -, -, -, -, rfl⟩ |
    ⟨i, old, rfl, hold, ⟨command, hc, rfl⟩ | rfl⟩ |
    ⟨k, y, rfl, -, ⟨cluster, -, rfl⟩ | ⟨-, rfl⟩⟩ | ⟨server, rfl, rfl⟩ | ⟨addr, rfl, rfl⟩
  · rw [served_inbox] at hx
    exact Or.inl hx
  · exact Or.inl hx
  · exact Or.inl hx
  · rcases List.mem_append.mp hx with hx | hx
    · exact Or.inl hx
    · exact Or.inr ⟨old, List.mem_of_getElem? hold, command, hc, List.mem_singleton.mp hx⟩
  · exact Or.inl hx
  · exact Or.inl (List.mem_of_mem_eraseIdx hx)
  · exact Or.inl (List.mem_of_mem_eraseIdx hx)
  · exact Or.inl (List.mem_of_mem_filter hx)
  · exact Or.inl (List.mem_of_mem_filter hx)

end Net

/-! ### The servers of the examples -/

def schedulerServer : ServerInfo := ⟨1, "http://10.0.0.1:50051"⟩

def memberServer : ServerInfo := ⟨2, "http://10.0.0.2:50051"⟩

def thirdServer : ServerInfo := ⟨3, "http://10.0.0.3:50051"⟩

def idleWindow : MonitorWindow := ⟨none, none⟩

/-- The server joins the first scheduler, as its task number `i`. -/
def joins (server : ServerInfo) (i : ℕ) : List NetAct :=
  [.serve schedulerServer.addr (.start (.join ⟨some server.into⟩)),
    .serve schedulerServer.addr (.enter i .nothing), .startReporter server schedulerServer]

end Laqista
