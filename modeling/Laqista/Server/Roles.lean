import Laqista.Report
import Laqista.Server.Reload

/-! # The role of a server

Two parts of a server send commands to its main loop: a spawn that has added an application sends
`Keep`, and a reporter that fails over sends what makes the server the scheduler or lets it join the
next one. But no reporter fails over (`report_sent`), so the role that the command line has chosen
stays for ever (`role_kept`): a server that has joined a group runs in that group, whatever becomes
of its scheduler, and its reporters report to this scheduler only. Each of them ends with the first
report that is lost, and no other one is started before the round of the main loop has ended. What
`get_info` answers is therefore true of the whole run (`getInfo_names_group`). -/

namespace Laqista

open Laqista.Proto Laqista.Lib Laqista.Lib.Runs Laqista.Lib.Tasks

/-- A reporter, and whether its `start` has returned or panicked. -/
structure ReporterTask where
  rep : MetricsReporter
  ended : Bool
  deriving DecidableEq

/-- A server with the reporters that it has started, in the order of `ServerRunner.reporters`. -/
structure ReportingServer where
  live : LiveServer
  info : ServerInfo
  reporters : List ReporterTask

inductive ServerStep where
  | live (x : LiveStep)
  /-- A reporter reports a window, and the call ends like this. -/
  | report (i : ℕ) (call : Except Loss ReportResponse)
  /-- A reporter sees that its token is cancelled. -/
  | cancelled (i : ℕ)

/-- Sends of commands one after the other, each of which waits where there is no room. -/
def sendAll (c : Channel StateCommand 1) (commands : List StateCommand) :
    Option (Channel StateCommand 1) :=
  commands.foldlM (fun c command =>
    match c.send command with
    | some (.ok c) => some c
    | _ => none) c

namespace ServerStep

/-- The group that the server joins. -/
def group : ServerStep → Option GroupInfo
  | live (.joined group) => some group
  | _ => none

/-- The report is lost. -/
def lost : ServerStep → Bool
  | report _ (.error _) => true
  | _ => false

/-- The round of the main loop ends, and another one starts. -/
def endsRound : ServerStep → Bool
  | live (.joined _) | live .served | live .receive => true
  | _ => false

end ServerStep

namespace ReportingServer

/-- `run_start`, with the database that was read. -/
def start (bootstrapAddr : Option String) (info : ServerInfo) (inner : Inner) :
    ReportingServer where
  live :=
    { runner := .start (determineState bootstrapAddr info)
      services := .idle
      channel := .new
      database := ⟨inner, []⟩ }
  info := info
  reporters := []

variable [Crates] (root : Path)

def step (s : ReportingServer) : ServerStep → Option ReportingServer
  -- there are no other senders than the spawns and the reporters
  | .live (.send _) => none
  | .live x =>
    (s.live.step root x).map fun live =>
      { s with
        live := live
        reporters := s.reporters ++ (live.runner.reporters.drop s.reporters.length).map
          fun r => ⟨.new s.info r.scheduler, false⟩ }
  | .report i call =>
    match s.reporters[i]? with
    | some ⟨rep, false⟩ =>
      let receives := !s.live.channel.closed
      match sendAll s.live.channel (rep.report call receives).sent with
      | none => none
      | some channel =>
        match rep.startTurn call receives with
        | .ok rep => some
            { s with
              live := { s.live with channel := channel }
              reporters := s.reporters.set i ⟨rep, false⟩ }
        | .error _ => some
            { s with
              live := { s.live with channel := channel }
              reporters := s.reporters.set i ⟨rep, true⟩ }
    | _ => none
  | .cancelled i =>
    match s.reporters[i]?, s.live.runner.reporters[i]? with
    | some ⟨rep, false⟩, some ⟨_, true⟩ =>
      some { s with reporters := s.reporters.set i ⟨rep, true⟩ }
    | _, _ => none

end ReportingServer

/-- The role of a server with this command line that has joined these groups. -/
def InRole (bootstrapAddr : Option String) (info : ServerInfo) (groups : List GroupInfo)
    (state : DaemonState) : Prop :=
  match bootstrapAddr with
  | none => state = .authoritative (.fromServer info) ∧ groups = []
  | some addr => state = .joining addr ∧ groups = [] ∨
      ∃ group, state = .running group ∧ groups = [group]

/-- `Into<ServerState>`. -/
def DaemonState.into : DaemonState → ServerState
  | running _ => .running
  | joining _ => .starting
  | authoritative _ => .authoritative
  | failed => .failed

/-- `get_info` of the daemon that is created for a round. -/
def getInfo [Crates] (info : ServerInfo) (state : DaemonState) : GetInfoResponse :=
  let group := match state with
    | .failed | .joining _ => none
    | .running group => some group.into
    | .authoritative scheduler => some scheduler.cluster.group.into
  ⟨some info.into, group, state.into.into⟩

/-! ### What the main loop does -/

namespace ServerRunner

variable {s s' : ServerRunner}

theorem step_startReporter (h : s.step .startReporter = some s') :
    ∃ scheduler, s.phase = .starting ∧ s.state.scheduler = some scheduler ∧ s' =
      { s with
        phase := .serving s.reporters.length
        reporters := s.reporters ++ [⟨scheduler, false⟩] } := by
  simp only [step] at h
  split at h
  · next scheduler hphase hscheduler =>
    cases h
    exact ⟨scheduler, hphase, hscheduler, rfl⟩
  · cases h

theorem step_joined {group : GroupInfo} (h : s.step (.joined group) = some s') :
    ∃ addr, s.state = .joining addr ∧ s' = s.next (.update (.running group)) := by
  simp only [step] at h
  split at h
  · next addr _ hstate =>
    cases h
    exact ⟨addr, hstate, rfl⟩
  · cases h

/-- A round that has served leaves the role and the schedulers of the reporters. -/
theorem step_served (h : s.step .served = some s') : s'.state = s.state ∧
    s'.reporters.map (·.scheduler) = s.reporters.map (·.scheduler) := by
  simp only [step] at h
  split at h
  · next i _ =>
    cases h
    refine ⟨rfl, List.ext_getElem? fun k => ?_⟩
    show ((s.reporters.modify i Spawned.cancel).map _)[k]? = _
    rw [List.getElem?_map, List.getElem?_map, List.getElem?_modify]
    rcases s.reporters[k]? with _ | r
    · rfl
    · show some (ite _ _ _ : Spawned).scheduler = some r.scheduler
      split_ifs
      · rfl
      · rfl
  · cases h

theorem step_failed (h : s.step .failed = some s') : s' = { s with phase := .ended } := by
  simp only [step] at h
  split_ifs at h
  cases h
  rfl

theorem step_received {command : StateCommand} (h : s.step (.received (some command)) = some s') :
    s' = s.next command := by
  simp only [step] at h
  split_ifs at h
  cases h
  rfl

end ServerRunner

namespace LiveServer

variable [Crates] {root : Path} {s s' : LiveServer} {x : LiveStep}

/-- **What a step of the server is for the main loop**, if nobody else sends commands: nothing,
besides a `Keep` in the channel, or the step of the same name. -/
theorem runner_step (h : s.step root x = some s') (hx : ∀ command, x ≠ .send command) :
    (s'.runner = s.runner ∧ (ServerStep.live x).endsRound = false ∧
      ∀ c ∈ s'.channel.buffer, c ∈ s.channel.buffer ∨ c = .keep) ∨
    (∃ a, s.runner.step a = some s'.runner ∧ s'.channel = s.channel ∧
      ((x = .startReporter ∧ a = .startReporter) ∨
        (∃ group, x = .joined group ∧ a = .joined group) ∨ (x = .served ∧ a = .served) ∨
        ((ServerStep.live x).endsRound = false ∧ a = .failed))) ∨
    ∃ command, x = .receive ∧ s.channel.buffer = command :: s'.channel.buffer ∧
      s.runner.step (.received (some command)) = some s'.runner := by
  have hfail : s.fail = some s' → s.runner.step .failed = some s'.runner ∧
      s'.channel = s.channel := by
    intro hf
    obtain ⟨runner, hr, rfl⟩ := Option.map_eq_some_iff.mp hf
    exact ⟨hr, rfl⟩
  cases x with
  | startReporter =>
    obtain ⟨runner, hr, rfl⟩ := Option.map_eq_some_iff.mp h
    exact .inr (.inl ⟨_, hr, rfl, .inl ⟨rfl, rfl⟩⟩)
  | lookup it =>
    simp only [step] at h
    split at h
    · split_ifs at h
      split at h
      all_goals
        cases h
        exact .inl ⟨rfl, rfl, fun c hc => .inl hc⟩
    · cases h
  | get =>
    simp only [step] at h
    split at h
    · split at h
      · cases h
        exact .inl ⟨rfl, rfl, fun c hc => .inl hc⟩
      · obtain ⟨hr, hc⟩ := hfail h
        exact .inr (.inl ⟨_, hr, hc, .inr (.inr (.inr ⟨rfl, rfl⟩))⟩)
    · split at h
      · cases h
        exact .inl ⟨rfl, rfl, fun c hc => .inl hc⟩
      · obtain ⟨hr, hc⟩ := hfail h
        exact .inr (.inl ⟨_, hr, hc, .inr (.inr (.inr ⟨rfl, rfl⟩))⟩)
    · cases h
  | joined group =>
    obtain ⟨runner, hr, rfl⟩ := Option.map_eq_some_iff.mp h
    exact .inr (.inl ⟨_, hr, rfl, .inr (.inl ⟨group, rfl, rfl⟩)⟩)
  | served =>
    simp only [step] at h
    split at h
    · obtain ⟨runner, hr, rfl⟩ := Option.map_eq_some_iff.mp h
      exact .inr (.inl ⟨_, hr, rfl, .inr (.inr (.inl ⟨rfl, rfl⟩))⟩)
    · cases h
  | failed =>
    obtain ⟨hr, hc⟩ := hfail h
    exact .inr (.inl ⟨_, hr, hc, .inr (.inr (.inr ⟨rfl, rfl⟩))⟩)
  | receive =>
    simp only [step] at h
    split at h
    · next command channel hrecv =>
      obtain ⟨runner, hr, rfl⟩ := Option.map_eq_some_iff.mp h
      exact .inr (.inr ⟨command, rfl, (Channel.recv_some hrecv).1, hr⟩)
    · cases h
  | sendKeep i =>
    simp only [step] at h
    split at h
    · next channel hsend =>
      obtain ⟨database, -, rfl⟩ := Option.map_eq_some_iff.mp h
      refine .inl ⟨rfl, rfl, fun c hc => ?_⟩
      rw [(Channel.send_ok hsend).2.2] at hc
      rcases List.mem_append.mp hc with hc | hc
      · exact .inl hc
      · exact .inr (List.mem_singleton.mp hc)
    · obtain ⟨database, -, rfl⟩ := Option.map_eq_some_iff.mp h
      exact .inl ⟨rfl, rfl, fun c hc => .inl hc⟩
    · cases h
  | send command => exact absurd rfl (hx command)
  | database a =>
    simp only [step] at h
    split_ifs at h
    obtain ⟨database, -, rfl⟩ := Option.map_eq_some_iff.mp h
    exact .inl ⟨rfl, rfl, fun c hc => .inl hc⟩

/-- A service that has started a reporter has a scheduler. -/
def HasScheduler (s : LiveServer) : Prop :=
  s.services = .idle ∨ ∃ scheduler, s.runner.state.scheduler = some scheduler

theorem hasScheduler_step (hs : s.HasScheduler) (h : s.step root x = some s') :
    s'.HasScheduler := by
  have hfail : s.fail = some s' → s'.HasScheduler := by
    intro hf
    obtain ⟨runner, -, rfl⟩ := Option.map_eq_some_iff.mp hf
    exact .inl rfl
  have hstay : s.services ≠ .idle → s'.runner = s.runner → s'.HasScheduler := by
    intro hne hrunner
    unfold HasScheduler
    rw [hrunner]
    exact .inr (hs.resolve_left hne)
  cases x with
  | startReporter =>
    obtain ⟨runner, hr, rfl⟩ := Option.map_eq_some_iff.mp h
    obtain ⟨scheduler, -, hscheduler, rfl⟩ := ServerRunner.step_startReporter hr
    exact .inr ⟨scheduler, hscheduler⟩
  | lookup it =>
    simp only [step] at h
    split at h
    · next hl =>
      split_ifs at h
      split at h
      all_goals
        cases h
        exact hstay (fun hidle => (by rw [hl] at hidle; cases hidle)) rfl
    · cases h
  | get =>
    simp only [step] at h
    split at h
    · next hl =>
      split at h
      · cases h
        exact hstay (fun hidle => (by rw [hl] at hidle; cases hidle)) rfl
      · exact hfail h
    · next hl =>
      split at h
      · cases h
        exact hstay (fun hidle => (by rw [hl] at hidle; cases hidle)) rfl
      · exact hfail h
    · cases h
  | joined group =>
    obtain ⟨runner, -, rfl⟩ := Option.map_eq_some_iff.mp h
    exact .inl rfl
  | served =>
    simp only [step] at h
    split at h
    · obtain ⟨runner, -, rfl⟩ := Option.map_eq_some_iff.mp h
      exact .inl rfl
    · cases h
  | failed => exact hfail h
  | receive =>
    simp only [step] at h
    split at h
    · obtain ⟨runner, -, rfl⟩ := Option.map_eq_some_iff.mp h
      exact .inl rfl
    · cases h
  | sendKeep i =>
    simp only [step] at h
    split at h
    · obtain ⟨database, -, rfl⟩ := Option.map_eq_some_iff.mp h
      exact hs
    · obtain ⟨database, -, rfl⟩ := Option.map_eq_some_iff.mp h
      exact hs
    · cases h
  | send command =>
    simp only [step] at h
    split at h
    · cases h
      exact hs
    · cases h
  | database a =>
    simp only [step] at h
    split_ifs at h
    obtain ⟨database, -, rfl⟩ := Option.map_eq_some_iff.mp h
    exact hs

end LiveServer

/-! ### What is kept -/

namespace ReportingServer

/-- How many reports can still be lost in this round. -/
def attempts (s : ReportingServer) : ℕ :=
  s.reporters.countP (fun r => !r.ended) + if s.live.runner.phase = .starting then 1 else 0

/-- **What is kept**, after the given steps. -/
structure Kept (bootstrapAddr : Option String) (info : ServerInfo) (past : List ServerStep)
    (s : ReportingServer) : Prop where
  role : InRole bootstrapAddr info (past.filterMap ServerStep.group) s.live.runner.state
  commands : ∀ c ∈ s.live.channel.buffer, c = .keep
  targets : ∀ r ∈ s.live.runner.reporters, s.live.runner.state.scheduler = some r.scheduler
  spawned : s.reporters.map (·.rep.scheduler) = s.live.runner.reporters.map (·.scheduler)
  own : s.info = info ∧ ∀ r ∈ s.reporters, r.rep.server = info
  losses : past.countP ServerStep.lost + s.attempts ≤ past.countP ServerStep.endsRound + 1

variable {bootstrapAddr : Option String} {info : ServerInfo} {past : List ServerStep}
  {s s' : ReportingServer}

theorem attempts_le (hcount : s'.reporters.countP (fun r => !r.ended) ≤
      s.reporters.countP fun r => !r.ended)
    (hphase : s'.live.runner.phase = .starting → s.live.runner.phase = .starting) :
    s'.attempts ≤ s.attempts := by
  unfold attempts
  by_cases h' : s'.live.runner.phase = .starting
  · rw [if_pos h', if_pos (hphase h')]
    omega
  · rw [if_neg h']
    omega

theorem attempts_le_succ (hcount : s'.reporters.countP (fun r => !r.ended) ≤
    s.reporters.countP fun r => !r.ended) : s'.attempts ≤ s.attempts + 1 := by
  unfold attempts
  split_ifs
  all_goals omega

theorem Kept.length_eq (hs : Kept bootstrapAddr info past s) :
    s.reporters.length = s.live.runner.reporters.length := by
  have hlen := congrArg List.length hs.spawned
  rwa [List.length_map, List.length_map] at hlen

/-- All reporters report to the scheduler of the role. -/
theorem Kept.reports (hs : Kept bootstrapAddr info past s) :
    ∀ r ∈ s.reporters, s.live.runner.state.scheduler = some r.rep.scheduler := by
  intro r hr
  have hmem : r.rep.scheduler ∈ s.live.runner.reporters.map (·.scheduler) := by
    rw [← hs.spawned]
    exact List.mem_map_of_mem hr
  obtain ⟨spawned, hspawned, hscheduler⟩ := List.mem_map.mp hmem
  rw [hs.targets spawned hspawned, hscheduler]

theorem kept_start (inner : Inner) :
    Kept bootstrapAddr info [] (start bootstrapAddr info inner) := by
  refine ⟨?_, nofun, nofun, rfl, ⟨rfl, nofun⟩, by simp [attempts, start, ServerRunner.start]⟩
  rcases bootstrapAddr with _ | addr
  · exact ⟨rfl, rfl⟩
  · exact .inl ⟨rfl, rfl⟩

theorem group_of_endsRound {a : ServerStep} (h : a.endsRound = false) : a.group = none := by
  unfold ServerStep.group
  split
  · cases h
  · rfl

/-- A step of the server that starts no reporter. -/
theorem kept_live {x : LiveStep} {live : LiveServer} (hs : Kept bootstrapAddr info past s)
    (hrole : InRole bootstrapAddr info
      (past.filterMap ServerStep.group ++ (ServerStep.live x).group.toList) live.runner.state)
    (hcommands : ∀ c ∈ live.channel.buffer, c = .keep)
    (hspawned : live.runner.reporters.map (·.scheduler) =
      s.live.runner.reporters.map (·.scheduler))
    (htargets : s.live.runner.reporters = [] ∨
      live.runner.state.scheduler = s.live.runner.state.scheduler)
    (hround : (ServerStep.live x).endsRound = true ∨
      (live.runner.phase = .starting → s.live.runner.phase = .starting)) :
    Kept bootstrapAddr info (past ++ [.live x]) { s with
      live := live
      reporters := s.reporters ++ (live.runner.reporters.drop s.reporters.length).map
        fun r => ⟨.new s.info r.scheduler, false⟩ } := by
  have hlen : live.runner.reporters.length = s.reporters.length := by
    have hlen := congrArg List.length hspawned
    rw [List.length_map, List.length_map] at hlen
    rw [hlen, hs.length_eq]
  have hdrop : live.runner.reporters.drop s.reporters.length = [] := by
    rw [← hlen, List.drop_length]
  rw [hdrop, List.map_nil, List.append_nil]
  refine ⟨?_, hcommands, fun r hr => ?_, hs.spawned.trans hspawned.symm, hs.own, ?_⟩
  · rw [List.filterMap_append]
    have hlast : [ServerStep.live x].filterMap ServerStep.group =
        (ServerStep.live x).group.toList := by
      rcases hg : (ServerStep.live x).group with _ | group
      · simp [hg]
      · simp [hg]
    rw [hlast]
    exact hrole
  · have hmem : r.scheduler ∈ s.live.runner.reporters.map (·.scheduler) := by
      rw [← hspawned]
      exact List.mem_map_of_mem hr
    obtain ⟨r', hr', hscheduler⟩ := List.mem_map.mp hmem
    rcases htargets with hnil | hsame
    · rw [hnil] at hr'
      cases hr'
    · show live.runner.state.scheduler = some r.scheduler
      rw [hsame, hs.targets r' hr', hscheduler]
  · have hlosses := hs.losses
    have hlost : (ServerStep.live x).lost = false := rfl
    rw [List.countP_append, List.countP_append, List.countP_singleton, List.countP_singleton, hlost,
      if_neg Bool.false_ne_true]
    rcases hround with hends | hphase
    · have hle : attempts { s with live := live } ≤ s.attempts + 1 := attempts_le_succ le_rfl
      rw [if_pos hends]
      omega
    · have hle : attempts { s with live := live } ≤ s.attempts := attempts_le le_rfl hphase
      omega

/-- The service starts a reporter. -/
theorem kept_startReporter {live : LiveServer} (hs : Kept bootstrapAddr info past s)
    (hchannel : live.channel = s.live.channel)
    (hrunner : s.live.runner.step .startReporter = some live.runner) :
    Kept bootstrapAddr info (past ++ [.live .startReporter]) { s with
      live := live
      reporters := s.reporters ++ (live.runner.reporters.drop s.reporters.length).map
        fun r => ⟨.new s.info r.scheduler, false⟩ } := by
  obtain ⟨scheduler, hphase, hscheduler, hr⟩ := ServerRunner.step_startReporter hrunner
  have hnew : live.runner.reporters = s.live.runner.reporters ++ [⟨scheduler, false⟩] := by
    rw [hr]
  have hdrop : live.runner.reporters.drop s.reporters.length = [⟨scheduler, false⟩] := by
    rw [hnew, hs.length_eq, List.drop_left]
  rw [hdrop, List.map_singleton]
  refine ⟨?_, ?_, ?_, ?_, ⟨hs.own.1, fun r hr => ?_⟩, ?_⟩
  · rw [List.filterMap_append]
    show InRole _ _ (past.filterMap ServerStep.group ++ []) live.runner.state
    rw [List.append_nil, hr]
    exact hs.role
  · rw [hchannel]
    exact hs.commands
  · rw [hnew, hr]
    intro r hmem
    rcases List.mem_append.mp hmem with hmem | hmem
    · exact hs.targets r hmem
    · rw [List.mem_singleton.mp hmem]
      exact hscheduler
  · rw [hnew, List.map_append, List.map_append, hs.spawned]
    rfl
  · rcases List.mem_append.mp hr with hr | hr
    · exact hs.own.2 r hr
    · rw [List.mem_singleton.mp hr]
      exact hs.own.1
  · -- the reporter is paid by the round, which has been starting
    have hlosses := hs.losses
    have hserving : live.runner.phase ≠ .starting := by
      rw [hr]
      exact nofun
    unfold attempts at hlosses ⊢
    rw [if_pos hphase] at hlosses
    rw [if_neg hserving, List.countP_append, List.countP_append, List.countP_append]
    show past.countP ServerStep.lost + 0 +
      (s.reporters.countP (fun r => !r.ended) + 1 + 0) ≤ past.countP ServerStep.endsRound + 0 + 1
    omega

/-- A reporter goes on or ends; it does so if its report was lost. -/
theorem kept_set {a : ServerStep} {i : ℕ} {rep rep' : MetricsReporter} {ended : Bool}
    (hs : Kept bootstrapAddr info past s) (hi : s.reporters[i]? = some ⟨rep, false⟩)
    (hrep : rep'.server = rep.server ∧ rep'.scheduler = rep.scheduler) (hgroup : a.group = none)
    (hlost : a.lost = true → ended = true) :
    Kept bootstrapAddr info (past ++ [a])
      { s with reporters := s.reporters.set i ⟨rep', ended⟩ } := by
  obtain ⟨hlt, hget⟩ := List.getElem?_eq_some_iff.mp hi
  refine ⟨?_, hs.commands, hs.targets, ?_, ⟨hs.own.1, fun r hr => ?_⟩, ?_⟩
  · have hlast : [a].filterMap ServerStep.group = [] := by simp [hgroup]
    rw [List.filterMap_append, hlast, List.append_nil]
    exact hs.role
  · have hlt' : i < (s.reporters.map (·.rep.scheduler)).length := by
      rw [List.length_map]
      exact hlt
    have hsame : (s.reporters.map (·.rep.scheduler))[i] = rep'.scheduler := by
      rw [List.getElem_map, hget, hrep.2]
    rw [← hs.spawned, List.map_set]
    show (s.reporters.map (·.rep.scheduler)).set i rep'.scheduler = _
    rw [← hsame, List.set_getElem_self]
  · rcases List.mem_or_eq_of_mem_set hr with hr | rfl
    · exact hs.own.2 r hr
    · exact hrep.1.trans (hs.own.2 _ (List.mem_of_getElem? hi))
  · have hlosses := hs.losses
    have hpos : 0 < s.reporters.countP fun r => !r.ended :=
      List.countP_pos_iff.mpr ⟨_, List.mem_of_getElem? hi, rfl⟩
    have hcount : (s.reporters.set i ⟨rep', ended⟩).countP (fun r => !r.ended) =
        s.reporters.countP (fun r => !r.ended) - 1 + if ended then 0 else 1 := by
      rw [List.countP_set hlt, hget]
      rcases ended with _ | _
      · rfl
      · rfl
    unfold attempts at hlosses ⊢
    rw [List.countP_append, List.countP_append, List.countP_singleton, List.countP_singleton]
    dsimp only
    rw [hcount]
    rcases hl : a.lost with _ | _
    · rw [if_neg Bool.false_ne_true]
      split_ifs at hlosses ⊢
      all_goals omega
    · rw [hlost hl, if_pos rfl, if_pos rfl]
      omega

/-- The server joins a group, which it can only do once. -/
theorem inRole_joined {addr : String} {groups : List GroupInfo} (group : GroupInfo)
    (h : InRole bootstrapAddr info groups (.joining addr)) :
    InRole bootstrapAddr info (groups ++ [group]) (.running group) := by
  rcases bootstrapAddr with _ | bootstrap
  · cases h.1
  · rcases h with ⟨-, rfl⟩ | ⟨other, h, -⟩
    · exact .inr ⟨group, rfl, rfl⟩
    · cases h

variable [Crates] {root : Path}

theorem step_live {x : LiveStep} (hx : ∀ command, x ≠ .send command) :
    s.step root (.live x) = (s.live.step root x).map fun live =>
      { s with
        live := live
        reporters := s.reporters ++ (live.runner.reporters.drop s.reporters.length).map
          fun r => ⟨.new s.info r.scheduler, false⟩ } := by
  cases x with
  | send command => exact absurd rfl (hx command)
  | _ => rfl

/-- **Every step keeps the role**, the commands, the targets and the number of losses. -/
theorem kept_step {a : ServerStep} (hs : Kept bootstrapAddr info past s)
    (h : s.step root a = some s') : Kept bootstrapAddr info (past ++ [a]) s' := by
  cases a with
  | live x =>
    by_cases hsend : ∃ command, x = .send command
    · obtain ⟨command, rfl⟩ := hsend
      cases h
    · have hx : ∀ command, x ≠ .send command := fun command hc => hsend ⟨command, hc⟩
      rw [step_live hx] at h
      obtain ⟨live, hlive, rfl⟩ := Option.map_eq_some_iff.mp h
      -- a step in which no group is joined and the state stays
      have hstay : (ServerStep.live x).group = none →
          live.runner.state = s.live.runner.state → InRole bootstrapAddr info
            (past.filterMap ServerStep.group ++ (ServerStep.live x).group.toList)
            live.runner.state := by
        intro hgroup hstate
        rw [hgroup, hstate, Option.toList_none, List.append_nil]
        exact hs.role
      rcases LiveServer.runner_step hlive hx with ⟨hrunner, hends, hbuffer⟩ |
        ⟨b, hrunner, hchannel, ⟨rfl, rfl⟩ | ⟨group, rfl, rfl⟩ | ⟨rfl, rfl⟩ | ⟨hends, rfl⟩⟩ |
        ⟨command, rfl, hbuffer, hrunner⟩
      · refine kept_live hs (hstay (group_of_endsRound hends) (by rw [hrunner])) (fun c hc => ?_)
          (by rw [hrunner]) (.inr (by rw [hrunner])) (.inr (by rw [hrunner]; exact id))
        rcases hbuffer c hc with hc | hc
        · exact hs.commands c hc
        · exact hc
      · exact kept_startReporter hs hchannel hrunner
      · obtain ⟨addr, hstate, hr⟩ := ServerRunner.step_joined hrunner
        have hrole := hs.role
        rw [hstate] at hrole
        -- nobody reports in a state without a scheduler
        have hnone : s.live.runner.reporters = [] := by
          rcases hl : s.live.runner.reporters with _ | ⟨r, rest⟩
          · rfl
          · have htarget := hs.targets r (by rw [hl]; exact List.mem_cons_self ..)
            rw [hstate] at htarget
            cases htarget
        refine kept_live hs ?_ (by rw [hchannel]; exact hs.commands) (by rw [hr]; rfl)
          (.inl hnone) (.inl rfl)
        rw [hr]
        exact inRole_joined group hrole
      · obtain ⟨hstate, hschedulers⟩ := ServerRunner.step_served hrunner
        exact kept_live hs (hstay rfl hstate) (by rw [hchannel]; exact hs.commands) hschedulers
          (.inr (by rw [hstate])) (.inl rfl)
      · have hr := ServerRunner.step_failed hrunner
        exact kept_live hs (hstay (group_of_endsRound hends) (by rw [hr]))
          (by rw [hchannel]; exact hs.commands) (by rw [hr]) (.inr (by rw [hr]))
          (.inr (by rw [hr]; exact nofun))
      · -- the only command that can be there is `Keep`
        obtain rfl : command = .keep :=
          hs.commands command (by rw [hbuffer]; exact List.mem_cons_self ..)
        have hr := ServerRunner.step_received hrunner
        exact kept_live hs (hstay rfl (by rw [hr]; rfl))
          (fun c hc => hs.commands c (by rw [hbuffer]; exact List.mem_cons_of_mem _ hc))
          (by rw [hr]; rfl) (.inr (by rw [hr]; rfl)) (.inl rfl)
  | report i call =>
    simp only [step] at h
    split at h
    · next rep hi =>
      rw [report_sent] at h
      dsimp only [sendAll, List.foldlM_nil, pure] at h
      split at h
      · next rep' hturn =>
        cases h
        obtain ⟨⟨resp, rfl⟩, hsame⟩ := startTurn_ok hturn
        exact kept_set hs hi hsame rfl nofun
      · cases h
        exact kept_set hs hi ⟨rfl, rfl⟩ rfl fun _ => rfl
    · cases h
  | cancelled i =>
    simp only [step] at h
    split at h
    · next rep scheduler hi _ =>
      cases h
      exact kept_set hs hi ⟨rfl, rfl⟩ rfl nofun
    · cases h

/-- What every run keeps. -/
theorem kept_run {inner : Inner} {as : List ServerStep}
    (h : run (step root) (start bootstrapAddr info inner) as = some s) :
    Kept bootstrapAddr info as s := by
  have hkept : Kept bootstrapAddr info ([] ++ as) s := run_invariant_past
    (fun past s a s' hs hstep => kept_step hs hstep) (kept_start inner) h
  rwa [List.nil_append] at hkept

/-- **A server keeps its role.** In every run of the main loop, the channel of commands, the tasks
of the database and the reporters, whatever the schedulers answer and however they are lost, the
server has the role that the command line gives it, with the one group that it has joined; only
`Keep` is ever in the channel; all its reporters report for it to the scheduler of this role; and a
report is lost at most once for each round of the main loop. -/
theorem role_kept {inner : Inner} {as : List ServerStep}
    (h : run (step root) (start bootstrapAddr info inner) as = some s) :
    InRole bootstrapAddr info (as.filterMap ServerStep.group) s.live.runner.state ∧
      (∀ c ∈ s.live.channel.buffer, c = .keep) ∧
      (∀ r ∈ s.reporters,
        r.rep.server = info ∧ s.live.runner.state.scheduler = some r.rep.scheduler) ∧
      as.countP ServerStep.lost ≤ as.countP ServerStep.endsRound + 1 := by
  have hkept := kept_run h
  have hlosses := hkept.losses
  exact ⟨hkept.role, hkept.commands, fun r hr => ⟨hkept.own.2 r hr, hkept.reports r hr⟩, by omega⟩

theorem hasScheduler_server {a : ServerStep} (hs : s.live.HasScheduler)
    (h : s.step root a = some s') : s'.live.HasScheduler := by
  cases a with
  | live x =>
    by_cases hsend : ∃ command, x = .send command
    · obtain ⟨command, rfl⟩ := hsend
      cases h
    · rw [step_live fun command hc => hsend ⟨command, hc⟩] at h
      obtain ⟨live, hlive, rfl⟩ := Option.map_eq_some_iff.mp h
      exact LiveServer.hasScheduler_step hs hlive
  | report i call =>
    simp only [step] at h
    split at h
    · split at h
      · cases h
      · split at h
        all_goals
          cases h
          exact hs
    · cases h
  | cancelled i =>
    simp only [step] at h
    split at h
    · cases h
      exact hs
    · cases h

/-- **What `get_info` answers** is the truth of the whole run: while a server serves, it names
itself, the group that it has joined or founded, and the role of the command line; and this group's
scheduler is the one that all of its reporters have reported to. -/
theorem getInfo_names_group {inner : Inner} {as : List ServerStep}
    {app : Option (DeploymentInfo × Path × Path)}
    (h : run (step root) (start bootstrapAddr info inner) as = some s)
    (hserving : s.live.services = .ready app) : ∃ group,
      (bootstrapAddr = none ∧ group = .new info ∧ as.filterMap ServerStep.group = [] ∨
        bootstrapAddr ≠ none ∧ as.filterMap ServerStep.group = [group]) ∧
      getInfo s.info s.live.runner.state = ⟨some info.into, some group.into,
        (if bootstrapAddr = none then ServerState.authoritative else .running).into⟩ ∧
      ∀ r ∈ s.reporters, r.rep.server = info ∧ r.rep.scheduler = group.schedulerInfo := by
  have hkept := kept_run h
  have hactive : s.live.HasScheduler := run_invariant (I := fun s => s.live.HasScheduler)
    (fun _ _ _ hs hstep => hasScheduler_server hs hstep) (.inl rfl) h
  have hreports : ∀ group : GroupInfo, s.live.runner.state.scheduler = some group.schedulerInfo →
      ∀ r ∈ s.reporters, r.rep.server = info ∧ r.rep.scheduler = group.schedulerInfo := by
    intro group hscheduler r hr
    have htarget := hkept.reports r hr
    rw [hscheduler] at htarget
    exact ⟨hkept.own.2 r hr, (Option.some.inj htarget).symm⟩
  have hrole := hkept.role
  rw [hkept.own.1]
  rcases bootstrapAddr with _ | addr
  · obtain ⟨hstate, hgroups⟩ := hrole
    refine ⟨.new info, .inl ⟨rfl, rfl, hgroups⟩, ?_, hreports _ ?_⟩
    · rw [hstate]
      rfl
    · rw [hstate]
      rfl
  · rcases hrole with ⟨hstate, -⟩ | ⟨group, hstate, hgroups⟩
    · -- a server that is joining does not serve
      rcases hactive with hidle | ⟨scheduler, hscheduler⟩
      · rw [hserving] at hidle
        cases hidle
      · rw [hstate] at hscheduler
        cases hscheduler
    · refine ⟨group, .inr ⟨nofun, hgroups⟩, ?_, hreports _ ?_⟩
      · rw [hstate]
        rfl
      · rw [hstate]
        rfl

end ReportingServer

/-! ### A scheduler that is lost twice -/

section Lost

attribute [local instance] Crates.hyphenated

def lostGroup : GroupInfo := .new ⟨1, "http://10.0.0.1:50051"⟩

def lostReport (i : ℕ) : ServerStep := .report i (.error (.call ⟨.unavailable, "connection lost"⟩))

/-- The reporter is lost with its first report; a spawn asks for a new round, whose reporter is lost
as well. -/
def lostTwice : List ServerStep :=
  .live (.joined lostGroup) :: LiveServer.spawning.map .live ++
    [lostReport 0, .live .receive, .live .startReporter, lostReport 1]

theorem lostTwice_running : ∃ s, run (ReportingServer.step [])
    (.start (some "http://10.0.0.1:50051") ⟨2, "http://10.0.0.2:50051"⟩ ⟨.empty _, []⟩)
      lostTwice = some s ∧ lostTwice.countP ServerStep.lost = 2 ∧
        s.live.runner.state = .running lostGroup ∧
          ∀ r ∈ s.reporters, r.rep.scheduler = lostGroup.schedulerInfo := by
  have hrun : (run (ReportingServer.step [])
      (.start (some "http://10.0.0.1:50051") ⟨2, "http://10.0.0.2:50051"⟩ ⟨.empty _, []⟩)
        lostTwice).isSome = true := by decide +kernel
  obtain ⟨s, hs⟩ := Option.isSome_iff_exists.mp hrun
  have hgroups : lostTwice.filterMap ServerStep.group = [lostGroup] := rfl
  obtain ⟨hrole, -, hreports, -⟩ := ReportingServer.role_kept hs
  rw [hgroups] at hrole
  obtain ⟨-, hnil⟩ | ⟨group, hstate, hgroup⟩ := hrole
  · cases hnil
  · obtain rfl : lostGroup = group := List.singleton_inj.mp hgroup
    refine ⟨s, hs, by decide, hstate, fun r hr => ?_⟩
    have hscheduler := (hreports r hr).2
    rw [hstate] at hscheduler
    exact (Option.some.inj hscheduler).symm

/-- The second round comes to serve the application. -/
def servingAgain : List ServerStep :=
  lostTwice ++ [.live (.lookup [⟨LiveServer.faceApp, [LiveServer.firstVersion]⟩]), .live .get,
    .live .get]

theorem servingAgain_named : ∃ s, run (ReportingServer.step [])
    (.start (some "http://10.0.0.1:50051") ⟨2, "http://10.0.0.2:50051"⟩ ⟨.empty _, []⟩)
      servingAgain = some s ∧ getInfo s.info s.live.runner.state =
        ⟨some (ServerInfo.into ⟨2, "http://10.0.0.2:50051"⟩), some lostGroup.into, 1⟩ := by
  have hrun : (run (ReportingServer.step [])
      (.start (some "http://10.0.0.1:50051") ⟨2, "http://10.0.0.2:50051"⟩ ⟨.empty _, []⟩)
        servingAgain).map (·.live.services) =
      some (.ready (some (LiveServer.faceApp,
        (appDir [] LiveServer.faceApp).join LiveServer.firstVersion.dirName,
        (appDir [] LiveServer.faceApp).join LiveServer.firstVersion.dirName))) := by
    decide +kernel
  obtain ⟨s, hs, hready⟩ := Option.map_eq_some_iff.mp hrun
  obtain ⟨group, ⟨hnone, -⟩ | ⟨-, hgroups⟩, hinfo, -⟩ :=
    ReportingServer.getInfo_names_group hs hready
  · cases hnone
  · obtain rfl : lostGroup = group := List.singleton_inj.mp hgroups
    exact ⟨s, hs, hinfo⟩

end Lost

end Laqista
