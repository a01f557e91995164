import Laqista.Net.Snapshot
import Laqista.Scheduler.Lookup

/-! # Lookups across a change of the scheduler

Whatever happens in a net, a lookup returns known hosts only (`lookups_find_hosts`). Whether it
returns one is another matter: a scheduler lists a deployment from when it has recorded it
(`listed_astep`), or from when it was handed a cluster with it, but it may have no stats of a host
yet. `deployed_found_iff` says in which runs a lookup of the deployment returns a server wherever it
is listed, at any time. -/

namespace Laqista

open Laqista.Proto Laqista.Lib Laqista.Lib.Runs Laqista.Lib.Tasks

section Runs

variable [Crates]

/-- The lookups at every scheduler return known hosts only. -/
def Net.LooksUpHosts (s : Net) : Prop :=
  ∀ addr sys, s.schedulers addr = some sys → sys.shared.LooksUpHosts

/-- **A lookup returns known hosts only**, in every state of every run. -/
theorem lookups_find_hosts (as : List NetAct) :
    Always Net.step Net.LooksUpHosts Net.empty as :=
  fun _ _ _ _ _ sys _ => sys.shared.looksUpHosts

/-- A scheduler lists a deployment from the step that records it. -/
theorem listed_astep {sys sys' : SchedulerState} {a : Act Call Told}
    (h : schedulerTasks.astep sys a = some sys') (d : Uuid) :
    d ∈ sys'.shared.cluster.instances.ids ↔ d ∈ sys.shared.cluster.instances.ids ∨
      ∃ call, recorded sys a = some call ∧ call.deployment.id = d := by
  rcases astep_recorded h with ⟨hnone, -, hinst⟩ | ⟨call, hcall, -, -, -, hsh⟩
  · rw [hinst, hnone]
    simp
  · have hids : d ∈ sys'.shared.cluster.instances.ids ↔
        d = call.deployment.id ∨ d ∈ sys.shared.cluster.instances.ids := by
      rw [hsh]
      exact Cluster.mem_ids_insertInstance
    rw [hids, hcall]
    constructor
    · rintro (hd | hd)
      · exact Or.inr ⟨call, rfl, hd.symm⟩
      · exact Or.inl hd
    · rintro (hd | ⟨call', hcall', hd⟩)
      · exact Or.inr hd
      · obtain rfl := Option.some.inj hcall'
        exact Or.inl hd.symm

/-- At every scheduler that lists the deployment, a lookup of it returns a server. -/
def Net.Found (d : Uuid) (s : Net) : Prop :=
  ∀ addr sys, s.schedulers addr = some sys → sys.shared.Found d

/-- The step keeps the deployment found: a section does, a report of a host is complete, and no
cluster that lists the deployment is handed over. -/
def Net.KeepsFound (d : Uuid) (s : Net) : NetAct → Prop
  | .serve addr act => ∀ sys, s.schedulers addr = some sys →
      TaskSystem.AtSection (fun rt t => Task.KeepsFound d rt t) sys act
  | .report i metrics _ => ∀ seat sys, s.seats[i]? = some seat →
      s.schedulers seat.reporter.scheduler.addr = some sys →
      sys.shared.cluster.HostedBy d seat.reporter.server.id → Complete metrics
  | .receive k => ∀ x cluster, s.inbox[k]? = some x → x.command = .becomeScheduler cluster →
      d ∉ cluster.instances.ids
  | _ => True

/-- A cluster that is on its way to be taken over has no stats. -/
def Net.HandsOver (s : Net) : Prop :=
  ∀ x ∈ s.inbox, ∀ cluster, x.command = .becomeScheduler cluster →
    cluster.serverStats = .empty _

theorem tryFrom_serverStats {state : ClusterState} {c : Cluster}
    (h : Cluster.tryFrom state = .ok c) : c.serverStats = .empty _ := by
  unfold Cluster.tryFrom at h
  rcases hg : state.group with _ | g
  · rw [hg] at h
    simp at h
  · rw [hg] at h
    obtain ⟨group, -, h⟩ := bind_eq_ok.mp h
    obtain ⟨servers, -, h⟩ := bind_eq_ok.mp h
    obtain ⟨instances, -, h⟩ := bind_eq_ok.mp h
    obtain rfl := Except.ok.inj h
    rfl

theorem handsOver_step {s s' : Net} {a : NetAct} (h : s.HandsOver) (hs : s.step a = some s') :
    s'.HandsOver := by
  intro x hx cluster hc
  rcases Net.sent_cases hs hx with hold | ⟨seat, -, command, hfail, rfl⟩
  · exact h x hold cluster hc
  · obtain rfl : command = .becomeScheduler cluster := hc
    obtain ⟨state, saved, next, -, hdec, rfl, -⟩ := failover_becomes hfail
    show (saved.removeServer _).2.serverStats = _
    rw [Cluster.removeServer_serverStats, tryFrom_serverStats hdec]

/-- A cluster without stats is found only if it does not list the deployment. -/
theorem found_new {d : Uuid} {cluster : Cluster} (h : cluster.serverStats = .empty _) :
    (SchedulerRuntime.new cluster).Found d ↔ d ∉ cluster.instances.ids := by
  constructor
  · intro hf hd
    obtain ⟨id, -, hid⟩ := (SchedulerRuntime.finds_iff.mp (hf hd)).reported
    have hid' : id ∈ cluster.serverStats.ids := hid
    rw [h] at hid'
    cases hid'
  · intro hn hd
    exact absurd hd hn

/-- Of a scheduler that is set, only the deployments at it matter. -/
theorem found_setScheduler {d : Uuid} {s : Net} (h : s.Found d) (addr : String)
    (sys : SchedulerState) :
    (s.setScheduler addr (some sys)).Found d ↔ sys.shared.Found d := by
  constructor
  · intro h'
    exact h' addr sys (by rw [Net.setScheduler_schedulers, if_pos rfl])
  · intro hf other sys' hl
    rw [Net.setScheduler_schedulers] at hl
    split_ifs at hl with ho
    · obtain rfl := Option.some.inj hl
      exact hf
    · exact h other sys' hl

/-- Only the schedulers matter. -/
theorem netFound_congr {d : Uuid} {s s' : Net} (h : s.schedulers = s'.schedulers) :
    s.Found d ↔ s'.Found d := by
  unfold Net.Found
  rw [h]

theorem found_stop {d : Uuid} {s : Net} (h : s.Found d) (addr : String) : (s.stop addr).Found d :=
  fun other sys hl => h other sys (Net.live_stop hl).2

/-- **A step keeps the deployment found exactly when it meets the condition.** -/
theorem found_step {d : Uuid} {s s' : Net} {a : NetAct} (hI : s.HandsOver) (h : s.Found d)
    (hs : s.step a = some s') : s'.Found d ↔ s.KeepsFound d a := by
  rcases Net.step_cases hs with ⟨addr, act, sys, sys', rfl, hsys, hstep, rfl⟩ |
    ⟨server, scheduler, rfl, rfl⟩ |
    ⟨i, metrics, it, seat, sys, rt, rfl, hseat, hsys, rfl, -, rfl⟩ |
    ⟨i, seat, rfl, -, ⟨command, -, rfl⟩ | rfl⟩ |
    ⟨k, x, rfl, hx, ⟨cluster, hc, rfl⟩ | ⟨hc, rfl⟩⟩ | ⟨server, rfl, rfl⟩ | ⟨addr, rfl, rfl⟩
  · have hstate : (s.served addr sys' (pushed sys act)).Found d ↔ sys'.shared.Found d := by
      rw [netFound_congr (Net.served_schedulers s addr sys' (pushed sys act)), found_setScheduler h]
    have hsection := TaskSystem.astep_keeps_iff (P := fun rt => rt.Found d)
      (fun _ _ _ _ hf ho => found_section hf ho) (h addr sys hsys) hstep
    rw [hstate, hsection]
    constructor
    · intro hk sys₀ hsys₀
      obtain rfl := Option.some.inj (hsys.symm.trans hsys₀)
      exact hk
    · intro hk
      exact hk sys hsys
  · exact iff_of_true h trivial
  · have hstate := found_setScheduler h seat.reporter.scheduler.addr
      ⟨sys.shared.insertStats ⟨seat.reporter.server, [metrics]⟩, sys.tasks ++ [.done]⟩
    have hinsert := found_insertStats (h _ sys hsys) ⟨seat.reporter.server, [metrics]⟩
    refine hstate.trans (hinsert.trans ?_)
    constructor
    · intro hk seat₀ sys₀ hseat₀ hsys₀ hh
      obtain rfl := Option.some.inj (hseat.symm.trans hseat₀)
      obtain rfl := Option.some.inj (hsys.symm.trans hsys₀)
      exact hk hh metrics (List.mem_singleton.mpr rfl)
    · intro hk hh w hw
      rw [List.mem_singleton.mp hw]
      exact hk seat sys hseat hsys hh
  · exact iff_of_true h trivial
  · exact iff_of_true h trivial
  · have hstate := found_setScheduler h x.server.addr ⟨.new cluster, []⟩
    have hempty := hI x (List.mem_of_getElem? hx) cluster hc
    refine hstate.trans ((found_new hempty).trans ?_)
    constructor
    · intro hn x₀ cluster₀ hx₀ hc₀
      obtain rfl := Option.some.inj (hx.symm.trans hx₀)
      obtain rfl := StateCommand.becomeScheduler.inj (hc.symm.trans hc₀)
      exact hn
    · intro hk
      exact hk x cluster hx hc
  · refine iff_of_true h fun x₀ cluster₀ hx₀ hc₀ => ?_
    obtain rfl := Option.some.inj (hx.symm.trans hx₀)
    exact absurd hc₀ (hc cluster₀)
  · refine iff_of_true ?_ trivial
    refine (found_setScheduler (found_stop h server.addr) server.addr _).mpr fun hd => ?_
    cases hd
  · exact iff_of_true (found_stop h addr) trivial

/-- **A deployed application is found, at any time, exactly in these runs**: each step records it
at a server with stats, if not for another time; stores only complete windows for its hosts; and
hands over no cluster that lists it. -/
theorem deployed_found_iff (d : Uuid) (as : List NetAct) :
    Always Net.step (Net.Found d) Net.empty as ↔
      EachStep Net.step (Net.KeepsFound d) Net.empty as := by
  have hI : Net.empty.HandsOver := by
    intro x hx
    cases hx
  have hP : Net.empty.Found d := by
    intro addr sys hl
    cases hl
  exact always_iff_eachStep (fun s a s' hI _ hs _ => handsOver_step hI hs)
    (fun s a s' hI hP hs => found_step hI hP hs) hI hP

end Runs

/-! ### A deployment on the first server -/

section Fallback

attribute [local instance] Crates.hyphenated

/-- A new scheduler without stats gets a deployment, which the spawn places on itself. -/
def fallbackRun : List NetAct :=
  [.boot schedulerServer,
    .serve schedulerServer.addr (.start (.deploy ⟨"src", "face"⟩ 7)),
    .serve schedulerServer.addr (.enter 0 .nothing),
    .serve schedulerServer.addr (.await 0 (.answer (.ok true))),
    .serve schedulerServer.addr (.enter 0 (.order [])),
    .serve schedulerServer.addr (.await 0 (.answer (.ok true))),
    .serve schedulerServer.addr (.enter 0 .nothing)]

theorem deployed_not_found : ¬ ∀ (d : Uuid) (as : List NetAct),
    Always Net.step (Net.Found d) Net.empty as := by
  intro h
  have hrun : (run Net.step Net.empty fallbackRun).bind
      (fun s => (s.schedulers schedulerServer.addr).map fun sys =>
        (decide (7 ∈ sys.shared.cluster.instances.ids), sys.shared.cluster.serverStats.ids,
          sys.shared.lookup (printUuid 7) [])) =
        some (true, ∅, .ok (.error (.aborted "Failed to schedule"))) := by decide +kernel
  obtain ⟨s, hs, he⟩ := Option.bind_eq_some_iff.mp hrun
  obtain ⟨sys, hsys, he⟩ := Option.map_eq_some_iff.mp he
  simp only [Prod.mk.injEq, decide_eq_true_eq] at he
  have hfound := h 7 fallbackRun fallbackRun s List.prefix_rfl hs _ sys hsys he.1
  obtain ⟨id, -, hid⟩ := (SchedulerRuntime.finds_iff.mp hfound).reported
  rw [he.2.1] at hid
  cases hid

end Fallback

end Laqista
