import Laqista.Net.System
import Laqista.Scheduler.Deployed

/-! # Deployments across a change of the scheduler

The deployments that a scheduler knows match its instances as long as it runs
(`Laqista.Scheduler.Deployed`). A server that takes over gets the instances with the cluster that is
handed to it, but `AuthoritativeScheduler::new` starts without deployments. So the two match
everywhere in exactly the runs in which only clusters without instances are handed over
(`matched_always_iff`), and the checks of the lookups at a new scheduler find nothing to scale out
(`scaleCheck_after_takeover`). -/

namespace Laqista

open Laqista.Proto Laqista.Lib Laqista.Lib.Runs Laqista.Lib.Tasks

/-- Every scheduler's deployments are those of its instances. -/
def Net.Matched (s : Net) : Prop :=
  ∀ addr sys, s.schedulers addr = some sys → sys.shared.Matched

/-- Every scheduler's tasks agree on the deployments. -/
def Net.Known (s : Net) : Prop := ∀ addr sys, s.schedulers addr = some sys → TasksKnown sys

/-- A server that becomes the scheduler is handed a cluster without instances. -/
def NothingDeployed (s : Net) : NetAct → Prop
  | .receive k => ∀ x cluster, s.inbox[k]? = some x → x.command = .becomeScheduler cluster →
      cluster.instances.ids = ∅
  | _ => True

section Runs

variable [Crates]

theorem netKnown_step {s s' : Net} {a : NetAct} (h : s.Known) (hs : s.step a = some s') :
    s'.Known := by
  intro addr sys' hl
  rcases Net.live_cases hs hl with ⟨sys, bs, hsys, hrun⟩ | ⟨k, x, cluster, -, -, -, -, rfl⟩ |
    ⟨server, -, -, rfl⟩
  · exact run_invariant (fun _ _ _ hk hb => known_step hk hb) (h addr sys hsys) hrun
  · exact tasksKnown_new _
  · exact tasksKnown_new _

theorem matched_netStep {s s' : Net} {a : NetAct} (hk : s.Known) (h : s.Matched)
    (hs : s.step a = some s') : s'.Matched ↔ NothingDeployed s a := by
  constructor
  · intro h'
    rcases a with ⟨addr, act⟩ | ⟨server, scheduler⟩ | ⟨i, metrics, it⟩ | i | k | server | addr
    case receive =>
      intro x cluster hx hc
      simp only [Net.step, hx, hc, Option.some.injEq] at hs
      subst hs
      exact matched_new.mp (h' x.server.addr ⟨.new cluster, []⟩ (by simp [Net.setScheduler]))
    all_goals trivial
  · intro hn addr sys' hl
    rcases Net.live_cases hs hl with ⟨sys, bs, hsys, hrun⟩ | ⟨k, x, cluster, rfl, hx, hc, -, rfl⟩ |
      ⟨server, rfl, -, rfl⟩
    · exact matched_run (hk addr sys hsys) (h addr sys hsys) hrun
    · exact matched_new.mpr (hn x cluster hx hc)
    · exact matched_new.mpr rfl

/-- **The deployments of every scheduler are those of its instances**, throughout a run, exactly
when every server that becomes the scheduler is handed a cluster without instances. -/
theorem matched_always_iff (as : List NetAct) :
    Always Net.step Net.Matched Net.empty as ↔ EachStep Net.step NothingDeployed Net.empty as := by
  have hknown : Net.empty.Known := by
    intro addr sys hl
    cases hl
  have hmatched : Net.empty.Matched := by
    intro addr sys hl
    cases hl
  exact always_iff_eachStep (fun _ _ _ hk _ hs _ => netKnown_step hk hs)
    (fun _ _ _ hk h hs => matched_netStep hk h hs) hknown hmatched

end Runs

/-- A scheduler that has just taken over finds no deployment to scale out. -/
theorem scaleCheck_after_takeover (cluster : Cluster) (target : ServerInfo) (id : Uuid)
    (d : DeploymentInfo) : (SchedulerRuntime.new cluster).scaleCheck target id ≠ .ok (some d) := by
  intro h
  obtain ⟨stats, -, -, hd⟩ := scaleCheck_eq_some.mp h
  cases hd

/-! ### A deployment that is handed over -/

section Deployment

attribute [local instance] Crates.hyphenated

/-- A deployment is placed, a member reports, and takes over when the scheduler has crashed. -/
def handedOver : List NetAct :=
  .boot schedulerServer :: (joins memberServer 0 ++
    [.serve schedulerServer.addr (.start (.deploy ⟨"src", "face"⟩ 7)),
      .serve schedulerServer.addr (.enter 1 .nothing),
      .serve schedulerServer.addr (.await 1 (.answer (.ok true))),
      .serve schedulerServer.addr (.enter 1 (.order [])),
      .serve schedulerServer.addr (.await 1 (.answer (.ok true))),
      .serve schedulerServer.addr (.enter 1 .nothing),
      .report 0 idleWindow [⟨⟨7, "face", "src"⟩, [schedulerServer]⟩], .crash schedulerServer.addr,
      .failover 0, .receive 0])

theorem handedOver_unmatched : ¬ ∀ as : List NetAct, Always Net.step Net.Matched Net.empty as := by
  intro h
  have hrun : (run Net.step Net.empty handedOver).map (fun s => (s.schedulers memberServer.addr).map
      fun sys => (sys.shared.deployments.lookup 7,
        (sys.shared.cluster.instances.lookup 7).map (·.deployment))) =
      some (some (none, some ⟨7, "face", "src"⟩)) := by decide +kernel
  obtain ⟨s, hs, hl⟩ := Option.map_eq_some_iff.mp hrun
  obtain ⟨sys, hsys, he⟩ := Option.map_eq_some_iff.mp hl
  simp only [Prod.mk.injEq] at he
  have hm := h handedOver handedOver s List.prefix_rfl hs memberServer.addr sys hsys 7
  rw [he.1, he.2] at hm
  simp at hm

end Deployment

end Laqista
