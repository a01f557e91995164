import Laqista.Net.Snapshot

/-! # Where servers and deployments come from

The infos of servers and deployments go from requests into a cluster, from there into replies,
through the encoding of a saved state into a command, and with it into the cluster of another
scheduler; and from a cluster into the calls of spawns. On none of these ways is one made up or put
together from two (`Net.From`, kept by every step: `from_step`).

`traced`: whatever server or deployment a net has anywhere was named, with the same id and the same
address, by a server that has started, joined or reported, or by a request to deploy. -/

namespace Laqista

open Laqista.Proto Laqista.Lib Laqista.Lib.Runs Laqista.Lib.Tasks

/-- The call names the server as its sender. -/
def Call.Names [Crates] : Call → ServerInfo → Prop
  | join r, server => joinServer r = .ok (.ok server)
  | report r, server => ∃ windows, reportStats r = .ok ⟨server, windows⟩
  | _, _ => False

/-- The call asks to deploy. -/
def Call.Deploys : Call → DeploymentInfo → Prop
  | deploy r id, d => d = ⟨id, r.name, r.source⟩
  | _, _ => False

/-- The server acts under its own info. -/
def NetAct.Names [Crates] : NetAct → ServerInfo → Prop
  | serve _ (.start call), server => call.Names server
  | startReporter own _, server => server = own
  | boot own, server => server = own
  | _, _ => False

def NetAct.Deploys : NetAct → DeploymentInfo → Prop
  | serve _ (.start call), d => call.Deploys d
  | _, _ => False

section

variable (P : ServerInfo → Prop) (Q : DeploymentInfo → Prop)

/-- All servers of the cluster are such, and all deployments. -/
structure Cluster.From (c : Cluster) : Prop where
  scheduler : P c.group.schedulerInfo
  servers : ∀ server ∈ c.servers, P server
  stats : ∀ id stats, c.serverStats.lookup id = some stats → P stats.server
  instances : ∀ id i, c.instances.lookup id = some i →
    Q i.deployment ∧ ∀ server ∈ i.servers, P server

/-- What the task is about. -/
def Task.From : Task → Prop
  | pushServer server => P server
  | insertStats stats => P stats.server
  | cloneInner d | saveDeployment d | chooseTarget d => Q d
  | spawn d target | record d target => Q d ∧ P target
  | scaleCheck target _ => P target
  | _ => True

structure SchedulerRuntime.From (rt : SchedulerRuntime) : Prop where
  cluster : rt.cluster.From P Q
  deployments : ∀ id d, rt.deployments.lookup id = some d → Q d

/-- A scheduler with all its tasks. -/
def FromScheduler (sys : SchedulerState) : Prop :=
  sys.shared.From P Q ∧ ∀ t ∈ sys.tasks, t.From P Q

/-- What a command tells. -/
def StateCommand.From : StateCommand → Prop
  | becomeScheduler cluster => cluster.From P Q
  | update (.joining addr) => ∃ server, P server ∧ server.addr = addr
  | _ => True

end

section Sections

variable {P : ServerInfo → Prop} {Q : DeploymentInfo → Prop}

theorem from_new {server : ServerInfo} (h : P server) : (Cluster.new server).From P Q := by
  refine ⟨h, fun s hs => ?_, fun id stats hs => ?_, fun id i hi => ?_⟩
  · rw [List.mem_singleton.mp hs]
    exact h
  · cases hs
  · cases hi

theorem Cluster.From.insertStats {c : Cluster} (h : c.From P Q) {stats : ServerStats}
    (hs : P stats.server) : (c.insertStats stats).From P Q := by
  refine ⟨h.scheduler, h.servers, fun id st hst => ?_, h.instances⟩
  rw [Cluster.lookup_insertStats] at hst
  split_ifs at hst with hid
  · rcases hold : c.serverStats.lookup stats.server.id with _ | old
    · rw [hold] at hst
      obtain rfl := Option.some.inj hst
      exact hs
    · rw [hold] at hst
      obtain rfl := Option.some.inj hst
      exact h.stats _ old hold
  · exact h.stats id st hst

theorem Cluster.From.insertInstance {c : Cluster} (h : c.From P Q) {d : DeploymentInfo}
    {target : ServerInfo} (hd : Q d) (ht : P target) : (c.insertInstance d [target]).From P Q := by
  refine ⟨h.scheduler, h.servers, h.stats, fun id i hi => ?_⟩
  rw [Cluster.lookup_insertInstance] at hi
  split_ifs at hi with hid
  · rcases hold : c.instances.lookup d.id with _ | old
    · rw [hold] at hi
      obtain rfl := Option.some.inj hi
      exact ⟨hd, fun s hs => by rw [List.mem_singleton.mp hs]; exact ht⟩
    · rw [hold] at hi
      obtain rfl := Option.some.inj hi
      obtain ⟨hdep, hservers⟩ := h.instances _ old hold
      refine ⟨hdep, fun s hs => ?_⟩
      rcases List.mem_append.mp hs with hs | hs
      · exact hservers s hs
      · rw [List.mem_singleton.mp hs]
        exact ht
  · exact h.instances id i hi

theorem Cluster.From.removeServer {c : Cluster} (h : c.From P Q) (id : Uuid) :
    (c.removeServer id).2.From P Q := by
  refine ⟨?_, fun s hs => ?_, fun k stats hst => ?_, fun k i hi => ?_⟩
  · rw [Cluster.removeServer_group]
    exact h.scheduler
  · rw [Cluster.removeServer_servers] at hs
    exact h.servers s (List.mem_of_mem_eraseP hs)
  · rw [Cluster.removeServer_serverStats] at hst
    exact h.stats k stats hst
  · rw [Cluster.removeServer_instances] at hi
    exact h.instances k i hi

theorem Cluster.From.withoutStats {c : Cluster} (h : c.From P Q) : c.withoutStats.From P Q :=
  ⟨h.scheduler, h.servers, fun id stats hs => (by cases hs), h.instances⟩

theorem SchedulerRuntime.From.record {rt : SchedulerRuntime} (h : rt.From P Q) {d : DeploymentInfo}
    {target : ServerInfo} (hd : Q d) (ht : P target) : (rt.record d target).From P Q := by
  refine ⟨h.cluster.insertInstance hd ht, fun id d' hd' => ?_⟩
  have hlook : (rt.deployments.insert d).lookup id = some d' := hd'
  rw [Keyed.lookup_insert] at hlook
  split_ifs at hlook with hid
  · obtain rfl := Option.some.inj hlook
    exact hd
  · exact h.deployments id d' hlook

theorem SchedulerRuntime.From.chooseTarget {rt : SchedulerRuntime} (h : rt.From P Q)
    {it : List ServerStats} (hit : rt.cluster.serverStats.Iter it) {target : ServerInfo}
    (ht : rt.chooseTarget it = .ok target) : P target := by
  rcases chooseTarget_ok ht with ⟨stats, hs, rfl⟩ | hs
  · exact h.cluster.stats _ stats (hit.lookup hs)
  · exact h.cluster.servers target hs

variable [Crates]

/-- **What a section keeps.** -/
theorem from_section {rt : SchedulerRuntime} {t : Task} {w : Told}
    {o : Outcome SchedulerRuntime Task} (h : rt.From P Q) (ht : t.From P Q)
    (ho : sectionBody rt t w = some o) :
    o.shared.From P Q ∧ o.next.From P Q ∧ ∀ u ∈ o.spawned, u.From P Q := by
  have hnil : ∀ u ∈ ([] : List Task), u.From P Q := by simp
  cases section_of ho with
  | pushServer server =>
    refine ⟨⟨⟨h.cluster.scheduler, fun s hs => ?_, h.cluster.stats, h.cluster.instances⟩,
      h.deployments⟩, trivial, hnil⟩
    rcases List.mem_append.mp hs with hs | hs
    · exact h.cluster.servers s hs
    · rw [List.mem_singleton.mp hs]
      exact ht
  | insertStats stats => exact ⟨⟨h.cluster.insertStats ht, h.deployments⟩, trivial, hnil⟩
  | chosen d it target hit hc => exact ⟨h, ⟨ht, h.chooseTarget hit hc⟩, hnil⟩
  | record d target => exact ⟨h.record ht.1 ht.2, trivial, hnil⟩
  | found deploymentId target id k stats it hstats hit hl =>
    refine ⟨h, trivial, fun u hu => ?_⟩
    rw [List.mem_singleton.mp hu]
    obtain ⟨-, entry, hentry, rfl⟩ := lookup_ok hl
    obtain ⟨i, -, rfl⟩ := lookupStats_ok hstats
    obtain ⟨hlook, -⟩ := Keyed.lookup_restrict (hit.lookup hentry)
    exact h.cluster.stats _ entry hlook
  | scales target id d hd =>
    obtain ⟨stats, -, -, hlook⟩ := scaleCheck_eq_some.mp hd
    exact ⟨h, h.deployments id d hlook, hnil⟩
  | removeServer id => exact ⟨⟨h.cluster.removeServer id, h.deployments⟩, trivial, hnil⟩
  | cloneInner d => exact ⟨h, ht, hnil⟩
  | readGroup => exact ⟨h, trivial, hnil⟩
  | panicked d => exact ⟨h, trivial, hnil⟩
  | notFound deploymentId => exact ⟨h, trivial, hnil⟩
  | stays target id => exact ⟨h, trivial, hnil⟩

theorem from_startCall {rt : SchedulerRuntime} {tasks : List Task} {r : Call} {t : Task}
    (hP : ∀ server, r.Names server → P server) (hQ : ∀ d, r.Deploys d → Q d)
    (h : startCall rt tasks r = some t) : t.From P Q := by
  rcases r with r | r | ⟨r, id⟩ | r | ⟨result, sender⟩
  · simp only [startCall] at h
    split at h
    · next server hj =>
      obtain rfl := Option.some.inj h
      exact hP server hj
    · obtain rfl := Option.some.inj h
      trivial
  · simp only [startCall] at h
    split at h
    · next stats hst =>
      obtain rfl := Option.some.inj h
      exact hP stats.server ⟨stats.stats, hst⟩
    · obtain rfl := Option.some.inj h
      trivial
  · simp only [startCall] at h
    split_ifs at h
    obtain rfl := Option.some.inj h
    exact hQ _ rfl
  · obtain rfl := Option.some.inj h
    trivial
  · simp only [startCall] at h
    split at h
    · obtain rfl := Option.some.inj h
      trivial
    · obtain rfl := Option.some.inj h
      trivial

omit [Crates] in
theorem from_awaitAnswer {t t' : Task} {w : Told} (ht : t.From P Q)
    (h : awaitAnswer t w = some t') : t'.From P Q := by
  unfold awaitAnswer at h
  split at h
  · obtain rfl := Option.some.inj h
    exact ht
  · obtain rfl := Option.some.inj h
    trivial
  · obtain rfl := Option.some.inj h
    exact ht
  · obtain rfl := Option.some.inj h
    trivial
  · simp at h

/-- **What a step of the tasks keeps**, if its call names and deploys only such. -/
theorem from_astep {sys sys' : SchedulerState} {a : Act Call Told} (h : FromScheduler P Q sys)
    (hr : ∀ r, a = .start r → (∀ server, r.Names server → P server) ∧ ∀ d, r.Deploys d → Q d)
    (hs : schedulerTasks.astep sys a = some sys') : FromScheduler P Q sys' := by
  obtain ⟨hrt, htasks⟩ := h
  rcases TaskSystem.astep_cases hs with ⟨r, t, rfl, ht, rfl⟩ | ⟨i, w, t, o, rfl, ht, -, ho, rfl⟩ |
    ⟨i, w, t, t', rfl, ht, -, ha, rfl⟩ | ⟨i, rfl, rfl⟩
  · refine ⟨hrt, fun u hu => ?_⟩
    rcases List.mem_append.mp hu with hu | hu
    · exact htasks u hu
    · rw [List.mem_singleton.mp hu]
      exact from_startCall (hr r rfl).1 (hr r rfl).2 ht
  · obtain ⟨hshared, hnext, hspawned⟩ := from_section hrt (htasks t (List.mem_of_getElem? ht)) ho
    refine ⟨hshared, fun u hu => ?_⟩
    rcases List.mem_append.mp hu with hu | hu
    · rcases List.mem_or_eq_of_mem_set hu with hu | rfl
      · exact htasks u hu
      · exact hnext
    · exact hspawned u hu
  · refine ⟨hrt, fun u hu => ?_⟩
    rcases List.mem_or_eq_of_mem_set hu with hu | rfl
    · exact htasks u hu
    · exact from_awaitAnswer (htasks t (List.mem_of_getElem? ht)) ha
  · refine ⟨hrt, fun u hu => ?_⟩
    rcases List.mem_or_eq_of_mem_set hu with hu | rfl
    · exact htasks u hu
    · trivial

end Sections

/-! ### The net -/

/-- Every server and every deployment in the net is such: those of the schedulers and of their
tasks, of the saved states, and of the commands. -/
structure Net.From [Crates] (P : ServerInfo → Prop) (Q : DeploymentInfo → Prop) (s : Net) :
    Prop where
  schedulers : ∀ addr sys, s.schedulers addr = some sys → FromScheduler P Q sys
  seats : ∀ seat ∈ s.seats, P seat.reporter.server ∧
    ∀ state cluster, seat.reporter.lastClusterState = some state →
      Cluster.tryFrom state = .ok cluster → cluster.From P Q
  inbox : ∀ x ∈ s.inbox, x.command.From P Q

section Steps

variable [Crates] {P : ServerInfo → Prop} {Q : DeploymentInfo → Prop}

omit [Crates] in
/-- A scheduler of its own cluster. -/
theorem fromScheduler_new {cluster : Cluster} (h : cluster.From P Q) :
    FromScheduler P Q ⟨.new cluster, []⟩ :=
  ⟨⟨h, fun id d hd => by cases hd⟩, by simp⟩

/-- What a reporter sends when it fails over is from what it has saved. -/
theorem from_failover {rep : MetricsReporter} {command : StateCommand}
    (hsaved : ∀ state cluster, rep.lastClusterState = some state →
      Cluster.tryFrom state = .ok cluster → cluster.From P Q)
    (h : rep.failover = .ok (.ok command)) : command.From P Q := by
  obtain ⟨state, cluster, next, hl, hc, hmem, -, rfl⟩ := failover_ok h
  have hcluster := (hsaved state cluster hl hc).removeServer cluster.group.schedulerInfo.id
  have hnext : P next := hcluster.servers next hmem
  split_ifs with hown
  · exact ⟨hnext, hcluster.servers, hcluster.stats, hcluster.instances⟩
  · exact ⟨next, hnext, rfl⟩

/-- **What a step of the net keeps**, if it names and deploys only such. -/
theorem from_step {s s' : Net} {a : NetAct} (h : s.From P Q)
    (hP : ∀ server, a.Names server → P server) (hQ : ∀ d, a.Deploys d → Q d)
    (hs : s.step a = some s') : s'.From P Q := by
  have hset : ∀ {addr : String} {sys : SchedulerState}, FromScheduler P Q sys →
      ∀ other sys', (s.setScheduler addr (some sys)).schedulers other = some sys' →
        FromScheduler P Q sys' := by
    intro addr sys hsys other sys' hother
    rw [Net.setScheduler_schedulers] at hother
    split_ifs at hother with ha
    · obtain rfl := Option.some.inj hother
      exact hsys
    · exact h.schedulers other sys' hother
  rcases Net.step_cases hs with ⟨addr, act, sys, sys₁, rfl, hsys, hstep, rfl⟩ |
    ⟨server, scheduler, rfl, rfl⟩ |
    ⟨i, metrics, it, seat, sys, rt, rfl, hseat, hsys, rfl, hit, rfl⟩ |
    ⟨i, seat, rfl, hseat, ⟨command, hc, rfl⟩ | rfl⟩ |
    ⟨k, x, rfl, hx, ⟨cluster, hc, rfl⟩ | ⟨-, rfl⟩⟩ | ⟨server, rfl, rfl⟩ | ⟨addr, rfl, rfl⟩
  · -- a task of a scheduler
    have hsys₁ : FromScheduler P Q sys₁ := by
      refine from_astep (h.schedulers addr sys hsys) (fun r hr => ?_) hstep
      subst hr
      exact ⟨hP, hQ⟩
    refine ⟨fun other sys' hother => ?_, ?_, ?_⟩
    · rw [Net.served_schedulers] at hother
      exact hset hsys₁ other sys' hother
    · rw [Net.served_seats]
      exact h.seats
    · rw [Net.served_inbox]
      exact h.inbox
  · refine ⟨h.schedulers, fun seat hseat => ?_, h.inbox⟩
    rcases List.mem_append.mp hseat with hseat | hseat
    · exact h.seats seat hseat
    · rw [List.mem_singleton.mp hseat]
      exact ⟨hP server rfl, fun state cluster hl => by cases hl⟩
  · -- a reply goes to the reporter, which may save it
    obtain ⟨hserver, hsaved⟩ := h.seats seat (List.mem_of_getElem? hseat)
    obtain ⟨hrt, htasks⟩ := h.schedulers _ sys hsys
    have hstats : (sys.shared.insertStats ⟨seat.reporter.server, [metrics]⟩).From P Q :=
      ⟨hrt.cluster.insertStats hserver, hrt.deployments⟩
    refine ⟨hset ⟨hstats, fun t ht => ?_⟩, fun seat' hseat' => ?_, h.inbox⟩
    · rcases List.mem_append.mp ht with ht | ht
      · exact htasks t ht
      · rw [List.mem_singleton.mp ht]
        trivial
    · rcases List.mem_or_eq_of_mem_set hseat' with hseat' | rfl
      · exact h.seats seat' hseat'
      · dsimp only
        rcases putCluster_cases seat.reporter
          (sys.shared.insertStats ⟨seat.reporter.server, [metrics]⟩).cluster it with hp | ⟨hp, -⟩
        · rw [hp]
          refine ⟨hserver, fun state cluster hl hc => ?_⟩
          obtain rfl := Option.some.inj hl
          rw [Cluster.tryFrom_into hit] at hc
          obtain rfl := Except.ok.inj hc
          exact hstats.cluster.withoutStats
        · rw [hp]
          exact ⟨hserver, hsaved⟩
  · refine ⟨h.schedulers, h.seats, fun x hx => ?_⟩
    rcases List.mem_append.mp hx with hx | hx
    · exact h.inbox x hx
    · rw [List.mem_singleton.mp hx]
      exact from_failover (h.seats seat (List.mem_of_getElem? hseat)).2 hc
  · exact ⟨h.schedulers, fun seat hseat => h.seats seat (List.mem_of_mem_eraseIdx hseat), h.inbox⟩
  · -- the elected server takes over
    have hcluster := h.inbox x (List.mem_of_getElem? hx)
    rw [hc] at hcluster
    exact ⟨hset (fromScheduler_new hcluster), h.seats,
      fun y hy => h.inbox y (List.mem_of_mem_eraseIdx hy)⟩
  · exact ⟨h.schedulers, h.seats, fun y hy => h.inbox y (List.mem_of_mem_eraseIdx hy)⟩
  · have hown : P server := hP server rfl
    refine ⟨fun other sys' hother => ?_,
      fun seat hseat => h.seats seat (List.mem_of_mem_filter hseat),
      fun x hx => h.inbox x (List.mem_of_mem_filter hx)⟩
    rw [Net.join_schedulers, Net.setScheduler_schedulers] at hother
    split_ifs at hother with ha
    · obtain rfl := Option.some.inj hother
      exact fromScheduler_new (from_new hown)
    · exact h.schedulers other sys' (Net.live_stop hother).2
  · exact ⟨fun other sys' hother => h.schedulers other sys' (Net.live_stop hother).2,
      fun seat hseat => h.seats seat (List.mem_of_mem_filter hseat),
      fun x hx => h.inbox x (List.mem_of_mem_filter hx)⟩

/-- A run that names and deploys only such has no others. -/
theorem from_run {as : List NetAct} {s : Net} (hP : ∀ a ∈ as, ∀ server, a.Names server → P server)
    (hQ : ∀ a ∈ as, ∀ d, a.Deploys d → Q d) (h : run Net.step .empty as = some s) : s.From P Q := by
  have hempty : Net.empty.From P Q :=
    ⟨fun addr sys hsys => (by cases hsys), fun seat hseat => (by cases hseat),
      fun x hx => (by cases hx)⟩
  exact run_invariant_of (K := fun a => a ∈ as)
    (fun s a s' ha hs hstep => from_step hs (hP a ha) (hQ a ha) hstep) hempty (fun a ha => ha) h

/-- **Nothing is made up.** In every run, with failovers and crashes in any order, each server that
the net has anywhere (a member, the scheduler of a group, the server of some stats, a location, the
target of a spawn, an entry of a saved state or of a cluster that is handed over) was named by a
server that has started, joined or reported, with this id and this address; and each deployment, in
particular of a spawn, is one that was asked for. -/
theorem traced {as : List NetAct} {s : Net} (h : run Net.step .empty as = some s) :
    s.From (fun server => ∃ a ∈ as, a.Names server) (fun d => ∃ a ∈ as, a.Deploys d) := by
  have hnamed : ∀ a ∈ as, ∀ server, a.Names server → ∃ a ∈ as, a.Names server :=
    fun a ha _ hn => ⟨a, ha, hn⟩
  have hdeployed : ∀ a ∈ as, ∀ d, a.Deploys d → ∃ a ∈ as, a.Deploys d :=
    fun a ha _ hd => ⟨a, ha, hd⟩
  exact from_run hnamed hdeployed h

end Steps

section Takeover

attribute [local instance] Crates.hyphenated

/-- A member joins and reports, fails over and takes over. -/
def takenOver : List NetAct :=
  .boot schedulerServer :: joins memberServer 0 ++
    [.report 0 idleWindow [], .failover 0, .receive 0]

theorem takenOver_traced : ∃ s, run Net.step .empty takenOver = some s ∧
    (s.schedulers memberServer.addr).isSome = true ∧
    s.From (fun server => ∃ a ∈ takenOver, a.Names server)
      (fun d => ∃ a ∈ takenOver, a.Deploys d) := by
  have hrun : (run Net.step .empty takenOver).map
      (fun s => (s.schedulers memberServer.addr).isSome) = some true := by decide +kernel
  obtain ⟨s, hs, htaken⟩ := Option.map_eq_some_iff.mp hrun
  exact ⟨s, hs, htaken, traced hs⟩

end Takeover

end Laqista
