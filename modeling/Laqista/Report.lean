import Laqista.Server.State
import Laqista.Lib.Runs

/-! # The reporter

A `MetricsReporter` sends every window to the scheduler and saves the cluster it gets back
(`putCluster`). When the scheduler is lost it is to fail over (`failover`): the saved cluster
without its scheduler elects a successor, and the reporter's own server takes over or joins it.

* `report_never_fails_over`: however the scheduler is lost, the branch with the failover is not
  reached; the report is an error, which ends the reporter.
* `saved_always_latest_iff`: the saved cluster has the content of the latest reply throughout
  exactly when no reply changes only what `clusterDiffers` does not see. -/

namespace Laqista

open Laqista.Proto Laqista.Lib Laqista.Lib.Runs

structure MetricsReporter where
  scheduler : ServerInfo
  server : ServerInfo
  lastClusterState : Option ClusterState
  deriving DecidableEq, Repr

/-- How a scheduler is lost: there is no connection, or the call ends with a status. -/
inductive Loss where
  | connect (err : TransportError)
  | call (status : Status)
  deriving DecidableEq, Repr

/-- The errors of `report`, which are boxed in the source. -/
inductive ReportError where
  | transport (err : TransportError)
  | message (text : String)
  | laqista (err : Error)
  | send (command : StateCommand)
  deriving DecidableEq

/-- What a call of `report` leaves: the reporter, the commands it has sent, and its result. -/
structure Reported where
  reporter : MetricsReporter
  sent : List StateCommand
  result : Except Panic (Except ReportError Unit)

namespace MetricsReporter

def new (server scheduler : ServerInfo) : MetricsReporter := ⟨scheduler, server, none⟩

/-- Whether the state differs from the saved one. -/
def changed (rep : MetricsReporter) (current : Option ClusterState) : Bool :=
  match rep.lastClusterState, current with
  | some last, some current => clusterDiffers last current
  | none, none => false
  | _, _ => true

/-- The saved state is replaced if it differs; the result says whether it was. -/
def putCluster (rep : MetricsReporter) (current : Option ClusterState) : Bool × MetricsReporter :=
  (rep.changed current,
    if rep.changed current then { rep with lastClusterState := current } else rep)

theorem changed_none {rep : MetricsReporter} {current : ClusterState}
    (h : rep.lastClusterState = none) : rep.changed (some current) = true := by
  unfold changed
  rw [h]

theorem changed_some {rep : MetricsReporter} {last current : ClusterState}
    (h : rep.lastClusterState = some last) :
    rep.changed (some current) = clusterDiffers last current := by
  unfold changed
  rw [h]

theorem putCluster_saved (rep : MetricsReporter) (current : Option ClusterState) :
    (rep.putCluster current).2.lastClusterState =
      if rep.changed current then current else rep.lastClusterState := by
  show (ite _ _ _ : MetricsReporter).lastClusterState = _
  split_ifs <;> rfl

variable [Crates]

def reportRequest (rep : MetricsReporter) (metrics : MonitorWindow) : ReportRequest :=
  ⟨some rep.server.into, [metrics]⟩

/-- The branch of `report` for a transport error, up to the command it sends. -/
def failover (rep : MetricsReporter) : Except Panic (Except ReportError StateCommand) :=
  match rep.lastClusterState with
  | none => .ok (.error (.message "No latest cluster state is saved"))
  | some state =>
    match Cluster.tryFrom state with
    | .error e => .ok (.error (.laqista e))
    | .ok cluster => do
      let id := cluster.group.schedulerInfo.id
      let removed := (cluster.removeServer id).2
      let (nextScheduler, elected) ← removed.chooseScheduler
      return .ok (if nextScheduler.id = rep.server.id then .becomeScheduler elected
        else .update (.joining nextScheduler.addr))

/-- A snapshot that decodes gives a command if there is a server to choose. -/
theorem failover_eq (rep : MetricsReporter) {state : ClusterState} {cluster elected : Cluster}
    {next : ServerInfo} (hl : rep.lastClusterState = some state)
    (hc : Cluster.tryFrom state = .ok cluster)
    (h : (cluster.removeServer cluster.group.schedulerInfo.id).2.chooseScheduler =
      .ok (next, elected)) :
    rep.failover = .ok (.ok (if next.id = rep.server.id then .becomeScheduler elected
      else .update (.joining next.addr))) := by
  simp only [failover, hl, hc, h, ok_bind, pure_eq_ok]

/-- `report`, given how the call of the scheduler ends and whether the main loop still receives. -/
def report (rep : MetricsReporter) (call : Except Loss ReportResponse) (receives : Bool) :
    Reported :=
  match call with
  | .error (.connect te) => ⟨rep, [], .ok (.error (.transport te))⟩
  | .ok resp => ⟨(rep.putCluster resp.cluster).2, [], .ok (.ok ())⟩
  | .error (.call s) =>
    match Error.fromStatus s with
    | .transportError _ =>
      match rep.failover with
      | .error p => ⟨rep, [], .error p⟩
      | .ok (.error e) => ⟨rep, [], .ok (.error e)⟩
      | .ok (.ok command) =>
        if receives then ⟨rep, [command], .ok (.ok ())⟩
        else ⟨rep, [], .ok (.error (.send command))⟩
    | err => ⟨rep, [], .ok (.error (.laqista err))⟩

/-- A turn of the loop of `start`, which goes on with the reporter unless the report failed. The
panic's message goes on with the error. -/
def startTurn (rep : MetricsReporter) (call : Except Loss ReportResponse) (receives : Bool) :
    Except Panic MetricsReporter :=
  match (rep.report call receives).result with
  | .error p => .error p
  | .ok (.error _) => .error ⟨"failed to report metrics"⟩
  | .ok (.ok ()) => .ok (rep.report call receives).reporter

end MetricsReporter

/-! ### Failing over -/

/-- The report succeeds with one command: to become the scheduler or to join the next one. -/
def Reported.FailsOver (r : Reported) : Prop :=
  r.result = .ok (.ok ()) ∧
    ((∃ cluster, r.sent = [.becomeScheduler cluster]) ∨ ∃ addr, r.sent = [.update (.joining addr)])

section Loss

variable [Crates]

/-- A lost scheduler makes the report an error: neither a failed connection nor a status comes to
the branch for transport errors. -/
theorem report_lost (rep : MetricsReporter) (loss : Loss) (receives : Bool) :
    ∃ e, rep.report (.error loss) receives = ⟨rep, [], .ok (.error e)⟩ := by
  rcases loss with te | s
  · exact ⟨.transport te, rfl⟩
  · refine ⟨.laqista (Error.fromStatus s), ?_⟩
    unfold MetricsReporter.report
    dsimp only
    split
    · next te hte => exact absurd hte (fromStatus_ne_transport s te)
    · rfl

/-- Whatever the scheduler answers, no command is sent. -/
theorem report_sent (rep : MetricsReporter) (call : Except Loss ReportResponse) (receives : Bool) :
    (rep.report call receives).sent = [] := by
  rcases call with loss | resp
  · obtain ⟨e, he⟩ := report_lost rep loss receives
    rw [he]
  · rfl

/-- A turn after which the loop goes on was answered, and leaves the reporter its server and its
scheduler. -/
theorem startTurn_ok {rep rep' : MetricsReporter} {call : Except Loss ReportResponse}
    {receives : Bool} (h : rep.startTurn call receives = .ok rep') :
    (∃ resp, call = .ok resp) ∧ rep'.server = rep.server ∧ rep'.scheduler = rep.scheduler := by
  rcases call with loss | resp
  · obtain ⟨e, he⟩ := report_lost rep loss receives
    unfold MetricsReporter.startTurn at h
    rw [he] at h
    cases h
  · cases h
    refine ⟨⟨resp, rfl⟩, ?_⟩
    show (ite _ _ _ : MetricsReporter).server = _ ∧ (ite _ _ _ : MetricsReporter).scheduler = _
    split_ifs
    · exact ⟨rfl, rfl⟩
    · exact ⟨rfl, rfl⟩

/-- **No reporter ever fails over**, whatever it has saved and however the scheduler is lost; the
report ends the reporter instead. -/
theorem report_never_fails_over (rep : MetricsReporter) (loss : Loss) (receives : Bool) :
    ¬ (rep.report (.error loss) receives).FailsOver ∧
      ∃ p, rep.startTurn (.error loss) receives = .error p := by
  obtain ⟨e, he⟩ := report_lost rep loss receives
  have hresult : (rep.report (.error loss) receives).result = .ok (.error e) := by rw [he]
  refine ⟨fun h => ?_, ⟨"failed to report metrics"⟩, ?_⟩
  · have hok := h.1
    rw [hresult] at hok
    simp at hok
  · unfold MetricsReporter.startTurn
    rw [hresult]

end Loss

section Snapshot

attribute [local instance] Crates.hyphenated

/-- Two servers, of which the first is the scheduler. -/
def twoServers : Cluster :=
  { Cluster.new ⟨1, "http://10.0.0.1:50051"⟩ with
    servers := [⟨1, "http://10.0.0.1:50051"⟩, ⟨2, "http://10.0.0.2:50051"⟩] }

theorem report_does_not_fail_over :
    ¬ ∀ (rep : MetricsReporter) (state : ClusterState) (cluster : Cluster) (loss : Loss),
      rep.lastClusterState = some state → Cluster.tryFrom state = .ok cluster →
      (∃ s ∈ cluster.servers, s.id ≠ cluster.group.schedulerInfo.id) →
      (rep.report (.error loss) true).FailsOver := by
  intro h
  have hf := h ⟨⟨1, "http://10.0.0.1:50051"⟩, ⟨2, "http://10.0.0.2:50051"⟩, twoServers.into []⟩
    (twoServers.into []) twoServers.withoutStats (.call ⟨.unavailable, "connection lost"⟩) rfl
    (Cluster.tryFrom_into Keyed.iter_empty) (by decide)
  exact absurd hf.1 (by decide)

end Snapshot

/-! ### What is saved -/

/-- What a deployment's instances are, with their places as a set. -/
def AppInstancesInfo.placement (i : AppInstancesInfo) : DeploymentInfo × Finset ServerInfo :=
  (i.deployment, i.servers.toFinset)

/-- The same scheduler, the same servers up to order and the same instances. -/
structure SameContent (c d : Cluster) : Prop where
  scheduler : c.group.schedulerInfo = d.group.schedulerInfo
  servers : c.servers.Perm d.servers
  instances : ∀ id, (c.instances.lookup id).map AppInstancesInfo.placement =
    (d.instances.lookup id).map AppInstancesInfo.placement

theorem SameContent.refl (c : Cluster) : SameContent c c := ⟨rfl, List.Perm.refl _, fun _ => rfl⟩

theorem SameContent.symm {c d : Cluster} (h : SameContent c d) : SameContent d c :=
  ⟨h.scheduler.symm, h.servers.symm, fun id => (h.instances id).symm⟩

theorem SameContent.trans {c d e : Cluster} (h : SameContent c d) (h' : SameContent d e) :
    SameContent c e :=
  ⟨h.scheduler.trans h'.scheduler, h.servers.trans h'.servers,
    fun id => (h.instances id).trans (h'.instances id)⟩

/-- What `clusterDiffers` sees of two states is the same: the scheduler's id, the servers' ids up to
order and the number of the instances. -/
structure SameOutline (a b : ClusterState) : Prop where
  scheduler : schedulerId a = schedulerId b
  servers : (a.servers.map (·.id)).Perm (b.servers.map (·.id))
  instances : a.instances.length = b.instances.length

theorem SameOutline.refl (a : ClusterState) : SameOutline a a := ⟨rfl, List.Perm.refl _, rfl⟩

theorem SameOutline.symm {a b : ClusterState} (h : SameOutline a b) : SameOutline b a :=
  ⟨h.scheduler.symm, h.servers.symm, h.instances.symm⟩

theorem SameOutline.trans {a b c : ClusterState} (h : SameOutline a b) (h' : SameOutline b c) :
    SameOutline a c :=
  ⟨h.scheduler.trans h'.scheduler, h.servers.trans h'.servers, h.instances.trans h'.instances⟩

section Saved

variable [Crates]

/-- The cluster in a reply, which can be decoded. -/
structure Reply where
  state : ClusterState
  cluster : Cluster
  decodes : Cluster.tryFrom state = .ok cluster

/-- A state that can be decoded names its scheduler. -/
theorem schedulerId_of_tryFrom {state : ClusterState} {c : Cluster}
    (h : Cluster.tryFrom state = .ok c) : (schedulerId state).isSome := by
  unfold Cluster.tryFrom at h
  rcases hs : state.group with _ | g
  · rw [hs] at h
    simp at h
  · rw [hs] at h
    obtain ⟨group, hg, -⟩ := bind_eq_ok.mp h
    unfold GroupInfo.tryFrom at hg
    rcases hsg : g.scheduler with _ | server
    · rw [hsg] at hg
      simp at hg
    · simp [schedulerId, hs, hsg]

theorem Reply.clusterDiffers_eq_false (r r' : Reply) :
    clusterDiffers r.state r'.state = false ↔ SameOutline r.state r'.state := by
  rw [Laqista.clusterDiffers_eq_false (schedulerId_of_tryFrom r.decodes)
    (schedulerId_of_tryFrom r'.decodes)]
  exact ⟨fun h => ⟨h.1, h.2.1, h.2.2⟩, fun h => ⟨h.scheduler, h.servers, h.instances⟩⟩

/-- A reporter with the latest reply it has got. -/
structure Watch where
  reporter : MetricsReporter
  latest : Option Reply

/-- The reporter gets a reply. -/
def Watch.receive (w : Watch) (r : Reply) : Option Watch :=
  some ⟨(w.reporter.putCluster (some r.state)).2, some r⟩

/-- The saved state has the content of the latest reply. -/
def Watch.UpToDate (w : Watch) : Prop :=
  ∀ r, w.latest = some r → ∃ saved cluster, w.reporter.lastClusterState = some saved ∧
    Cluster.tryFrom saved = .ok cluster ∧ SameContent cluster r.cluster

/-- If `clusterDiffers` does not tell the reply from the latest one, it has the same content. -/
def Watch.Noticed (w : Watch) (r : Reply) : Prop :=
  ∀ r₀, w.latest = some r₀ → SameOutline r₀.state r.state → SameContent r₀.cluster r.cluster

/-- The saved state is a reply that does not differ from the latest one. -/
def Watch.Saved (w : Watch) : Prop :=
  match w.latest with
  | none => w.reporter.lastClusterState = none
  | some r => ∃ r₀ : Reply, w.reporter.lastClusterState = some r₀.state ∧
      SameOutline r₀.state r.state

/-- **What one reply does**: it is saved, or it has the outline of the latest one and the saved
state stays. -/
theorem receive_cases {w w' : Watch} {r : Reply} (hs : w.Saved) (h : w.receive r = some w') :
    w'.latest = some r ∧ (w'.reporter.lastClusterState = some r.state ∧
        (∀ r₀, w.latest = some r₀ → ¬ SameOutline r₀.state r.state) ∨
      w'.reporter.lastClusterState = w.reporter.lastClusterState ∧
        ∃ r₀, w.latest = some r₀ ∧ SameOutline r₀.state r.state) := by
  obtain rfl := Option.some.inj h
  refine ⟨rfl, ?_⟩
  dsimp only
  rw [MetricsReporter.putCluster_saved]
  unfold Watch.Saved at hs
  rcases hl : w.latest with _ | r₁
  · rw [hl] at hs
    left
    rw [if_pos (MetricsReporter.changed_none hs)]
    exact ⟨rfl, by simp⟩
  · rw [hl] at hs
    obtain ⟨r₀, hr₀, h₀⟩ := hs
    have hdiff : clusterDiffers r₀.state r.state = false ↔ SameOutline r₁.state r.state := by
      rw [Reply.clusterDiffers_eq_false]
      exact ⟨h₀.symm.trans, h₀.trans⟩
    rw [MetricsReporter.changed_some hr₀]
    by_cases ho : SameOutline r₁.state r.state
    · right
      rw [hdiff.mpr ho]
      exact ⟨rfl, r₁, rfl, ho⟩
    · left
      have hd : clusterDiffers r₀.state r.state = true := by
        rw [← Bool.not_eq_false, hdiff]
        exact ho
      rw [if_pos hd]
      refine ⟨rfl, fun r₂ hr₂ => ?_⟩
      rw [← Option.some.inj hr₂]
      exact ho

theorem saved_receive {w w' : Watch} {r : Reply} (hs : w.Saved) (h : w.receive r = some w') :
    w'.Saved := by
  obtain ⟨hl, ⟨hsaved, -⟩ | ⟨hsaved, r₀, hr₀, ho⟩⟩ := receive_cases hs h
  · unfold Watch.Saved
    rw [hl]
    exact ⟨r, hsaved, SameOutline.refl _⟩
  · unfold Watch.Saved at hs ⊢
    rw [hr₀] at hs
    rw [hl]
    obtain ⟨r₁, hr₁, h₁⟩ := hs
    exact ⟨r₁, hsaved.trans hr₁, h₁.trans ho⟩

/-- A reply keeps the saved state up to date exactly when it is noticed. -/
theorem upToDate_receive {w w' : Watch} {r : Reply} (hs : w.Saved) (hu : w.UpToDate)
    (h : w.receive r = some w') : w'.UpToDate ↔ w.Noticed r := by
  obtain ⟨hl, ⟨hsaved, hn⟩ | ⟨hsaved, r₀, hr₀, ho⟩⟩ := receive_cases hs h
  · refine iff_of_true ?_ fun r₀ hr₀ ho => absurd ho (hn r₀ hr₀)
    intro r' hr'
    rw [hl] at hr'
    obtain rfl := Option.some.inj hr'
    exact ⟨r.state, r.cluster, hsaved, r.decodes, SameContent.refl _⟩
  · obtain ⟨saved, cluster, hst, hdec, hsame⟩ := hu r₀ hr₀
    constructor
    · intro hu' r₁ hr₁ _
      obtain ⟨saved', cluster', hst', hdec', hsame'⟩ := hu' r hl
      have hr : r₁ = r₀ := by rw [hr₀] at hr₁; exact (Option.some.inj hr₁).symm
      have hc : cluster' = cluster := by
        rw [hsaved, hst] at hst'
        obtain rfl := Option.some.inj hst'
        rw [hdec] at hdec'
        exact (Except.ok.inj hdec').symm
      subst hr hc
      exact hsame.symm.trans hsame'
    · intro hnot r' hr'
      rw [hl] at hr'
      obtain rfl := Option.some.inj hr'
      exact ⟨saved, cluster, hsaved.trans hst, hdec, hsame.trans (hnot r₀ hr₀ ho)⟩

/-- The reply with a cluster whose instances are sent in the order `it`. -/
def Reply.ofCluster (c : Cluster) (it : List AppInstancesInfo) (h : c.instances.Iter it) : Reply :=
  ⟨c.into it, c.withoutStats, Cluster.tryFrom_into h⟩

/-- **No update is lost, exactly when every update is noticed**: throughout a sequence of replies to
a new reporter, the saved state has the content of the latest one if and only if no reply with the
outline of the one before has another content. -/
theorem saved_always_latest_iff (server scheduler : ServerInfo) (replies : List Reply) :
    Always Watch.receive Watch.UpToDate ⟨.new server scheduler, none⟩ replies ↔
      EachStep Watch.receive Watch.Noticed ⟨.new server scheduler, none⟩ replies := by
  have h0 : Watch.Saved ⟨.new server scheduler, none⟩ := rfl
  have hP : Watch.UpToDate ⟨.new server scheduler, none⟩ := by
    intro r hr
    simp at hr
  exact always_iff_eachStep (fun w r w' hs _ h _ => saved_receive hs h)
    (fun w r w' hs hu h => upToDate_receive hs hu h) h0 hP

end Saved

section LostUpdate

attribute [local instance] Crates.hyphenated

/-- A deployment with one location, and what a scale-out makes of it. -/
def placedOnce : Cluster :=
  twoServers.insertInstance ⟨7, "face", "src"⟩ [⟨1, "http://10.0.0.1:50051"⟩]

def placedTwice : Cluster :=
  placedOnce.insertInstance ⟨7, "face", "src"⟩ [⟨2, "http://10.0.0.2:50051"⟩]

theorem added_location_is_lost :
    ¬ ∀ (server scheduler : ServerInfo) (replies : List Reply),
      Always Watch.receive Watch.UpToDate ⟨.new server scheduler, none⟩ replies := by
  intro h
  let once : Reply := .ofCluster placedOnce
    [⟨⟨7, "face", "src"⟩, [⟨1, "http://10.0.0.1:50051"⟩]⟩] (by decide)
  let twice : Reply := .ofCluster placedTwice
    [⟨⟨7, "face", "src"⟩, [⟨1, "http://10.0.0.1:50051"⟩, ⟨2, "http://10.0.0.2:50051"⟩]⟩] (by decide)
  obtain ⟨saved, cluster, hsaved, hdec, hsame⟩ := h ⟨2, "http://10.0.0.2:50051"⟩
    ⟨1, "http://10.0.0.1:50051"⟩ [once, twice] [once, twice] _ List.prefix_rfl rfl twice rfl
  have hst : saved = once.state := by
    have hkept : clusterDiffers once.state twice.state = false := by decide +kernel
    rw [MetricsReporter.putCluster_saved, MetricsReporter.changed_some rfl, hkept] at hsaved
    exact (Option.some.inj hsaved).symm
  have hc : cluster = once.cluster := by
    rw [hst, once.decodes] at hdec
    exact (Except.ok.inj hdec).symm
  have hplaces := hsame.instances 7
  rw [hc] at hplaces
  exact absurd hplaces (by decide)

end LostUpdate

end Laqista
