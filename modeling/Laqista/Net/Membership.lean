import Laqista.Net.Snapshot

/-! # Membership as a map

A cluster is to list every id once, with the address of its last join, and an instance every
location once (`Net.Membership`). `push_server` and `insert_instance` append without looking, and a
cluster that is handed over is as old as the reply it was saved from. `membership_always_iff` says
which steps keep the property: joins of ids that are not listed, placements on servers that do not
host the deployment yet, and takeovers with a cluster whose addresses are still those of the last
joins. So a survivor that joins the successor of its scheduler, which lists it already, breaks it
(`rejoined_twice`). -/

namespace Laqista

open Laqista.Proto Laqista.Lib Laqista.Lib.Runs Laqista.Lib.Tasks

/-- No server is listed twice, and none is a location of a deployment twice. -/
structure Distinct (c : Cluster) : Prop where
  ids : c.ids.Nodup
  locations : ∀ id i, c.instances.lookup id = some i → (i.servers.map (·.id)).Nodup

/-- The section of the task adds nothing that is there. -/
def Task.KeepsDistinct (rt : SchedulerRuntime) : Task → Prop
  | pushServer server => server.id ∉ rt.cluster.ids
  | record d target => ∀ i, rt.cluster.instances.lookup d.id = some i →
      target.id ∉ i.servers.map (·.id)
  | _ => True

/-- If the step is a section, it adds nothing that is there. -/
def DistinctStep (sys : SchedulerState) : Act Call Told → Prop
  | .enter i _ => ∀ t, sys.tasks[i]? = some t → t.KeepsDistinct sys.shared
  | _ => True

/-! ### One scheduler -/

theorem distinct_new (server : ServerInfo) : Distinct (Cluster.new server) where
  ids := by simp [Cluster.new, Cluster.ids]
  locations := by
    intro id i hi
    cases hi

/-- One more of something is distinct if it is not there yet. -/
theorem nodup_append_singleton {l : List Uuid} {id : Uuid} (h : l.Nodup) :
    (l ++ [id]).Nodup ↔ id ∉ l := by
  rw [← List.concat_eq_append, List.nodup_concat]
  exact and_iff_left h

theorem distinct_push {rt : SchedulerRuntime} (h : Distinct rt.cluster) (server : ServerInfo) :
    Distinct (rt.pushServer server).cluster ↔ server.id ∉ rt.cluster.ids := by
  have hids : (rt.pushServer server).cluster.ids = rt.cluster.ids ++ [server.id] := by
    simp [SchedulerRuntime.pushServer, Cluster.ids]
  rw [← nodup_append_singleton h.ids, ← hids]
  exact ⟨fun h' => h'.ids, fun hn => ⟨hn, h.locations⟩⟩

theorem distinct_record {rt : SchedulerRuntime} (h : Distinct rt.cluster) (d : DeploymentInfo)
    (target : ServerInfo) : Distinct (rt.record d target).cluster ↔
      ∀ i, rt.cluster.instances.lookup d.id = some i → target.id ∉ i.servers.map (·.id) := by
  have hlook := fun id => Cluster.lookup_insertInstance rt.cluster d [target] id
  have hnew : ∀ i, rt.cluster.instances.lookup d.id = some i →
      (((i.servers ++ [target]).map (·.id)).Nodup ↔ target.id ∉ i.servers.map (·.id)) := by
    intro i hi
    rw [List.map_append]
    exact nodup_append_singleton (h.locations d.id i hi)
  constructor
  · intro h' i hi
    have hn := h'.locations d.id _ ((hlook d.id).trans (if_pos rfl))
    rw [hi] at hn
    exact (hnew i hi).mp hn
  · intro hk
    refine ⟨h.ids, fun id i hi => ?_⟩
    have hi' := (hlook id).symm.trans hi
    split_ifs at hi' with hid
    · obtain rfl := Option.some.inj hi'
      rcases hold : rt.cluster.instances.lookup d.id with _ | old
      · exact List.nodup_singleton _
      · exact (hnew old hold).mpr (hk old hold)
    · exact h.locations id i hi'

theorem distinct_removeServer {c : Cluster} (h : Distinct c) (id : Uuid) :
    Distinct (c.removeServer id).2 := by
  refine ⟨?_, fun k i hi => ?_⟩
  · rw [Cluster.removeServer_ids]
    exact h.ids.erase id
  · rw [Cluster.removeServer_instances] at hi
    exact h.locations k i hi

/-- A cluster that is told to a new scheduler lists what the saved one does. -/
theorem Distinct.withGroup {c : Cluster} (h : Distinct c) (group : GroupInfo) :
    Distinct { c with group := group } := ⟨h.ids, h.locations⟩

section Steps

variable [Crates]

theorem distinct_section {rt : SchedulerRuntime} {t : Task} {w : Told}
    {o : Outcome SchedulerRuntime Task} (h : Distinct rt.cluster)
    (ho : sectionBody rt t w = some o) : Distinct o.shared.cluster ↔ t.KeepsDistinct rt := by
  rcases sectionBody_shared ho with ⟨server, rfl, rfl⟩ | ⟨stats, rfl, rfl⟩ | ⟨d, target, rfl, rfl⟩ |
    ⟨id, rfl, rfl⟩ | ⟨hw, hsh⟩
  · exact distinct_push h server
  · exact iff_of_true ⟨h.ids, h.locations⟩ trivial
  · exact distinct_record h d target
  · exact iff_of_true (distinct_removeServer h id) trivial
  · rw [hsh]
    refine iff_of_true h ?_
    cases t with
    | pushServer server => cases hw
    | record d target => cases hw
    | _ => trivial

theorem distinct_astep {sys sys' : SchedulerState} {a : Act Call Told}
    (h : Distinct sys.shared.cluster) (hs : schedulerTasks.astep sys a = some sys') :
    Distinct sys'.shared.cluster ↔ DistinctStep sys a := by
  refine (TaskSystem.astep_keeps_iff (P := fun rt => Distinct rt.cluster)
    (fun _ _ _ _ hd ho => distinct_section hd ho) h hs).trans ?_
  rcases a with r | ⟨i, w⟩ | ⟨i, w⟩ | i
  all_goals exact Iff.rfl

/-- **The servers after a step of the tasks**: one is appended, or some are left. -/
theorem servers_astep {sys sys' : SchedulerState} {a : Act Call Told}
    (hs : schedulerTasks.astep sys a = some sys') :
    (∃ server, pushed sys a = some server ∧
      sys'.shared.cluster.servers = sys.shared.cluster.servers ++ [server]) ∨
    (pushed sys a = none ∧ sys'.shared.cluster.servers.Sublist sys.shared.cluster.servers) := by
  rcases TaskSystem.astep_cases hs with ⟨r, t, rfl, -, rfl⟩ | ⟨i, w, t, o, rfl, ht, -, ho, rfl⟩ |
    ⟨i, w, t, t', rfl, -, -, -, rfl⟩ | ⟨i, rfl, rfl⟩
  · exact Or.inr ⟨rfl, List.Sublist.refl _⟩
  · rcases sectionBody_shared ho with ⟨server, rfl, rfl⟩ | ⟨stats, rfl, rfl⟩ |
      ⟨d, target, rfl, rfl⟩ | ⟨id, rfl, rfl⟩ | ⟨hw, hsh⟩
    · exact Or.inl ⟨server, by simp [pushed, ht], rfl⟩
    · exact Or.inr ⟨by simp [pushed, ht], List.Sublist.refl _⟩
    · exact Or.inr ⟨by simp [pushed, ht], List.Sublist.refl _⟩
    · refine Or.inr ⟨by simp [pushed, ht], ?_⟩
      have hsub : (sys.shared.cluster.removeServer id).2.servers.Sublist
          sys.shared.cluster.servers := by
        rw [Cluster.removeServer_servers]
        exact List.eraseP_sublist
      exact hsub
    · refine Or.inr ⟨?_, ?_⟩
      · cases t with
        | pushServer server => cases hw
        | _ => simp [pushed, ht]
      · dsimp only
        rw [hsh]
  · exact Or.inr ⟨rfl, List.Sublist.refl _⟩
  · exact Or.inr ⟨rfl, List.Sublist.refl _⟩

end Steps

/-! ### The net -/

/-- Every scheduler lists each id once, with the address of its last join, and has each location of
a deployment once. -/
structure Net.Membership (s : Net) : Prop where
  distinct : ∀ addr sys, s.schedulers addr = some sys → Distinct sys.shared.cluster
  addresses : ∀ addr sys, s.schedulers addr = some sys → ∀ srv ∈ sys.shared.cluster.servers,
    s.joined srv.id = some srv.addr

/-- The schedulers at other addresses list the id with the same address, if at all. -/
def Net.Agrees (s : Net) (addr : String) (server : ServerInfo) : Prop :=
  ∀ other sys, other ≠ addr → s.schedulers other = some sys → ∀ srv ∈ sys.shared.cluster.servers,
    srv.id = server.id → srv.addr = server.addr

/-- A join is of an id that is not listed, a placement is on a server that does not host the
deployment, and a cluster that is handed over has the addresses of the last joins. -/
def MapStep (s : Net) : NetAct → Prop
  | .serve addr act => ∀ sys, s.schedulers addr = some sys →
      DistinctStep sys act ∧ ∀ server, pushed sys act = some server → s.Agrees addr server
  | .boot server => s.Agrees server.addr server
  | .receive k => ∀ x cluster, s.inbox[k]? = some x → x.command = .becomeScheduler cluster →
      ∀ srv ∈ cluster.servers, s.joined srv.id = some srv.addr
  | _ => True

section Runs

variable [Crates]

/-- What is saved, or on its way to a new scheduler, lists everything once. -/
structure SavedDistinct (s : Net) : Prop where
  seats : ∀ seat ∈ s.seats, ∀ state cluster, seat.reporter.lastClusterState = some state →
    Cluster.tryFrom state = .ok cluster → Distinct cluster
  inbox : ∀ x ∈ s.inbox, ∀ cluster, x.command = .becomeScheduler cluster → Distinct cluster

theorem savedDistinct_step {s s' : Net} {a : NetAct} (h : SavedDistinct s) (hm : s.Membership)
    (hs : s.step a = some s') : SavedDistinct s' := by
  refine ⟨fun seat hseat state cluster hl hc => ?_, fun x hx cluster hcl => ?_⟩
  · rcases Net.seat_cases hs hseat with hold | ⟨server, scheduler, rfl⟩ |
      ⟨old, hold, sys, metrics, it, rt, hsys, rfl, hit, rfl⟩
    · exact h.seats seat hold state cluster hl hc
    · simp [MetricsReporter.new] at hl
    · have hsys' := hm.distinct _ sys hsys
      dsimp only at hl
      rcases putCluster_cases old.reporter
        (sys.shared.insertStats ⟨old.reporter.server, [metrics]⟩).cluster it with hp | ⟨hp, -⟩
      · rw [hp] at hl
        obtain rfl := Option.some.inj hl
        rw [Cluster.tryFrom_into hit] at hc
        obtain rfl := Except.ok.inj hc
        exact ⟨hsys'.ids, hsys'.locations⟩
      · rw [hp] at hl
        exact h.seats old hold state cluster hl hc
  · rcases Net.sent_cases hs hx with hold | ⟨seat, hseat, command, hfail, rfl⟩
    · exact h.inbox x hold cluster hcl
    · dsimp only at hcl
      rw [hcl] at hfail
      obtain ⟨state, saved, next, hl, hdec, rfl, -⟩ := failover_becomes hfail
      have hsaved := h.seats seat hseat state saved hl hdec
      exact (distinct_removeServer hsaved _).withGroup _

end Runs

theorem agrees_of_join {s : Net} {addr : String} {sys' : SchedulerState} {server : ServerInfo}
    (h : ((s.setScheduler addr (some sys')).join server).Membership) : s.Agrees addr server := by
  intro other sys hne hother srv hsrv hid
  have hlive : ((s.setScheduler addr (some sys')).join server).schedulers other = some sys := by
    rw [Net.join_schedulers, Net.setScheduler_schedulers, if_neg hne]
    exact hother
  have haddr := h.addresses other sys hlive srv hsrv
  rw [Net.join_joined, if_pos hid] at haddr
  exact (Option.some.inj haddr).symm

/-- A server joins one scheduler, and the others list its id with the same address. -/
theorem membership_join {s : Net} (h : s.Membership) {addr : String} {sys' : SchedulerState}
    {server : ServerInfo} (hd : Distinct sys'.shared.cluster)
    (hservers : ∀ srv ∈ sys'.shared.cluster.servers, srv = server ∨
      (srv.id ≠ server.id ∧ s.joined srv.id = some srv.addr))
    (hagree : s.Agrees addr server) :
    ((s.setScheduler addr (some sys')).join server).Membership := by
  refine ⟨fun other sys hother => ?_, fun other sys hother srv hsrv => ?_⟩
  · rw [Net.join_schedulers, Net.setScheduler_schedulers] at hother
    split_ifs at hother with ho
    · obtain rfl := Option.some.inj hother
      exact hd
    · exact h.distinct other sys hother
  · rw [Net.join_schedulers, Net.setScheduler_schedulers] at hother
    rw [Net.join_joined]
    split_ifs at hother with ho
    · obtain rfl := Option.some.inj hother
      rcases hservers srv hsrv with rfl | ⟨hne, hj⟩
      · rw [if_pos rfl]
      · rw [if_neg hne]
        exact hj
    · split_ifs with hid
      · rw [hagree other sys ho hother srv hsrv hid]
      · exact h.addresses other sys hother srv hsrv

/-- Whoever is not replaced stays as it is. -/
theorem membership_set {s : Net} (h : s.Membership) {addr : String} {sys' : SchedulerState} :
    (s.setScheduler addr (some sys')).Membership ↔ Distinct sys'.shared.cluster ∧
      ∀ srv ∈ sys'.shared.cluster.servers, s.joined srv.id = some srv.addr := by
  have hself : (s.setScheduler addr (some sys')).schedulers addr = some sys' := by
    rw [Net.setScheduler_schedulers, if_pos rfl]
  constructor
  · intro h'
    exact ⟨h'.distinct addr sys' hself, h'.addresses addr sys' hself⟩
  · rintro ⟨hd, ha⟩
    refine ⟨fun other sys hother => ?_, fun other sys hother => ?_⟩
    · rw [Net.setScheduler_schedulers] at hother
      split_ifs at hother
      · obtain rfl := Option.some.inj hother
        exact hd
      · exact h.distinct other sys hother
    · rw [Net.setScheduler_schedulers] at hother
      split_ifs at hother
      · obtain rfl := Option.some.inj hother
        exact ha
      · exact h.addresses other sys hother

theorem membership_stop {s : Net} (h : s.Membership) (addr : String) : (s.stop addr).Membership :=
  ⟨fun other sys hother => h.distinct other sys (Net.live_stop hother).2,
    fun other sys hother => h.addresses other sys (Net.live_stop hother).2⟩

theorem agrees_stop {s : Net} {server : ServerInfo} :
    (s.stop server.addr).Agrees server.addr server ↔ s.Agrees server.addr server := by
  constructor
  · intro h other sys hne hother
    refine h other sys hne ?_
    have hstop : (s.setScheduler server.addr none).schedulers other = some sys := by
      rw [Net.setScheduler_schedulers, if_neg hne]
      exact hother
    exact hstop
  · intro h other sys hne hother
    exact h other sys hne (Net.live_stop hother).2

/-- Membership is about the schedulers and the joins. -/
theorem membership_with (s : Net) (seats : List Seat) (inbox : List Sent) :
    Net.Membership { s with seats := seats, inbox := inbox } ↔ s.Membership :=
  ⟨fun h => ⟨h.distinct, h.addresses⟩, fun h => ⟨h.distinct, h.addresses⟩⟩

section Steps

variable [Crates]

/-- **A step of the tasks** keeps the membership exactly when it adds nothing that is there, and the
address of a server that joins is the one other schedulers have. -/
theorem membership_serve {s : Net} (h : s.Membership) {addr : String} {sys sys' : SchedulerState}
    {act : Act Call Told} (hsys : s.schedulers addr = some sys)
    (hstep : schedulerTasks.astep sys act = some sys') :
    (s.served addr sys' (pushed sys act)).Membership ↔
      DistinctStep sys act ∧ ∀ server, pushed sys act = some server → s.Agrees addr server := by
  have hdistinct := distinct_astep (h.distinct addr sys hsys) hstep
  rcases servers_astep hstep with ⟨server, hpush, hservers⟩ | ⟨hpush, hsub⟩
  · rw [hpush]
    constructor
    · intro h'
      refine ⟨hdistinct.mp (h'.distinct addr sys' (by simp [Net.setScheduler])), ?_⟩
      intro server' he
      obtain rfl := Option.some.inj he
      exact agrees_of_join h'
    · rintro ⟨hd, hagree⟩
      have hd' := hdistinct.mpr hd
      refine membership_join h hd' (fun srv hsrv => ?_) (hagree server rfl)
      have hn := hd'.ids
      unfold Cluster.ids at hn
      rw [hservers, List.map_append] at hn
      have hnew : server.id ∉ sys.shared.cluster.ids :=
        (nodup_append_singleton (h.distinct addr sys hsys).ids).mp hn
      rw [hservers] at hsrv
      rcases List.mem_append.mp hsrv with hsrv | hsrv
      · refine Or.inr ⟨fun he => hnew ?_, h.addresses addr sys hsys srv hsrv⟩
        exact Cluster.mem_ids.mpr ⟨srv, hsrv, he⟩
      · exact Or.inl (List.mem_singleton.mp hsrv)
  · rw [hpush]
    refine (membership_set h).trans ?_
    rw [hdistinct]
    constructor
    · rintro ⟨hd, -⟩
      exact ⟨hd, fun server he => by cases he⟩
    · rintro ⟨hd, -⟩
      exact ⟨hd, fun srv hsrv => h.addresses addr sys hsys srv (hsub.subset hsrv)⟩

theorem membership_step {s s' : Net} {a : NetAct} (hsaved : SavedDistinct s) (h : s.Membership)
    (hs : s.step a = some s') : s'.Membership ↔ MapStep s a := by
  rcases Net.step_cases hs with ⟨addr, act, sys, sys', rfl, hsys, hstep, rfl⟩ |
    ⟨server, scheduler, rfl, rfl⟩ |
    ⟨i, metrics, it, seat, sys, rt, rfl, hseat, hsys, rfl, hit, rfl⟩ |
    ⟨i, seat, rfl, hseat, ⟨command, -, rfl⟩ | rfl⟩ |
    ⟨k, x, rfl, hx, ⟨cluster, hc, rfl⟩ | ⟨hc, rfl⟩⟩ | ⟨server, rfl, rfl⟩ | ⟨addr, rfl, rfl⟩
  · rw [membership_serve h hsys hstep]
    constructor
    · intro hserve sys₁ hsys₁
      rw [hsys] at hsys₁
      obtain rfl := Option.some.inj hsys₁
      exact hserve
    · intro hmap
      exact hmap sys hsys
  · exact iff_of_true ((membership_with s _ _).mpr h) trivial
  · refine iff_of_true ((membership_with (s.setScheduler _ _) _ _).mpr ?_) trivial
    rw [membership_set h]
    have hold := h.distinct _ sys hsys
    exact ⟨⟨hold.ids, hold.locations⟩, h.addresses _ sys hsys⟩
  · exact iff_of_true ((membership_with s _ _).mpr h) trivial
  · exact iff_of_true ((membership_with s _ _).mpr h) trivial
  · refine (membership_with (s.setScheduler x.server.addr _) _ _).trans ?_
    rw [membership_set h]
    constructor
    · rintro ⟨-, ha⟩ x' cluster' hx' hc'
      rw [hx] at hx'
      obtain rfl := Option.some.inj hx'
      rw [hc] at hc'
      cases hc'
      exact ha
    · intro hmap
      exact ⟨hsaved.inbox x (List.mem_of_getElem? hx) cluster hc, hmap x cluster hx hc⟩
  · refine iff_of_true ((membership_with s _ _).mpr h) ?_
    intro x' cluster' hx' hc'
    rw [hx] at hx'
    obtain rfl := Option.some.inj hx'
    exact absurd hc' (hc cluster')
  · constructor
    · intro h'
      exact agrees_stop.mp (agrees_of_join h')
    · intro hagree
      refine membership_join (membership_stop h server.addr) (distinct_new server)
        (fun srv hsrv => ?_) (agrees_stop.mpr hagree)
      exact Or.inl (List.mem_singleton.mp hsrv)
  · exact iff_of_true (membership_stop h addr) trivial

/-- **Membership is a map**, throughout a run, exactly when every join is of an id that is not
listed (and has no other address elsewhere), every placement is on a server that does not host the
deployment yet, and every cluster that is handed over lists the addresses of the last joins. -/
theorem membership_always_iff (as : List NetAct) :
    Always Net.step Net.Membership Net.empty as ↔ EachStep Net.step MapStep Net.empty as := by
  have hsaved : SavedDistinct Net.empty := by
    refine ⟨fun seat hseat => ?_, fun x hx => ?_⟩
    · cases hseat
    · cases hx
  have h : Net.empty.Membership := by
    refine ⟨fun addr sys hl => ?_, fun addr sys hl => ?_⟩
    · cases hl
    · cases hl
  exact always_iff_eachStep (fun _ _ _ hsaved h hs _ => savedDistinct_step hsaved h hs)
    (fun _ _ _ hsaved h hs => membership_step hsaved h hs) hsaved h

end Steps

/-! ### A survivor that joins the successor -/

section Rejoin

attribute [local instance] Crates.hyphenated

/-- Two members report, the first one takes over, and the other one joins it. -/
def rejoined : List NetAct :=
  .boot schedulerServer :: (joins memberServer 0 ++ (joins thirdServer 1 ++
    [.report 0 idleWindow [], .crash schedulerServer.addr, .failover 0, .receive 0,
      .serve memberServer.addr (.start (.join ⟨some thirdServer.into⟩)),
      .serve memberServer.addr (.enter 0 .nothing)]))

theorem rejoined_twice : ¬ ∀ as : List NetAct, Always Net.step Net.Membership Net.empty as := by
  intro h
  have hrun : (run Net.step Net.empty rejoined).map (fun s => (s.schedulers memberServer.addr).map
      fun sys => sys.shared.cluster.ids) = some (some [2, 3, 3]) := by decide +kernel
  obtain ⟨s, hs, hl⟩ := Option.map_eq_some_iff.mp hrun
  obtain ⟨sys, hsys, hids⟩ := Option.map_eq_some_iff.mp hl
  have hn := ((h rejoined rejoined s List.prefix_rfl hs).distinct memberServer.addr sys hsys).ids
  rw [hids] at hn
  exact absurd hn (by decide)

end Rejoin

end Laqista
