import Laqista.Server.Daemon
import Mathlib.Logic.Function.Basic

/-! # Placing an instance

A `Fleet` is a scheduler with the daemons at all addresses, and the spawn requests and responses
between them. A task of the scheduler that waits for a reply sends one request; requests and
responses arrive in any order or get lost, and whatever goes wrong meanwhile is an answer that the
task may get at any time, except success, which only a response brings. Sections are atomic, in any
order, as in `Laqista.Lib.Tasks`. `Fleet.placed` says which calls have been recorded, for
specifications.

`placements_agree`: a location that the scheduler records has the instance, in every state of every
run; what is stored comes from the recorded calls only; and a call that has failed is never
recorded. -/

namespace Laqista

open Laqista.Proto Laqista.Lib Laqista.Lib.Runs Laqista.Lib.Tasks

structure Fleet where
  scheduler : Atomic SchedulerRuntime Task
  daemons : String → Atomic Inner DaemonTask
  /-- The tasks that have sent their request. -/
  sent : List ℕ
  requests : List SpawnCall
  responses : List (SpawnCall × Except Status SpawnResponse)
  /-- The calls whose placement was recorded, in this order. -/
  placed : List SpawnCall

inductive FleetAct where
  /-- A step of the scheduler's tasks, other than a successful reply. -/
  | serve (act : Act Call Told)
  | send (i : ℕ)
  | loseRequest (k : ℕ)
  | receive (k : ℕ)
  /-- A step of the tasks of a daemon, other than an arrival. -/
  | daemon (addr : String) (act : Act DaemonCall DaemonTold)
  | respond (addr : String) (j : ℕ)
  | loseResponse (k : ℕ)
  | deliver (k : ℕ)

/-- The request arrives. -/
def arrives : Act DaemonCall DaemonTold → Bool
  | .start (.spawn _ _) => true
  | _ => false

/-- What the client makes of a response. -/
def spawnResult : Except Status SpawnResponse → Result Bool
  | .ok response => .ok response.success
  | .error status => .error (.fromStatus status)

namespace Fleet

def setDaemon (s : Fleet) (addr : String) (sys : Atomic Inner DaemonTask) : Fleet :=
  { s with daemons := Function.update s.daemons addr sys }

/-- The scheduler and the databases at the start. -/
def start (rt : SchedulerRuntime) (databases : String → Inner) : Fleet :=
  ⟨⟨rt, []⟩, fun addr => ⟨databases addr, []⟩, [], [], [], []⟩

variable [Crates]

def step (s : Fleet) : FleetAct → Option Fleet
  | .serve act =>
    if succeeds s.scheduler act then none
    else (schedulerTasks.astep s.scheduler act).map fun sys =>
      { s with scheduler := sys, placed := s.placed ++ (recorded s.scheduler act).toList }
  | .send i =>
    match waiting s.scheduler i with
    | some call =>
      if i ∈ s.sent then none
      else some { s with sent := i :: s.sent, requests := s.requests ++ [call] }
    | none => none
  | .loseRequest k => some { s with requests := s.requests.eraseIdx k }
  | .receive k =>
    match s.requests[k]? with
    | some call =>
      (daemonTasks.astep (s.daemons call.target.addr)
        (.start (.spawn call (spawnRequest call.deployment)))).map fun sys =>
          { s.setDaemon call.target.addr sys with requests := s.requests.eraseIdx k }
    | none => none
  | .daemon addr act =>
    if arrives act then none
    else (daemonTasks.astep (s.daemons addr) act).map fun sys => s.setDaemon addr sys
  | .respond addr j =>
    match (s.daemons addr).tasks[j]? with
    | some (.reply call result) =>
      (daemonTasks.astep (s.daemons addr) (.await j .nothing)).map fun sys =>
        { s.setDaemon addr sys with responses := s.responses ++ [(call, result)] }
    | _ => none
  | .loseResponse k => some { s with responses := s.responses.eraseIdx k }
  | .deliver k =>
    match s.responses[k]? with
    | some (call, result) =>
      if waiting s.scheduler call.task = some call then
        (schedulerTasks.astep s.scheduler
          (.await call.task (.answer (spawnResult result)))).map fun sys =>
            { s with scheduler := sys, responses := s.responses.eraseIdx k }
      else none
    | none => none

/-! ### What a step can do -/

variable {s s' : Fleet} {a : FleetAct}

/-- **What a step can do**: a step of the scheduler, a response that it gets, a step of a daemon, or
nothing but messages that are sent or lost. -/
theorem step_cases (h : s.step a = some s') :
    (∃ act sys, a = .serve act ∧ succeeds s.scheduler act = false ∧
      schedulerTasks.astep s.scheduler act = some sys ∧
      s' = { s with scheduler := sys, placed := s.placed ++ (recorded s.scheduler act).toList }) ∨
    (∃ k call result sys, a = .deliver k ∧ s.responses[k]? = some (call, result) ∧
      waiting s.scheduler call.task = some call ∧
      schedulerTasks.astep s.scheduler (.await call.task (.answer (spawnResult result))) =
        some sys ∧
      s' = { s with scheduler := sys, responses := s.responses.eraseIdx k }) ∨
    (∃ addr act sys, (∀ act', a ≠ .serve act') ∧ daemonTasks.astep (s.daemons addr) act = some sys ∧
      (∀ r, act = .start r → r.At addr) ∧ s'.scheduler = s.scheduler ∧ s'.placed = s.placed ∧
      s'.daemons = Function.update s.daemons addr sys ∧ ∀ x ∈ s'.responses,
        x ∈ s.responses ∨ .reply x.1 x.2 ∈ (s.daemons addr).tasks) ∨
    ((∀ act', a ≠ .serve act') ∧ s'.scheduler = s.scheduler ∧ s'.placed = s.placed ∧
      s'.daemons = s.daemons ∧ ∀ x ∈ s'.responses, x ∈ s.responses) := by
  rcases a with act | i | k | k | ⟨addr, act⟩ | ⟨addr, j⟩ | k | k
  · left
    simp only [step] at h
    split_ifs at h with hsucceeds
    obtain ⟨sys, hsys, rfl⟩ := Option.map_eq_some_iff.mp h
    exact ⟨act, sys, rfl, by simpa using hsucceeds, hsys, rfl⟩
  · right; right; right
    simp only [step] at h
    split at h
    · split_ifs at h
      obtain rfl := Option.some.inj h
      exact ⟨by simp, rfl, rfl, rfl, fun _ hx => hx⟩
    · simp at h
  · right; right; right
    obtain rfl := Option.some.inj h
    exact ⟨by simp, rfl, rfl, rfl, fun _ hx => hx⟩
  · right; right; left
    simp only [step] at h
    split at h
    · next call hcall =>
      obtain ⟨sys, hsys, rfl⟩ := Option.map_eq_some_iff.mp h
      refine ⟨call.target.addr, _, sys, by simp, hsys, ?_, rfl, rfl, rfl, fun _ hx => .inl hx⟩
      intro r hr
      obtain rfl := Act.start.inj hr
      exact ⟨rfl, rfl⟩
    · simp at h
  · right; right; left
    simp only [step] at h
    split_ifs at h with harrives
    obtain ⟨sys, hsys, rfl⟩ := Option.map_eq_some_iff.mp h
    refine ⟨addr, act, sys, by simp, hsys, ?_, rfl, rfl, rfl, fun _ hx => .inl hx⟩
    rintro (⟨call, r⟩ | info) rfl
    · exact absurd rfl harrives
    · trivial
  · right; right; left
    simp only [step] at h
    split at h
    · next call result hreply =>
      obtain ⟨sys, hsys, rfl⟩ := Option.map_eq_some_iff.mp h
      refine ⟨addr, _, sys, by simp, hsys, by simp, rfl, rfl, rfl, fun x hx => ?_⟩
      rcases List.mem_append.mp hx with hx | hx
      · exact .inl hx
      · rw [List.mem_singleton.mp hx]
        exact .inr (List.mem_of_getElem? hreply)
    · simp at h
  · right; right; right
    obtain rfl := Option.some.inj h
    exact ⟨by simp, rfl, rfl, rfl, fun _ hx => List.mem_of_mem_eraseIdx hx⟩
  · right; left
    simp only [step] at h
    split at h
    · next call result hk =>
      split_ifs at h with hwaiting
      obtain ⟨sys, hsys, rfl⟩ := Option.map_eq_some_iff.mp h
      exact ⟨k, call, result, sys, rfl, hk, hwaiting, hsys, rfl⟩
    · simp at h

/-! ### What is recorded is there -/

/-- The database at the address has the application and the instance. -/
def Hosts (s : Fleet) (addr : String) (id : Uuid) : Prop := (s.daemons addr).shared.Hosts id

/-- Whoever says that an instance is there is right: the tasks of a daemon that are past it, a
response, a task that is about to record it, and the cluster. -/
structure Agrees (s : Fleet) : Prop where
  daemons : ∀ addr, ∀ t ∈ (s.daemons addr).tasks, t.Justified addr (s.daemons addr).shared
  responses : ∀ call response, (call, .ok response) ∈ s.responses →
    s.Hosts call.target.addr call.deployment.id
  recording : ∀ d target, .record d target ∈ s.scheduler.tasks → s.Hosts target.addr d.id
  locations : ∀ id server, s.scheduler.shared.cluster.Locates id server → s.Hosts server.addr id

/-- A step of the scheduler, if a success that it is told of is one. -/
theorem agrees_scheduler {act : Act Call Told} {sys : Atomic SchedulerRuntime Task} (h : Agrees s)
    (hs : schedulerTasks.astep s.scheduler act = some sys)
    (hsuccess : ∀ i d target, act = .await i (.answer (.ok true)) →
      s.scheduler.tasks[i]? = some (.spawn d target) → s.Hosts target.addr d.id) :
    (∀ d target, .record d target ∈ sys.tasks → s.Hosts target.addr d.id) ∧
      ∀ id server, sys.shared.cluster.Locates id server → s.Hosts server.addr id := by
  constructor
  · intro d target hd
    rcases astep_recording hs hd with hd | ⟨i, hact, hi⟩
    · exact h.recording d target hd
    · exact hsuccess i d target hact hi
  · rintro id server hlocates
    rcases astep_recorded hs with ⟨-, -, hsame⟩ | ⟨call, -, htask, -, -, hshared⟩
    · unfold Cluster.Locates at hlocates
      rw [hsame] at hlocates
      exact h.locations id server hlocates
    · rw [hshared] at hlocates
      rcases locates_record hlocates with hold | ⟨rfl, rfl⟩
      · exact h.locations id server hold
      · exact h.recording _ _ (List.mem_of_getElem? htask)

/-- **What every step keeps.** -/
theorem agrees_step (h : Agrees s) (hs : s.step a = some s') : Agrees s' := by
  rcases step_cases hs with ⟨act, sys, -, hsucceeds, hact, rfl⟩ |
    ⟨k, call, result, sys, -, hk, hwaiting, hact, rfl⟩ |
    ⟨addr, act, sys, -, hact, hr, hsched, -, hdaemons, hresp⟩ | ⟨-, hsched, -, hdaemons, hresp⟩
  · obtain ⟨hrecording, hlocations⟩ := agrees_scheduler h hact fun i d target hi ht => by
      subst hi
      simp [succeeds, waiting, ht] at hsucceeds
    exact ⟨h.daemons, h.responses, hrecording, hlocations⟩
  · obtain ⟨hrecording, hlocations⟩ := agrees_scheduler h hact fun i d target hi ht => by
      obtain ⟨rfl, hanswer⟩ := Act.await.inj hi
      obtain ⟨-, htask⟩ := waiting_eq_some.mp hwaiting
      rw [ht] at htask
      obtain ⟨rfl, rfl⟩ := Task.spawn.inj (Option.some.inj htask)
      rcases result with e | response
      · simp [spawnResult] at hanswer
      · exact h.responses call response (List.mem_of_getElem? hk)
    refine ⟨h.daemons, fun call response hc => ?_, hrecording, hlocations⟩
    exact h.responses call response (List.mem_of_mem_eraseIdx hc)
  · obtain ⟨hgrows, hjustified⟩ := daemon_step (h.daemons addr) hr hact
    -- what was there is still there
    have hhosts : ∀ at' id, s.Hosts at' id → s'.Hosts at' id := by
      intro at' id hid
      unfold Hosts
      rw [hdaemons]
      by_cases hat : at' = addr
      · subst hat
        rw [Function.update_self]
        exact hgrows.hosts hid
      · rw [Function.update_of_ne hat]
        exact hid
    refine ⟨?_, ?_, ?_, ?_⟩
    · intro at'
      rw [hdaemons]
      by_cases hat : at' = addr
      · subst hat
        rw [Function.update_self]
        exact hjustified
      · rw [Function.update_of_ne hat]
        exact h.daemons at'
    · intro call response hc
      rcases hresp _ hc with hc | hc
      · exact hhosts _ _ (h.responses call response hc)
      · obtain ⟨haddr, hid⟩ := h.daemons addr _ hc
        refine hhosts _ _ ?_
        rw [haddr]
        exact hid
    · rw [hsched]
      exact fun d target hd => hhosts _ _ (h.recording d target hd)
    · rw [hsched]
      exact fun id server hl => hhosts _ _ (h.locations id server hl)
  · have hhosts : s'.Hosts = s.Hosts := by
      unfold Hosts
      rw [hdaemons]
    refine ⟨?_, ?_, ?_, ?_⟩
    · rw [hdaemons]
      exact h.daemons
    · rw [hhosts]
      exact fun call response hc => h.responses call response (hresp _ hc)
    · rw [hsched, hhosts]
      exact h.recording
    · rw [hsched, hhosts]
      exact h.locations

/-! ### What is stored was recorded -/

/-- The scheduler stores what the recorded calls have placed, and their tasks have ended. -/
structure Logged (rt : SchedulerRuntime) (s : Fleet) : Prop where
  stored : SameStored s.scheduler.shared (recordAll rt s.placed)
  done : ∀ call ∈ s.placed, s.scheduler.tasks[call.task]? = some .done

theorem logged_step {rt : SchedulerRuntime} (h : Logged rt s) (hs : s.step a = some s') :
    Logged rt s' := by
  rcases step_cases hs with ⟨act, sys, -, -, hact, rfl⟩ |
    ⟨k, call, result, sys, -, -, -, hact, rfl⟩ |
    ⟨addr, act, sys, -, -, -, hsched, hplaced, -, -⟩ | ⟨-, hsched, hplaced, -, -⟩
  · have hdone : ∀ call ∈ s.placed, sys.tasks[call.task]? = some .done :=
      fun call hc => astep_done hact (h.done call hc)
    rcases astep_recorded hact with ⟨hnone, hsame⟩ | ⟨call, hsome, -, hend, -, hshared⟩
    · rw [hnone, Option.toList_none, List.append_nil]
      exact ⟨hsame.trans h.stored, hdone⟩
    · rw [hsome, Option.toList_some]
      refine ⟨?_, fun c hc => ?_⟩
      · rw [recordAll_append, hshared]
        exact h.stored.record _ _
      · rcases List.mem_append.mp hc with hc | hc
        · exact hdone c hc
        · rw [List.mem_singleton.mp hc]
          exact hend
  · rcases astep_recorded hact with ⟨-, hsame⟩ | ⟨_, hsome, -⟩
    · exact ⟨hsame.trans h.stored, fun c hc => astep_done hact (h.done c hc)⟩
    · simp [recorded] at hsome
  · refine ⟨?_, ?_⟩
    · rw [hsched, hplaced]
      exact h.stored
    · rw [hsched, hplaced]
      exact h.done
  · refine ⟨?_, ?_⟩
    · rw [hsched, hplaced]
      exact h.stored
    · rw [hsched, hplaced]
      exact h.done

/-- A step in which a deployment or a scale-out fails stores nothing. -/
theorem step_failed (hs : s.step a = some s') {i : ℕ} {t : Task}
    (hi : s.scheduler.tasks[i]? = some t) (ht : t.unplaced = true)
    (hi' : s'.scheduler.tasks[i]? = some .done) :
    SameStored s'.scheduler.shared s.scheduler.shared ∧ s'.placed = s.placed := by
  rcases step_cases hs with ⟨act, sys, -, -, hact, rfl⟩ |
    ⟨k, call, result, sys, -, -, -, hact, rfl⟩ |
    ⟨addr, act, sys, -, -, -, hsched, hplaced, -, -⟩ | ⟨-, hsched, hplaced, -, -⟩
  · rcases astep_recorded hact with ⟨hnone, hsame⟩ | ⟨call, -, htask, -, hothers, -⟩
    · rw [hnone, Option.toList_none, List.append_nil]
      exact ⟨hsame, rfl⟩
    · -- the step of another task leaves this one where it is
      have hne : i ≠ call.task := by
        rintro rfl
        rw [hi] at htask
        obtain rfl := Option.some.inj htask
        simp [Task.unplaced] at ht
      have hstays := hothers i t hne hi
      rw [hi'] at hstays
      obtain rfl := Option.some.inj hstays
      simp [Task.unplaced] at ht
  · rcases astep_recorded hact with ⟨-, hsame⟩ | ⟨_, hsome, -⟩
    · exact ⟨hsame, rfl⟩
    · simp [recorded] at hsome
  · rw [hsched]
    exact ⟨⟨rfl, rfl⟩, hplaced⟩
  · rw [hsched]
    exact ⟨⟨rfl, rfl⟩, hplaced⟩

/-- A task that has ended without a placement records none. -/
theorem never_placed_step {i : ℕ} (h : s.scheduler.tasks[i]? = some .done ∧
    ∀ call ∈ s.placed, call.task ≠ i) (hs : s.step a = some s') :
    s'.scheduler.tasks[i]? = some .done ∧ ∀ call ∈ s'.placed, call.task ≠ i := by
  obtain ⟨hi, hplaced⟩ := h
  rcases step_cases hs with ⟨act, sys, -, -, hact, rfl⟩ |
    ⟨k, call, result, sys, -, -, -, hact, rfl⟩ |
    ⟨addr, act, sys, -, -, -, hsched, hsame, -, -⟩ | ⟨-, hsched, hsame, -, -⟩
  · refine ⟨astep_done hact hi, fun c hc => ?_⟩
    rcases List.mem_append.mp hc with hc | hc
    · exact hplaced c hc
    · rcases astep_recorded hact with ⟨hnone, -⟩ | ⟨call, hsome, htask, -⟩
      · rw [hnone] at hc
        simp at hc
      · rw [hsome, Option.toList_some] at hc
        rw [List.mem_singleton.mp hc]
        rintro rfl
        rw [hi] at htask
        simp at htask
  · exact ⟨astep_done hact hi, hplaced⟩
  · rw [hsched, hsame]
    exact ⟨hi, hplaced⟩
  · rw [hsched, hsame]
    exact ⟨hi, hplaced⟩

end Fleet

/-! ### Runs -/

section Runs

variable [Crates] {addr : Uuid → String} {rt : SchedulerRuntime} {databases : String → Inner}
  {as : List FleetAct} {s : Fleet}

/-- Servers call the scheduler with the address of their id. -/
def FleetAct.At (addr : Uuid → String) : FleetAct → Prop
  | serve (.start r) => r.At addr
  | _ => True

theorem fleet_at {s s' : Fleet} {a : FleetAct}
    (h : s.scheduler.shared.cluster.At addr ∧ ∀ t ∈ s.scheduler.tasks, t.At addr)
    (ha : a.At addr) (hs : s.step a = some s') :
    s'.scheduler.shared.cluster.At addr ∧ ∀ t ∈ s'.scheduler.tasks, t.At addr := by
  rcases Fleet.step_cases hs with ⟨act, sys, rfl, -, hact, rfl⟩ |
    ⟨k, call, result, sys, -, -, -, hact, rfl⟩ | ⟨_, _, _, -, -, -, hsched, -⟩ | ⟨-, hsched, -⟩
  · refine astep_at h ?_ hact
    rintro r rfl
    exact ha
  · exact astep_at h (by simp) hact
  · rw [hsched]
    exact h
  · rw [hsched]
    exact h

/-- **The scheduler and the daemons agree on what is placed.** In every state of every run, a server
that the cluster lists as a location of a deployment has the application and the instance in its
database; what the scheduler stores is what the recorded calls have placed; and a task that fails
on its way to a placement stores nothing, then or later. -/
theorem placements_agree (hinstances : rt.cluster.instances = .empty _) (haddr : rt.cluster.At addr)
    (hcalls : ∀ a ∈ as, a.At addr) (hrun : run Fleet.step (Fleet.start rt databases) as = some s) :
    (∀ id i, s.scheduler.shared.cluster.instances.lookup id = some i → ∀ server ∈ i.servers,
      (s.daemons (addr server.id)).shared.Hosts id) ∧
    SameStored s.scheduler.shared (recordAll rt s.placed) ∧
    ∀ i t a s', s.scheduler.tasks[i]? = some t → t.unplaced = true → s.step a = some s' →
      s'.scheduler.tasks[i]? = some .done →
      SameStored s'.scheduler.shared s.scheduler.shared ∧
      ∀ bs u, run Fleet.step s' bs = some u → ∀ call ∈ u.placed, call.task ≠ i := by
  have hnolocation : ∀ id server, ¬ rt.cluster.Locates id server := by
    rintro id server ⟨i, hi, -⟩
    rw [hinstances, Keyed.lookup_empty] at hi
    simp at hi
  have hagrees : s.Agrees := by
    refine run_invariant (I := Fleet.Agrees) (fun _ _ _ => Fleet.agrees_step) ?_ hrun
    exact ⟨fun _ _ ht => absurd ht (by simp [Fleet.start]), fun _ _ hc => absurd hc
      (by simp [Fleet.start]), fun _ _ hd => absurd hd (by simp [Fleet.start]),
      fun id server hl => absurd hl (hnolocation id server)⟩
  have hlogged : s.Logged rt :=
    run_invariant (I := Fleet.Logged rt) (fun _ _ _ => Fleet.logged_step)
      ⟨⟨rfl, rfl⟩, by simp [Fleet.start]⟩ hrun
  obtain ⟨hat, -⟩ : s.scheduler.shared.cluster.At addr ∧ ∀ t ∈ s.scheduler.tasks, t.At addr :=
    run_invariant_of (K := fun a => a.At addr) (fun _ _ _ ha h hs => fleet_at h ha hs)
      ⟨haddr, by simp [Fleet.start]⟩ hcalls hrun
  refine ⟨?_, hlogged.stored, ?_⟩
  · intro id i hi server hserver
    have hhosts := hagrees.locations id server ⟨i, hi, hserver⟩
    rw [hat.locations id server ⟨i, hi, hserver⟩] at hhosts
    exact hhosts
  · intro i t a s' hi ht hs hi'
    obtain ⟨hstored, hplaced⟩ := Fleet.step_failed hs hi ht hi'
    refine ⟨hstored, fun bs u hrest => ?_⟩
    have hnever : ∀ call ∈ s'.placed, call.task ≠ i := by
      rw [hplaced]
      rintro call hc rfl
      have hdone := hlogged.done call hc
      rw [hi] at hdone
      obtain rfl := Option.some.inj hdone
      simp [Task.unplaced] at ht
    exact (run_invariant (I := fun u : Fleet => u.scheduler.tasks[i]? = some .done ∧
      ∀ call ∈ u.placed, call.task ≠ i) (fun _ _ _ => Fleet.never_placed_step)
      ⟨hi', hnever⟩ hrest).2

end Runs

/-! ### A deployment -/

section Examples

attribute [local instance] Crates.hyphenated

def soleServer : ServerInfo := ⟨1, "http://127.0.0.1:50051"⟩

def downloaded : SavedDeployment :=
  ⟨⟨1700000120, 0, by decide, by decide⟩, ⟨0, Nat.two_pow_pos 256⟩⟩

/-- The only server, which is the scheduler, is asked to deploy, and spawns the instance. -/
def deployRun : List FleetAct :=
  [.serve (.start (.deploy ⟨"https://example.com/app.tgz", "app"⟩ 5)), .serve (.enter 0 .nothing),
    .serve (.await 0 (.answer (.ok true))), .serve (.enter 0 (.order [])), .send 0, .receive 0,
    .daemon soleServer.addr (.enter 0 .nothing),
    .daemon soleServer.addr (.await 0 (.saved (.ok downloaded))),
    .daemon soleServer.addr (.enter 0 .nothing), .daemon soleServer.addr (.enter 0 .nothing),
    .daemon soleServer.addr (.await 0 (.keepSent (.ok ()))), .respond soleServer.addr 0,
    .deliver 0, .serve (.enter 0 .nothing)]

theorem deployed_agrees : ∃ s, run Fleet.step
      (Fleet.start (.fromServer soleServer) fun _ => ⟨.empty _, []⟩) deployRun = some s ∧
    s.scheduler.shared.cluster.Locates 5 soleServer ∧
    (s.daemons soleServer.addr).shared.Hosts 5 := by
  have hrun : (run Fleet.step (Fleet.start (.fromServer soleServer) fun _ => ⟨.empty _, []⟩)
      deployRun).map (fun s => (s.scheduler.shared.cluster.instances.lookup 5).map (·.servers)) =
      some (some [soleServer]) := by
    decide +kernel
  obtain ⟨s, hs, hlookup⟩ := Option.map_eq_some_iff.mp hrun
  obtain ⟨i, hi, hservers⟩ := Option.map_eq_some_iff.mp hlookup
  have hmem : soleServer ∈ i.servers := by simp [hservers]
  have hat : (SchedulerRuntime.fromServer soleServer).cluster.At fun _ => soleServer.addr := by
    refine ⟨fun server h => ?_, fun id stats h => ?_, fun id server ⟨j, h, _⟩ => ?_⟩
    · rw [List.mem_singleton.mp h]
      rfl
    · cases h
    · cases h
  have hcalls : ∀ a ∈ deployRun, a.At fun _ => soleServer.addr := by
    simp [deployRun, FleetAct.At, Call.At]
  exact ⟨s, hs, ⟨i, hi, hmem⟩, (placements_agree rfl hat hcalls hs).1 5 i hi _ hmem⟩

end Examples
end Laqista
