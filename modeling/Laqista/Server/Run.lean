import Laqista.Server.State
import Laqista.Lib.Runs

/-! # The main loop of a server

`run_start` races the service of the current state against the channel of commands and goes on with
the command of the winner; the service future of a round is dropped at its end. The service starts a
reporter, and cancels it when `serve` has ended. A service that loses the race does not come to
that: its token is dropped, which does not cancel the reporter.

A run has at most one reporter at a time, one that reports to the current scheduler, exactly when
after each such loss no reporter is started and the scheduler stays the same
(`oneReporter_always_iff`); so it does if no command wins against a service that has started its
reporter (`oneReporter_of_served`). -/

namespace Laqista

open Laqista.Lib Laqista.Lib.Runs

/-- A reporter that was spawned, with the scheduler it reports to and its token. -/
structure Spawned where
  scheduler : ServerInfo
  cancelled : Bool
  deriving DecidableEq, Repr

/-- Where a round of the loop is. -/
inductive Phase where
  /-- `start_service` has not come to `start_reporter`. -/
  | starting
  /-- It has started the given reporter and serves. -/
  | serving (reporter : ℕ)
  /-- `run_start` has returned. -/
  | ended
  deriving DecidableEq, Repr

structure ServerRunner where
  state : DaemonState
  phase : Phase
  reporters : List Spawned
  deriving DecidableEq

/-- What happens next: the service goes on, or a command is received first. -/
inductive RunStep where
  | startReporter
  /-- `join_cluster` returns a group. -/
  | joined (group : GroupInfo)
  /-- `serve` returns. -/
  | served
  /-- The service ends with an error or a panic. -/
  | failed
  | received (command : Option StateCommand)

/-- The state after a command. -/
def StateCommand.apply (state : DaemonState) : StateCommand → DaemonState
  | keep => state
  | update new => new
  | becomeScheduler cluster => .authoritative (.new cluster)

/-- `CancellationToken::cancel`. -/
def Spawned.cancel (r : Spawned) : Spawned := { r with cancelled := true }

/-- `determine_state`. -/
def determineState (bootstrapAddr : Option String) (server : ServerInfo) : DaemonState :=
  match bootstrapAddr with
  | some addr => .joining addr
  | none => .authoritative (.fromServer server)

namespace ServerRunner

def start (state : DaemonState) : ServerRunner := ⟨state, .starting, []⟩

/-- The round ends with a command, and the next one starts. -/
def next (s : ServerRunner) (command : StateCommand) : ServerRunner :=
  { s with state := command.apply s.state, phase := .starting }

def step (s : ServerRunner) : RunStep → Option ServerRunner
  | .startReporter =>
    match s.phase, s.state.scheduler with
    | .starting, some scheduler => some
        { s with
          phase := .serving s.reporters.length
          reporters := s.reporters ++ [⟨scheduler, false⟩] }
    | _, _ => none
  | .joined group =>
    match s.phase, s.state with
    | .starting, .joining _ => some (s.next (.update (.running group)))
    | _, _ => none
  | .served =>
    match s.phase with
    | .serving i =>
      -- the new state of `start_running` and `start_authoritative` is the one they were called in
      some ({ s with reporters := s.reporters.modify i Spawned.cancel }.next (.update s.state))
    | _ => none
  | .failed => if s.phase = .ended then none else some { s with phase := .ended }
  | .received command =>
    if s.phase = .ended then none
    else match command with
      | some command => some (s.next command)
      | none => some { s with phase := .ended }

/-- The reporters that were spawned and not cancelled. -/
def alive (s : ServerRunner) : List Spawned := s.reporters.filter fun r => !r.cancelled

/-- At most one reporter is alive, and it reports to the scheduler of the current state. -/
structure OneReporter (s : ServerRunner) : Prop where
  one : s.alive.length ≤ 1
  target : ∀ r ∈ s.alive, s.state.scheduler = some r.scheduler

/-- A reporter is started when none is alive, and a command is received when none is alive unless
the scheduler stays the same. -/
def NoLeak (s : ServerRunner) : RunStep → Prop
  | .startReporter => s.alive = []
  | .received (some command) =>
    s.alive = [] ∨ (command.apply s.state).scheduler = s.state.scheduler
  | _ => True

/-- The reporter of a service that serves is the last one, and alive. -/
def Serving (s : ServerRunner) : Prop :=
  ∀ i, s.phase = .serving i → ∃ r, s.reporters[i]? = some r ∧ r.cancelled = false

/-! ### Steps -/

/-- **What a step can do.** -/
theorem step_cases {s s' : ServerRunner} {a : RunStep} (h : s.step a = some s') :
    (∃ scheduler, a = .startReporter ∧ s.phase = .starting ∧
      s.state.scheduler = some scheduler ∧ s' =
      { s with
        phase := .serving s.reporters.length
        reporters := s.reporters ++ [⟨scheduler, false⟩] }) ∨
    (∃ group addr, a = .joined group ∧ s.phase = .starting ∧ s.state = .joining addr ∧
      s' = s.next (.update (.running group))) ∨
    (∃ i, a = .served ∧ s.phase = .serving i ∧
      s' = { s with reporters := s.reporters.modify i Spawned.cancel }.next (.update s.state)) ∨
    ((a = .failed ∨ a = .received none) ∧ s' = { s with phase := .ended }) ∨
    (∃ command, a = .received (some command) ∧ s.phase ≠ .ended ∧ s' = s.next command) := by
  rcases a with _ | group | _ | _ | command
  · simp only [step] at h
    split at h
    · next scheduler hp hs =>
      obtain rfl := Option.some.inj h
      exact Or.inl ⟨scheduler, rfl, hp, hs, rfl⟩
    · simp at h
  · simp only [step] at h
    split at h
    · next addr hp hs =>
      obtain rfl := Option.some.inj h
      exact Or.inr (Or.inl ⟨group, addr, rfl, hp, hs, rfl⟩)
    · simp at h
  · simp only [step] at h
    split at h
    · next i hi =>
      obtain rfl := Option.some.inj h
      exact Or.inr (Or.inr (Or.inl ⟨i, rfl, hi, rfl⟩))
    · simp at h
  · simp only [step] at h
    split_ifs at h
    obtain rfl := Option.some.inj h
    exact Or.inr (Or.inr (Or.inr (Or.inl ⟨Or.inl rfl, rfl⟩)))
  · simp only [step] at h
    split_ifs at h with hp
    rcases command with _ | command
    · obtain rfl := Option.some.inj h
      exact Or.inr (Or.inr (Or.inr (Or.inl ⟨Or.inr rfl, rfl⟩)))
    · obtain rfl := Option.some.inj h
      exact Or.inr (Or.inr (Or.inr (Or.inr ⟨command, rfl, hp, rfl⟩)))

@[simp] theorem next_state (s : ServerRunner) (command : StateCommand) :
    (s.next command).state = command.apply s.state := rfl

@[simp] theorem next_phase (s : ServerRunner) (command : StateCommand) :
    (s.next command).phase = .starting := rfl

@[simp] theorem next_alive (s : ServerRunner) (command : StateCommand) :
    (s.next command).alive = s.alive := rfl

theorem serving_step {s s' : ServerRunner} {a : RunStep} (h : s.step a = some s') : s'.Serving := by
  intro i hi
  rcases step_cases h with ⟨scheduler, rfl, -, -, rfl⟩ | ⟨group, addr, rfl, -, -, rfl⟩ |
    ⟨j, rfl, -, rfl⟩ | ⟨-, rfl⟩ | ⟨command, rfl, -, rfl⟩
  · cases hi
    exact ⟨⟨scheduler, false⟩, by simp, rfl⟩
  · simp at hi
  · simp at hi
  · simp at hi
  · simp at hi

/-- Cancelling the only reporter that is alive leaves none. -/
theorem alive_cancel {l : List Spawned} {i : ℕ} {r : Spawned} (hi : l[i]? = some r)
    (hr : r.cancelled = false) (hone : (l.filter fun r => !r.cancelled).length ≤ 1) :
    (l.modify i Spawned.cancel).filter (fun r => !r.cancelled) = [] := by
  induction l generalizing i with
  | nil => cases hi
  | cons a l ih =>
    rcases i with _ | i
    · obtain rfl := Option.some.inj hi
      have hrest : l.filter (fun r => !r.cancelled) = [] := by
        rw [List.filter_cons_of_pos (by simp [hr]), List.length_cons] at hone
        exact List.eq_nil_of_length_eq_zero (by omega)
      rw [List.modify_zero_cons, List.filter_cons_of_neg (by simp [Spawned.cancel]), hrest]
    · have hmem : r ∈ l := List.mem_of_getElem? hi
      have hpos : 0 < (l.filter fun r => !r.cancelled).length :=
        List.length_pos_of_mem (List.mem_filter.mpr ⟨hmem, by simp [hr]⟩)
      have ha : a.cancelled = true := by
        by_contra hc
        rw [List.filter_cons_of_pos (by simpa using hc), List.length_cons] at hone
        omega
      rw [List.filter_cons_of_neg (by simp [ha])] at hone
      rw [List.modify_succ_cons, List.filter_cons_of_neg (by simp [ha])]
      exact ih hi hone

/-- A step keeps the property exactly when it leaks no reporter. -/
theorem oneReporter_step {s s' : ServerRunner} {a : RunStep} (hs : s.Serving) (ho : s.OneReporter)
    (h : s.step a = some s') : s'.OneReporter ↔ s.NoLeak a := by
  rcases step_cases h with ⟨scheduler, rfl, -, hsched, rfl⟩ | ⟨group, addr, rfl, -, hj, rfl⟩ |
    ⟨i, rfl, hi, rfl⟩ | ⟨ha, rfl⟩ | ⟨command, rfl, -, rfl⟩
  · have halive : ({ s with
        phase := .serving s.reporters.length
        reporters := s.reporters ++ [⟨scheduler, false⟩] } : ServerRunner).alive =
          s.alive ++ [⟨scheduler, false⟩] := by
      simp [alive, List.filter_append]
    constructor
    · intro ho'
      have hone := ho'.one
      rw [halive, List.length_append, List.length_singleton] at hone
      exact List.eq_nil_of_length_eq_zero (by omega)
    · intro hnil
      refine ⟨by rw [halive, hnil]; simp, fun r hr => ?_⟩
      rw [halive, hnil, List.nil_append, List.mem_singleton] at hr
      rw [hr]
      exact hsched
  · -- nobody reports in a state without a scheduler
    refine iff_of_true ⟨ho.one, fun r hr => ?_⟩ trivial
    have hnone := ho.target r hr
    rw [hj] at hnone
    cases hnone
  · obtain ⟨r, hr, hc⟩ := hs i hi
    have hnil := alive_cancel hr hc ho.one
    refine iff_of_true ⟨?_, fun r hr => ?_⟩ trivial
    · rw [next_alive]
      unfold alive
      rw [hnil]
      simp
    · rw [next_alive] at hr
      unfold alive at hr
      rw [hnil] at hr
      simp at hr
  · refine iff_of_true ⟨ho.one, ho.target⟩ ?_
    rcases ha with rfl | rfl
    · trivial
    · trivial
  · constructor
    · intro ho'
      rcases halive : s.alive with _ | ⟨r, l⟩
      · exact Or.inl halive
      · right
        have hr : r ∈ s.alive := by rw [halive]; simp
        rw [ho.target r hr]
        exact ho'.target r hr
    · rintro (hnil | hsame)
      · exact ⟨ho.one, fun r hr => by rw [next_alive, hnil] at hr; cases hr⟩
      · exact ⟨ho.one, fun r hr => hsame.trans (ho.target r hr)⟩

/-! ### Runs -/

/-- A reporter that was left behind stays alive, and its service does not serve any more. -/
theorem leaked_step {s s' : ServerRunner} {a : RunStep} (hp : ∀ i, s.phase ≠ .serving i)
    (ha : a ≠ .startReporter) (h : s.step a = some s') :
    s'.alive = s.alive ∧ ∀ i, s'.phase ≠ .serving i := by
  rcases step_cases h with ⟨scheduler, rfl, -, -, -⟩ | ⟨group, addr, -, -, -, rfl⟩ |
    ⟨i, -, hi, -⟩ | ⟨-, rfl⟩ | ⟨command, -, -, rfl⟩
  · exact absurd rfl ha
  · exact ⟨rfl, fun i hi => by simp at hi⟩
  · exact absurd hi (hp i)
  · exact ⟨rfl, fun i hi => by simp at hi⟩
  · exact ⟨rfl, fun i hi => by simp at hi⟩

theorem oneReporter_of_alive {s : ServerRunner} {r : Spawned} (halive : s.alive = [r]) :
    s.OneReporter ↔ s.state.scheduler = some r.scheduler := by
  constructor
  · intro ho
    exact ho.target r (by rw [halive]; simp)
  · intro hr
    refine ⟨by rw [halive]; simp, fun r' hr' => ?_⟩
    rw [halive, List.mem_singleton] at hr'
    rw [hr']
    exact hr

/-- **Once a reporter is left behind**, it is the only one and reports to the current scheduler
exactly as long as no other one is started and the scheduler stays. -/
theorem oneReporter_after_leak {s : ServerRunner} {r : Spawned} (halive : s.alive = [r])
    (hp : ∀ i, s.phase ≠ .serving i) (as : List RunStep) :
    Always step OneReporter s as ↔
      Always step (fun t => t.state.scheduler = some r.scheduler) s as ∧
        EachStep step (fun _ a => a ≠ .startReporter) s as := by
  induction as generalizing s with
  | nil =>
    rw [always_nil, always_nil, oneReporter_of_alive halive]
    exact ⟨fun h => ⟨h, eachStep_nil⟩, fun h => h.1⟩
  | cons a as ih =>
    rw [always_cons, always_cons, eachStep_cons, oneReporter_of_alive halive]
    have hstart : a = .startReporter → ∀ s', s.step a = some s' →
        s.state.scheduler = some r.scheduler → ¬ Always step OneReporter s' as := by
      rintro rfl s' hs hr hall
      have hnil := (oneReporter_step (fun i hi => absurd hi (hp i))
        ((oneReporter_of_alive halive).mpr hr) hs).mp (hall [] s' (by simp) rfl)
      unfold NoLeak at hnil
      rw [halive] at hnil
      exact absurd hnil (by simp)
    constructor
    · rintro ⟨hr, hall⟩
      have hne : ∀ s', s.step a = some s' → a ≠ .startReporter := fun s' hs he =>
        hstart he s' hs hr (hall s' hs)
      have hrest : ∀ s', s.step a = some s' →
          Always step (fun t => t.state.scheduler = some r.scheduler) s' as ∧
            EachStep step (fun _ a => a ≠ .startReporter) s' as := by
        intro s' hs
        obtain ⟨hal, hp'⟩ := leaked_step hp (hne s' hs) hs
        exact (ih (hal.trans halive) hp').mp (hall s' hs)
      exact ⟨⟨hr, fun s' hs => (hrest s' hs).1⟩, fun s' hs => ⟨hne s' hs, (hrest s' hs).2⟩⟩
    · rintro ⟨⟨hr, hall⟩, heach⟩
      refine ⟨hr, fun s' hs => ?_⟩
      obtain ⟨hne, hrest⟩ := heach s' hs
      obtain ⟨hal, hp'⟩ := leaked_step hp hne hs
      exact (ih (hal.trans halive) hp').mpr ⟨hall s' hs, hrest⟩

/-- Whenever a command wins against a service that has started its reporter, the scheduler stays the
same from then on, and no other reporter is started. -/
def Undisturbed (s : ServerRunner) (as : List RunStep) : Prop :=
  ∀ pre command rest t i, as = pre ++ .received (some command) :: rest → run step s pre = some t →
    t.phase = .serving i →
      Always step (fun u => u.state.scheduler = t.state.scheduler) (t.next command) rest ∧
        EachStep step (fun _ a => a ≠ .startReporter) (t.next command) rest

/-- No command wins against a service that has started its reporter. -/
def Served (s : ServerRunner) : RunStep → Prop
  | .received (some _) => ∀ i, s.phase ≠ .serving i
  | _ => True

/-- A service that serves is interrupted, or the step is served. -/
theorem served_or (s : ServerRunner) (a : RunStep) :
    s.Served a ∨ ∃ command i, a = .received (some command) ∧ s.phase = .serving i := by
  by_cases hserved : s.Served a
  · exact Or.inl hserved
  · right
    rcases a with _ | _ | _ | _ | (_ | command)
    · exact absurd trivial hserved
    · exact absurd trivial hserved
    · exact absurd trivial hserved
    · exact absurd trivial hserved
    · exact absurd trivial hserved
    · obtain ⟨i, hi⟩ := not_forall.mp hserved
      exact ⟨command, i, rfl, not_not.mp hi⟩

theorem undisturbed_nil (s : ServerRunner) : s.Undisturbed [] := by
  intro pre command rest t i has
  simp at has

/-- What is undisturbed goes on with what follows the first step. -/
theorem Undisturbed.tail {s s' : ServerRunner} {a : RunStep} {as : List RunStep}
    (h : s.Undisturbed (a :: as)) (hs : s.step a = some s') : s'.Undisturbed as := by
  intro pre command rest t i has hrun
  exact h (a :: pre) command rest t i (by rw [has]; rfl) (by rw [run_cons, hs]; exact hrun)

theorem undisturbed_cons {s : ServerRunner} {a : RunStep} {as : List RunStep}
    (hserved : s.Served a) :
    s.Undisturbed (a :: as) ↔ ∀ s', s.step a = some s' → s'.Undisturbed as := by
  refine ⟨fun h s' hs => h.tail hs, fun h pre command rest t i has hrun hi => ?_⟩
  rcases pre with _ | ⟨b, pre⟩
  · obtain ⟨rfl, -⟩ := List.cons.inj has
    obtain rfl := Option.some.inj hrun
    exact absurd hi (hserved i)
  · obtain ⟨rfl, htail⟩ := List.cons.inj has
    obtain ⟨s', hs, hrest⟩ := Option.bind_eq_some_iff.mp hrun
    exact h s' hs pre command rest t i htail hrest hi

/-- Without a reporter there is no service to interrupt. -/
theorem undisturbed_of_noStart {s : ServerRunner} {as : List RunStep}
    (hp : ∀ i, s.phase ≠ .serving i) (h : EachStep step (fun _ a => a ≠ .startReporter) s as) :
    s.Undisturbed as := by
  induction as generalizing s with
  | nil => exact undisturbed_nil s
  | cons a as ih =>
    rw [eachStep_cons] at h
    have hserved : s.Served a := by
      rcases served_or s a with hserved | ⟨command, i, -, hi⟩
      · exact hserved
      · exact absurd hi (hp i)
    refine (undisturbed_cons hserved).mpr fun s' hs => ?_
    obtain ⟨hne, hrest⟩ := h s' hs
    exact ih (leaked_step hp hne hs).2 hrest

/-- Before the service has started its reporter, none is alive. -/
def Quiet (s : ServerRunner) : Prop := s.phase = .starting → s.alive = []

theorem starting_of {s : ServerRunner} (hp : s.phase ≠ .ended) (h : ∀ i, s.phase ≠ .serving i) :
    s.phase = .starting := by
  rcases hphase : s.phase with _ | i | _
  · rfl
  · exact absurd hphase (h i)
  · exact absurd hphase hp

theorem noLeak_of_served {s s' : ServerRunner} {a : RunStep} (hq : s.Quiet) (hserved : s.Served a)
    (h : s.step a = some s') : s.NoLeak a := by
  rcases step_cases h with ⟨scheduler, rfl, hp, -, -⟩ | ⟨group, addr, rfl, -, -, -⟩ |
    ⟨i, rfl, -, -⟩ | ⟨rfl | rfl, -⟩ | ⟨command, rfl, hp, -⟩
  · exact hq hp
  · trivial
  · trivial
  · trivial
  · trivial
  · exact Or.inl (hq (starting_of hp hserved))

theorem quiet_step {s s' : ServerRunner} {a : RunStep} (hs : s.Serving) (ho : s.OneReporter)
    (hq : s.Quiet) (hserved : s.Served a) (h : s.step a = some s') : s'.Quiet := by
  intro hp'
  rcases step_cases h with ⟨scheduler, rfl, -, -, rfl⟩ | ⟨group, addr, rfl, hp, -, rfl⟩ |
    ⟨i, rfl, hi, rfl⟩ | ⟨-, rfl⟩ | ⟨command, rfl, hp, rfl⟩
  · simp at hp'
  · exact hq hp
  · obtain ⟨r, hr, hc⟩ := hs i hi
    exact alive_cancel hr hc ho.one
  · simp at hp'
  · exact hq (starting_of hp hserved)

/-- What holds as long as no service is interrupted. -/
structure Orderly (s : ServerRunner) : Prop where
  serving : s.Serving
  one : s.OneReporter
  quiet : s.Quiet

theorem orderly_start (state : DaemonState) : (start state).Orderly where
  serving i hi := by simp [start] at hi
  one := ⟨Nat.zero_le 1, fun r hr => by simp [start, alive] at hr⟩
  quiet _ := rfl

theorem Orderly.step {s s' : ServerRunner} {a : RunStep} (hs : s.Orderly) (hserved : s.Served a)
    (h : s.step a = some s') : s'.Orderly where
  serving := serving_step h
  one := (oneReporter_step hs.serving hs.one h).mpr (noLeak_of_served hs.quiet hserved h)
  quiet := quiet_step hs.serving hs.one hs.quiet hserved h

/-- The reporter of the service that serves is the one that is alive. -/
theorem Orderly.alive {s : ServerRunner} (hs : s.Orderly) {i : ℕ} (hi : s.phase = .serving i) :
    ∃ r, s.alive = [r] ∧ s.state.scheduler = some r.scheduler := by
  obtain ⟨r, hr, hc⟩ := hs.serving i hi
  have hmem : r ∈ s.alive := List.mem_filter.mpr ⟨List.mem_of_getElem? hr, by simp [hc]⟩
  have hone := hs.one.one
  have hlen : s.alive.length = 1 := by
    have := List.length_pos_of_mem hmem
    omega
  obtain ⟨r', hr'⟩ := List.length_eq_one_iff.mp hlen
  exact ⟨r', hr', hs.one.target r' (by rw [hr']; simp)⟩

theorem oneReporter_of_orderly {s : ServerRunner} (hs : s.Orderly) (as : List RunStep) :
    Always step OneReporter s as ↔ s.Undisturbed as := by
  induction as generalizing s with
  | nil => exact iff_of_true (always_nil.mpr hs.one) (undisturbed_nil s)
  | cons a as ih =>
    rw [always_cons]
    rcases served_or s a with hserved | ⟨command, i, rfl, hi⟩
    · rw [undisturbed_cons hserved]
      exact ⟨fun h s' hs' => (ih (hs.step hserved hs')).mp (h.2 s' hs'),
        fun h => ⟨hs.one, fun s' hs' => (ih (hs.step hserved hs')).mpr (h s' hs')⟩⟩
    · obtain ⟨r, halive, hr⟩ := hs.alive hi
      have hstep : s.step (.received (some command)) = some (s.next command) := by
        have hne : s.phase ≠ .ended := by
          rw [hi]
          nofun
        simp only [step, if_neg hne]
      have hp : ∀ i, (s.next command).phase ≠ .serving i := fun i hi => by simp at hi
      have hleak := oneReporter_after_leak (s := s.next command) halive hp as
      constructor
      · rintro ⟨-, h⟩
        obtain ⟨hall, heach⟩ := hleak.mp (h _ hstep)
        intro pre command' rest t j has hrun hj
        rcases pre with _ | ⟨b, pre⟩
        · obtain ⟨hc, rfl⟩ := List.cons.inj has
          obtain rfl := Option.some.inj (RunStep.received.inj hc)
          obtain rfl := Option.some.inj hrun
          rw [hr]
          exact ⟨hall, heach⟩
        · obtain ⟨rfl, htail⟩ := List.cons.inj has
          rw [run_cons, hstep] at hrun
          exact undisturbed_of_noStart hp heach pre command' rest t j htail hrun hj
      · intro h
        have hnow := h [] command as s i rfl rfl hi
        rw [hr] at hnow
        refine ⟨hs.one, fun s' hs' => ?_⟩
        obtain rfl := Option.some.inj (hstep.symm.trans hs')
        exact hleak.mpr hnow

/-- **At most one reporter is alive, one that reports to the current scheduler**, throughout a run
exactly when, whenever a command wins against a service that has started its reporter, no other
reporter is started afterwards and the scheduler stays the same. -/
theorem oneReporter_always_iff (state : DaemonState) (as : List RunStep) :
    Always step OneReporter (start state) as ↔ (start state).Undisturbed as := by
  have hs : (start state).Orderly := orderly_start state
  exact oneReporter_of_orderly hs as

/-- **Services that are not interrupted leave no reporter behind.** -/
theorem oneReporter_of_served {state : DaemonState} {as : List RunStep}
    (h : EachStep step Served (start state) as) : Always step OneReporter (start state) as :=
  always_of_eachStep (fun _ _ _ hs hserved hstep => hs.step hserved hstep) (fun _ hs => hs.one)
    (orderly_start state) h

/-! ### An application is added -/

/-- The database of a server that runs sends its command for a new instance. -/
def addedInstance : List RunStep := [.startReporter, .received (some .keep), .startReporter]

theorem addedInstance_leaks :
    ¬ ∀ (state : DaemonState) (as : List RunStep), Always step OneReporter (start state) as := by
  intro h
  let group := GroupInfo.new ⟨1, "http://10.0.0.1:50051"⟩
  have hone := (h (.running group) addedInstance addedInstance _ List.prefix_rfl rfl).one
  exact absurd hone (by decide)

end ServerRunner

end Laqista
