import Laqista.Scheduler.Handlers

/-! # The scheduler and its own mutex

The task that `lookup` spawns calls `deploy_in_us` with the guard of the runtime in scope, and
`deploy_in_us` asks for the same mutex. This happens exactly when the target of the lookup needs a
scale-out and its deployment is known (`ScalesOut`); no other path keeps a guard. So the runs in
which no task waits for itself are the runs without such a check (`noSelfWait_iff_noScaleOut`), and
after one the scheduler never runs a section again (`scaleOut_stops_scheduler`). -/

namespace Laqista

open Laqista.Proto Laqista.Lib Laqista.Lib.Runs Laqista.Lib.Tasks

/-- The target has stats that ask for a scale-out, and the deployment is known. -/
def ScalesOut (rt : SchedulerRuntime) (target : ServerInfo) (id : Uuid) : Prop :=
  ∃ stats d, rt.cluster.serverStats.lookup target.id = some stats ∧
    needsScaleOut stats = .ok true ∧ rt.deployments.lookup id = some d

/-- The section that runs next is not the check of a background task that scales out. -/
def NoScaleOut (s : Locked SchedulerRuntime Task) : LAct Call Told → Prop
  | .body _ => ∀ i target id, s.owner = some i → s.tasks[i]? = some (.scaleCheck target id) →
      ¬ ScalesOut s.shared target id
  | _ => True

section
variable [Crates]

/-- **Only a background check that scales out keeps the guard.** -/
theorem sectionBody_keeps {rt : SchedulerRuntime} {t : Task} {w : Told}
    {o : Outcome SchedulerRuntime Task} (h : sectionBody rt t w = some o) :
    o.keeps = true ↔ ∃ target id, t = .scaleCheck target id ∧ ScalesOut rt target id := by
  constructor
  · intro hk
    cases section_of h with
    | scales target id d hd =>
      obtain ⟨stats, hs⟩ := scaleCheck_eq_some.mp hd
      exact ⟨target, id, rfl, stats, d, hs⟩
    | _ => simp [leave] at hk
  · rintro ⟨target, id, rfl, stats, d, hs⟩
    cases section_of h with
    | scales => rfl
    | stays _ _ hn => exact absurd (scaleCheck_eq_some.mpr ⟨stats, hs⟩) (hn d)

/-- Whoever keeps the guard is in `deploy_in_us` next. -/
theorem enters_of_keeps {rt : SchedulerRuntime} {t : Task} {w : Told}
    {o : Outcome SchedulerRuntime Task} (h : sectionBody rt t w = some o) (hk : o.keeps = true) :
    o.next.enters = true := by
  cases section_of h with
  | scales => rfl
  | _ => simp [leave] at hk

theorem shared_of_keeps {rt : SchedulerRuntime} {t : Task} {w : Told}
    {o : Outcome SchedulerRuntime Task} (h : sectionBody rt t w = some o) (hk : o.keeps = true) :
    o.shared = rt := by
  cases section_of h with
  | scales => rfl
  | _ => simp [leave] at hk

theorem returns_iff_noScaleOut {s s' : Locked SchedulerRuntime Task} {a : LAct Call Told}
    (h : schedulerTasks.lstep s a = some s') :
    schedulerTasks.Returns s a ↔ NoScaleOut s a := by
  rcases TaskSystem.lstep_cases h with ⟨r, t, rfl, -, -⟩ | ⟨i, t, rfl, -, -, -⟩ |
    ⟨i, q, rfl, -, -, -⟩ | ⟨i, w, t, o, rfl, ho, hin, ht, hb, -⟩ |
    ⟨i, w, t, t', rfl, -, -, -, -⟩ | ⟨i, rfl, -, -⟩
  case inr.inr.inr.inl =>
    constructor
    · intro hr j target id hj htask hscale
      rw [ho] at hj
      obtain rfl := Option.some.inj hj
      rw [ht] at htask
      obtain rfl := Option.some.inj htask
      have hk := hr i _ o ho ht hb
      rw [(sectionBody_keeps hb).mpr ⟨target, id, rfl, hscale⟩] at hk
      simp at hk
    · intro hn j u o' hj hu ho'
      by_contra hk
      obtain ⟨target, id, rfl, hscale⟩ := (sectionBody_keeps ho').mp (by simpa using hk)
      exact hn j target id hj hu hscale
  all_goals exact Iff.rfl

/-- **No task asks for the mutex while it owns it** in exactly the runs in which no background task
of a lookup finds that its target needs a scale-out and that its deployment is known. -/
theorem noSelfWait_iff_noScaleOut (rt : SchedulerRuntime) (as : List (LAct Call Told)) :
    Always schedulerTasks.lstep (fun s => ¬ schedulerTasks.SelfWait s) (unlocked rt) as ↔
      EachStep schedulerTasks.lstep NoScaleOut (unlocked rt) as := by
  rw [noSelfWait_iff fun sh t w o hb hk => enters_of_keeps hb hk]
  exact eachStep_congr fun s a s' h => returns_iff_noScaleOut h

/-- **A scale-out stops the scheduler.** Once a background task has scaled out, nobody changes the
runtime again, unless the task is cancelled; a spawned task is not. -/
theorem scaleOut_stops_scheduler {s s₁ s₂ : Locked SchedulerRuntime Task} {w : Told} {i : ℕ}
    {target : ServerInfo} {id : Uuid} {as : List (LAct Call Told)} (ho : s.owner = some i)
    (ht : s.tasks[i]? = some (.scaleCheck target id)) (hscale : ScalesOut s.shared target id)
    (h : schedulerTasks.lstep s (.body w) = some s₁) (hc : ∀ a ∈ as, a ≠ .cancel i)
    (hrun : run schedulerTasks.lstep s₁ as = some s₂) :
    schedulerTasks.SelfWait s₂ ∧ s₂.shared = s.shared := by
  have hnot : ¬ schedulerTasks.Returns s (.body w) := by
    rw [returns_iff_noScaleOut h]
    exact fun hn => hn i target id ho ht hscale
  obtain ⟨j, t, hj, hin, htj, het⟩ := selfWait_of_keeps
    (fun sh t w o hb hk => enters_of_keeps hb hk) h hnot
  have hij : s₁.owner = some i ∧ s₁.shared = s.shared := by
    rcases TaskSystem.lstep_cases h with ⟨r, t, ha, -⟩ | ⟨i, t, ha, -⟩ | ⟨i, q, ha, -⟩ |
      ⟨k, w', u, o, ha, hk, -, hu, hb, rfl⟩ | ⟨i, w, t, t', ha, -⟩ | ⟨i, ha, -⟩
    case inr.inr.inr.inl =>
      rw [ho] at hk
      obtain rfl := Option.some.inj hk
      rw [ht] at hu
      obtain rfl := Option.some.inj hu
      have hk := (sectionBody_keeps hb).mpr ⟨target, id, rfl, hscale⟩
      exact ⟨by rw [if_pos hk], shared_of_keeps hb hk⟩
    all_goals simp at ha
  rw [hij.1] at hj
  obtain rfl := Option.some.inj hj
  obtain ⟨h1, h2, h3, h4⟩ := selfWait_forever hij.1 hin htj het hc hrun
  exact ⟨⟨i, t, h1, h2, h3, het⟩, h4.trans hij.2⟩

end

/-! ### A run with a scale-out -/

section Example

attribute [local instance] Crates.hyphenated

/-- One server, which reports a cpu load of 80 per cent, gets a deployment; a lookup of it follows.
-/
def busyServer : ServerInfo := ⟨1, "http://10.0.0.1:50051"⟩

def busyWindow : MonitorWindow :=
  ⟨some ⟨some ⟨0, 0⟩, some ⟨0, 1000⟩⟩, some ⟨80, 0, 0, 0, 0, 0⟩⟩

def busyRun : List (LAct Call Told) :=
  [.start (.report ⟨some busyServer.into, [busyWindow]⟩), .request 0, .grant, .body .nothing,
    .start (.deploy ⟨"src", "face"⟩ 7), .request 1, .grant, .body .nothing,
    .await 1 (.answer (.ok true)), .request 1, .grant,
    .body (.order [⟨busyServer, [busyWindow]⟩]), .await 1 (.answer (.ok true)), .request 1, .grant,
    .body .nothing,
    .start (.lookup ⟨printUuid 7⟩), .request 2, .grant,
    .body (.order [⟨busyServer, [busyWindow]⟩]), .request 3, .grant, .body .nothing]

theorem busyRun_selfWaits : ¬ ∀ (rt : SchedulerRuntime) (as : List (LAct Call Told)),
    Always schedulerTasks.lstep (fun s => ¬ schedulerTasks.SelfWait s) (unlocked rt) as := by
  intro h
  have hrun : (run schedulerTasks.lstep (unlocked (.fromServer busyServer)) busyRun).map
      (fun s => (s.owner, s.inside, s.tasks[3]?)) =
        some (some 3, false, some (.chooseTarget ⟨7, "face", "src"⟩)) := by decide +kernel
  obtain ⟨s, hs, he⟩ := Option.map_eq_some_iff.mp hrun
  simp only [Prod.mk.injEq] at he
  exact h _ busyRun busyRun s List.prefix_rfl hs ⟨3, _, he.1, he.2.1, he.2.2, rfl⟩

end Example

end Laqista
