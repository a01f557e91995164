import Laqista.Net.Snapshot
import Laqista.Lib.Least

/-! # Who becomes the scheduler

When a scheduler is lost, every reporter elects by itself, from its own last reply. Nothing makes
the elections agree: a reporter whose last reply is older than the join of a server with a smaller
id elects without it (`two_successors`).

`successors_unseen` is what remains true: of two servers that become the scheduler, the one with the
greater id has not seen the other one in the last reply of its reporter. So reporters that have seen
each other elect the same server (`successor_unique`). -/

namespace Laqista

open Laqista.Proto Laqista.Lib Laqista.Lib.Runs Laqista.Lib.Tasks Laqista.Lib.Least

/-- The server is told to become the scheduler. -/
def Sent.Becomes (x : Sent) : Prop := ∃ cluster, x.command = .becomeScheduler cluster

instance decidableBecomes (x : Sent) : Decidable x.Becomes :=
  match h : x.command with
  | .becomeScheduler cluster => isTrue ⟨cluster, h⟩
  | .update _ | .keep => isFalse fun ⟨_, h'⟩ => by simp [h] at h'

/-- The last reply of the sender lists the id. -/
def Sent.Saw (x : Sent) (id : Uuid) : Prop := ∃ c, x.seen = some c ∧ id ∈ c.ids

/-- A server that is told to become the scheduler has the least of the ids that are left in the last
reply. -/
def Sent.Elected (x : Sent) : Prop :=
  x.Becomes → ∃ c, x.seen = some c ∧
    IsLeast {k | k ∈ (c.removeServer c.group.schedulerInfo.id).2.ids} x.server.id

/-- Every scheduler that is there or was seen is of the group of `scheduler`. -/
structure OneScheduler (scheduler : ServerInfo) (s : Net) : Prop where
  live : ∀ addr sys, s.schedulers addr = some sys →
    sys.shared.cluster.group.schedulerInfo = scheduler
  seen : ∀ seat ∈ s.seats, ∀ c, seat.seen = some c → c.group.schedulerInfo = scheduler
  sent : ∀ x ∈ s.inbox, ∀ c, x.seen = some c → c.group.schedulerInfo = scheduler

/-- The steps of servers and reporters around one scheduler: no other one appears. -/
def NetAct.KeepsScheduler : NetAct → Prop
  | .receive _ | .boot _ => False
  | _ => True

/-- What happens before the scheduler fails: its tasks, among them joins, and reports. -/
def NetAct.BeforeFailure : NetAct → Prop
  | .serve _ _ | .startReporter _ _ | .report _ _ _ => True
  | _ => False

/-- What the survivors do after it. -/
def NetAct.AfterFailure : NetAct → Prop
  | .failover _ => True
  | _ => False

theorem NetAct.BeforeFailure.keeps {a : NetAct} (h : a.BeforeFailure) : a.KeepsScheduler := by
  rcases a with _ | _ | _ | _ | _ | _ | _
  all_goals trivial

theorem NetAct.AfterFailure.keeps {a : NetAct} (h : a.AfterFailure) : a.KeepsScheduler := by
  rcases a with _ | _ | _ | _ | _ | _ | _
  all_goals trivial

section Runs

variable [Crates]

/-! ### What holds in every net -/

/-- Every reporter tracks its replies, and every successor was elected. -/
structure Elections (s : Net) : Prop where
  tracks : s.Tracks
  elected : ∀ x ∈ s.inbox, x.Elected

theorem elections_empty : Elections Net.empty := by
  refine ⟨tracks_empty, fun x hx => ?_⟩
  cases hx

theorem elections_step {s s' : Net} {a : NetAct} (h : Elections s) (hs : s.step a = some s') :
    Elections s' := by
  refine ⟨tracks_step h.tracks hs, fun x hx => ?_⟩
  rcases Net.sent_cases hs hx with hold | ⟨seat, hseat, command, hfail, rfl⟩
  · exact h.elected x hold
  · rintro ⟨cluster, rfl⟩
    exact failover_elects (h.tracks seat hseat) hfail

/-! ### Around one scheduler -/

theorem oneScheduler_step {scheduler : ServerInfo} {s s' : Net} {a : NetAct}
    (hk : a.KeepsScheduler) (h : OneScheduler scheduler s) (hs : s.step a = some s') :
    OneScheduler scheduler s' := by
  have hlive : ∀ addr sys', s'.schedulers addr = some sys' →
      sys'.shared.cluster.group.schedulerInfo = scheduler := by
    intro addr sys' hl
    rcases Net.live_cases hs hl with ⟨sys, bs, hsys, hrun⟩ | ⟨k, x, cluster, rfl, -⟩ |
      ⟨server, rfl, -⟩
    · exact run_invariant (I := fun t => t.shared.cluster.group.schedulerInfo = scheduler)
        (fun t b t' ht hb => by rw [astep_group hb]; exact ht) (h.live addr sys hsys) hrun
    · exact hk.elim
    · exact hk.elim
  refine ⟨hlive, fun seat hseat c hc => ?_, fun x hx c hc => ?_⟩
  · rcases Net.seat_cases hs hseat with hold | ⟨server, scheduler', rfl⟩ |
      ⟨old, -, sys, metrics, it, rt, hsys, rfl, -, rfl⟩
    · exact h.seen seat hold c hc
    · simp at hc
    · obtain rfl := Option.some.inj hc
      exact h.live _ sys hsys
  · rcases Net.sent_cases hs hx with hold | ⟨seat, hseat, command, -, rfl⟩
    · exact h.sent x hold c hc
    · exact h.seen seat hseat c hc

/-- A net in which one scheduler has been started. -/
theorem oneScheduler_boot {scheduler : ServerInfo} {s : Net}
    (h : Net.empty.step (.boot scheduler) = some s) : OneScheduler scheduler s := by
  obtain rfl := Option.some.inj h
  refine ⟨fun addr sys hsys => ?_, fun seat hseat => ?_, fun x hx => ?_⟩
  · rw [Net.join_schedulers, Net.setScheduler_schedulers] at hsys
    split_ifs at hsys
    · obtain rfl := Option.some.inj hsys
      rfl
    · have hnone := (Net.live_stop hsys).2
      cases hnone
  · cases hseat
  · cases hx

/-- Around one scheduler, whoever is told to become its successor has the least of the ids besides
the scheduler in its last reply. -/
theorem elected_around {scheduler : ServerInfo} {as : List NetAct} {s : Net}
    (has : ∀ a ∈ as, a.KeepsScheduler)
    (h : run Net.step Net.empty (.boot scheduler :: as) = some s) {x : Sent} (hx : x ∈ s.inbox)
    (hb : x.Becomes) : ∃ c, x.seen = some c ∧
      IsLeast {k | k ∈ (c.removeServer scheduler.id).2.ids} x.server.id := by
  have helect : Elections s :=
    run_invariant (fun _ _ _ h hs => elections_step h hs) elections_empty h
  obtain ⟨s₀, hboot, hrun⟩ := Option.bind_eq_some_iff.mp h
  have hone : OneScheduler scheduler s :=
    run_invariant_of (fun _ _ _ hk h hs => oneScheduler_step hk h hs) (oneScheduler_boot hboot) has
      hrun
  obtain ⟨c, hc, hleast⟩ := helect.elected x hx hb
  rw [hone.sent x hx c hc] at hleast
  exact ⟨c, hc, hleast⟩

/-- **Servers that have seen each other elect the same successor** of a scheduler. -/
theorem successor_unique {scheduler : ServerInfo} {as : List NetAct} {s : Net}
    (has : ∀ a ∈ as, a.KeepsScheduler)
    (h : run Net.step Net.empty (.boot scheduler :: as) = some s) {x y : Sent} (hx : x ∈ s.inbox)
    (hy : y ∈ s.inbox) (hxb : x.Becomes) (hyb : y.Becomes) (hxs : x.server.id ≠ scheduler.id)
    (hys : y.server.id ≠ scheduler.id) (hxy : x.Saw y.server.id) (hyx : y.Saw x.server.id) :
    x.server.id = y.server.id := by
  obtain ⟨c, hc, hleastx⟩ := elected_around has h hx hxb
  obtain ⟨d, hd, hleasty⟩ := elected_around has h hy hyb
  obtain ⟨c', hc', hmemy⟩ := hxy
  obtain ⟨d', hd', hmemx⟩ := hyx
  rw [hc] at hc'
  obtain rfl := Option.some.inj hc'
  rw [hd] at hd'
  obtain rfl := Option.some.inj hd'
  refine eq_of_mutual hleastx hleasty ?_ ?_
  · exact Cluster.mem_ids_removeServer.mpr ⟨hmemx, fun he => absurd he hxs⟩
  · exact Cluster.mem_ids_removeServer.mpr ⟨hmemy, fun he => absurd he hys⟩

/-! ### After a failure -/

/-- **Of two survivors that become the scheduler, the one with the greater id has not seen the other
one** in the last reply that its reporter got before the scheduler failed. If the last reply of each
reporter that fails over lists the others' servers, then there is at most one successor. -/
theorem successors_unseen {scheduler : ServerInfo} {before after : List NetAct} {s : Net}
    (hbefore : ∀ a ∈ before, a.BeforeFailure) (hafter : ∀ a ∈ after, a.AfterFailure)
    (h : run Net.step Net.empty (.boot scheduler :: (before ++ .crash scheduler.addr :: after)) =
      some s) :
    (∀ x ∈ s.inbox, ∀ y ∈ s.inbox, x.Becomes → y.Becomes → x.server.id ≠ scheduler.id →
      x.server.id < y.server.id → ¬ y.Saw x.server.id) ∧
    ((∀ x ∈ s.inbox, ∀ y ∈ s.inbox, x.server.id ≠ scheduler.id → y.server.id ≠ scheduler.id →
        x.server.id ≠ y.server.id → y.Saw x.server.id) →
      ∀ x ∈ s.inbox, ∀ y ∈ s.inbox, x.Becomes → y.Becomes → x.server.id ≠ scheduler.id →
        y.server.id ≠ scheduler.id → x.server.id = y.server.id) := by
  have has : ∀ a ∈ before ++ .crash scheduler.addr :: after, a.KeepsScheduler := by
    intro a ha
    rcases List.mem_append.mp ha with ha | ha
    · exact (hbefore a ha).keeps
    · rcases List.mem_cons.mp ha with rfl | ha
      · trivial
      · exact (hafter a ha).keeps
  constructor
  · rintro x hx y hy - hyb hne hlt ⟨c, hc, hmem⟩
    obtain ⟨d, hd, hleast⟩ := elected_around has h hy hyb
    rw [hc] at hd
    obtain rfl := Option.some.inj hd
    have hle : y.server.id ≤ x.server.id :=
      hleast.2 (Cluster.mem_ids_removeServer.mpr ⟨hmem, fun he => absurd he hne⟩)
    exact absurd hlt (not_lt.mpr hle)
  · intro hsaw x hx y hy hxb hyb hxs hys
    by_contra hne
    exact hne (successor_unique has h hx hy hxb hyb hxs hys (hsaw y hy x hx hys hxs (Ne.symm hne))
      (hsaw x hx y hy hxs hys hne))

end Runs

/-! ### Two successors -/

section Split

attribute [local instance] Crates.hyphenated

/-- The third server joins and reports before the member does. -/
def joinInTurn : List NetAct :=
  joins thirdServer 0 ++ .report 0 idleWindow [] ::
    (joins memberServer 2 ++ [.report 1 idleWindow []])

def splitRun : List NetAct :=
  .boot schedulerServer :: (joinInTurn ++ .crash schedulerServer.addr :: [.failover 0, .failover 1])

theorem joinInTurn_before : ∀ a ∈ joinInTurn, a.BeforeFailure := by
  simp [joinInTurn, joins, NetAct.BeforeFailure]

theorem failovers_after : ∀ a ∈ [NetAct.failover 0, .failover 1], a.AfterFailure := by
  simp [NetAct.AfterFailure]

/-- Both servers are told to become the scheduler. -/
theorem splitRun_inbox : ∃ s, run Net.step Net.empty splitRun = some s ∧
    ∃ x ∈ s.inbox, ∃ y ∈ s.inbox, x.Becomes ∧ y.Becomes ∧ x.server = memberServer ∧
      y.server = thirdServer := by
  have hrun : (run Net.step Net.empty splitRun).map
      (fun s => s.inbox.map fun x => (x.server, decide x.Becomes)) =
        some [(thirdServer, true), (memberServer, true)] := by decide +kernel
  obtain ⟨s, hs, hin⟩ := Option.map_eq_some_iff.mp hrun
  have hbecomes : ∀ server, (server, true) ∈ s.inbox.map (fun x => (x.server, decide x.Becomes)) →
      ∃ x ∈ s.inbox, x.Becomes ∧ x.server = server := by
    intro server hmem
    obtain ⟨x, hx, he⟩ := List.mem_map.mp hmem
    obtain ⟨hserver, hb⟩ := Prod.mk.inj he
    exact ⟨x, hx, of_decide_eq_true hb, hserver⟩
  obtain ⟨x, hx, hxb, hxs⟩ := hbecomes memberServer (by rw [hin]; simp)
  obtain ⟨y, hy, hyb, hys⟩ := hbecomes thirdServer (by rw [hin]; simp)
  exact ⟨s, hs, x, hx, y, hy, hxb, hyb, hxs, hys⟩

theorem two_successors :
    ¬ ∀ (scheduler : ServerInfo) (before after : List NetAct) (s : Net),
      (∀ a ∈ before, a.BeforeFailure) → (∀ a ∈ after, a.AfterFailure) →
      run Net.step Net.empty (.boot scheduler :: (before ++ .crash scheduler.addr :: after)) =
        some s →
      ∀ x ∈ s.inbox, ∀ y ∈ s.inbox, x.Becomes → y.Becomes → x.server.id ≠ scheduler.id →
        y.server.id ≠ scheduler.id → x.server.id = y.server.id := by
  intro h
  obtain ⟨s, hs, x, hx, y, hy, hxb, hyb, hxs, hys⟩ := splitRun_inbox
  have he := h schedulerServer joinInTurn _ s joinInTurn_before failovers_after hs x hx y hy hxb hyb
    (by rw [hxs]; decide) (by rw [hys]; decide)
  rw [hxs, hys] at he
  exact absurd he (by decide)

theorem splitRun_unseen : ∃ s, run Net.step Net.empty splitRun = some s ∧
    ∃ x ∈ s.inbox, ∃ y ∈ s.inbox, x.server = memberServer ∧ y.server = thirdServer ∧
      ¬ y.Saw x.server.id := by
  obtain ⟨s, hs, x, hx, y, hy, hxb, hyb, hxs, hys⟩ := splitRun_inbox
  exact ⟨s, hs, x, hx, y, hy, hxs, hys, (successors_unseen joinInTurn_before failovers_after hs).1
    x hx y hy hxb hyb (by rw [hxs]; decide) (by rw [hxs, hys]; decide)⟩

end Split

end Laqista
