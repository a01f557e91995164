import Laqista.Net.System

/-! # What a reporter has saved

The state that a reporter has saved is the encoding of a cluster with the scheduler and the ids of
the last reply (`Seat.Tracks`, kept by every step of a net: `tracks_step`), although it need not be
the last reply itself. So a failover removes the scheduler of the last reply and elects among its
ids (`failover_elects`).

`chooseScheduler` assumes that there is a server, because the caller's own server must be there.
`failoverSafe_iff` says when that is so at its only call: whenever the last reply lists the
reporter's own server, which must not be the entry that is removed. -/

namespace Laqista

open Laqista.Proto Laqista.Lib Laqista.Lib.Runs Laqista.Lib.Tasks

/-- The two clusters have the same scheduler and the same members, by their ids. -/
structure SameIds (c d : Cluster) : Prop where
  scheduler : c.group.schedulerInfo.id = d.group.schedulerInfo.id
  ids : c.ids.Perm d.ids

theorem SameIds.refl (c : Cluster) : SameIds c c := ⟨rfl, List.Perm.refl _⟩

theorem SameIds.trans {c d e : Cluster} (h : SameIds c d) (h' : SameIds d e) : SameIds c e :=
  ⟨h.scheduler.trans h'.scheduler, h.ids.trans h'.ids⟩

theorem SameIds.withoutStats {c d : Cluster} (h : SameIds c d) : SameIds c.withoutStats d :=
  ⟨h.scheduler, h.ids⟩

theorem SameIds.remaining {c d : Cluster} (h : SameIds c d) (k : Uuid) :
    k ∈ (c.removeServer c.group.schedulerInfo.id).2.ids ↔
      k ∈ (d.removeServer d.group.schedulerInfo.id).2.ids := by
  rw [Cluster.mem_ids_removeServer, Cluster.mem_ids_removeServer, h.scheduler, h.ids.mem_iff,
    h.ids.count_eq]

section Tracking

variable [Crates]

/-- The saved state encodes a cluster that satisfies `Q`. -/
def Saves (rep : MetricsReporter) (Q : Cluster → Prop) : Prop :=
  ∃ c it, c.instances.Iter it ∧ rep.lastClusterState = some (c.into it) ∧ Q c

/-- The saved state has the scheduler and the ids of the last reply. -/
def Seat.Tracks (seat : Seat) : Prop :=
  match seat.seen with
  | none => seat.reporter.lastClusterState = none
  | some c => Saves seat.reporter fun c₀ => SameIds c₀ c

/-! ### A reply -/

theorem sameIds_of_not_differs {c d : Cluster} {it it' : List AppInstancesInfo}
    (h : clusterDiffers (c.into it) (d.into it') = false) : SameIds c d := by
  rw [clusterDiffers_eq_false (by simp) (by simp)] at h
  obtain ⟨hs, hids, -⟩ := h
  rw [Cluster.schedulerId_into, Cluster.schedulerId_into, Option.some.injEq] at hs
  rw [Cluster.into_ids, Cluster.into_ids] at hids
  exact ⟨printUuid_injective hs, (List.map_perm_map_iff printUuid_injective).mp hids⟩

/-- **A reply** is saved, or it has the scheduler and the ids of what was saved before. -/
theorem putCluster_cases (rep : MetricsReporter) (c : Cluster) (it : List AppInstancesInfo) :
    (rep.putCluster (some (c.into it))).2 = { rep with lastClusterState := some (c.into it) } ∨
      (rep.putCluster (some (c.into it))).2 = rep ∧
        ∀ c₀ it₀, rep.lastClusterState = some (c₀.into it₀) → SameIds c₀ c := by
  unfold MetricsReporter.putCluster
  by_cases hd : rep.changed (some (c.into it)) = true
  · left
    rw [if_pos hd]
  · right
    rw [if_neg hd]
    refine ⟨rfl, fun c₀ it₀ h => ?_⟩
    rw [MetricsReporter.changed_some h, Bool.not_eq_true] at hd
    exact sameIds_of_not_differs hd

theorem tracks_reply {seat : Seat} (h : seat.Tracks) {c : Cluster} {it : List AppInstancesInfo}
    (hit : c.instances.Iter it) :
    Seat.Tracks ⟨(seat.reporter.putCluster (some (c.into it))).2, some c⟩ := by
  rcases putCluster_cases seat.reporter c it with hp | ⟨hp, hsame⟩
  · exact ⟨c, it, hit, by rw [hp], SameIds.refl c⟩
  · unfold Seat.Tracks at h
    rcases hseen : seat.seen with _ | c'
    · -- a reporter without a saved state saves every reply
      rw [hseen] at h
      have hput : (seat.reporter.putCluster (some (c.into it))).2.lastClusterState =
          some (c.into it) := by
        rw [MetricsReporter.putCluster_saved, if_pos (MetricsReporter.changed_none h)]
      exact ⟨c, it, hit, hput, SameIds.refl c⟩
    · rw [hseen] at h
      obtain ⟨c₀, it₀, hit₀, hl, -⟩ := h
      exact ⟨c₀, it₀, hit₀, by rw [hp]; exact hl, hsame c₀ it₀ hl⟩

/-! ### A failover -/

/-- **What a failover sends**, and where it comes from. -/
theorem failover_ok {rep : MetricsReporter} {command : StateCommand}
    (h : rep.failover = .ok (.ok command)) :
    ∃ state cluster next, rep.lastClusterState = some state ∧
      Cluster.tryFrom state = .ok cluster ∧
      next ∈ (cluster.removeServer cluster.group.schedulerInfo.id).2.servers ∧
      (∀ t ∈ (cluster.removeServer cluster.group.schedulerInfo.id).2.servers, next.id ≤ t.id) ∧
      command = if next.id = rep.server.id then
        .becomeScheduler { (cluster.removeServer cluster.group.schedulerInfo.id).2 with
          group := { cluster.group with schedulerInfo := next } }
      else .update (.joining next.addr) := by
  unfold MetricsReporter.failover at h
  rcases hl : rep.lastClusterState with _ | state
  · rw [hl] at h; cases h
  · rw [hl] at h
    dsimp only at h
    rcases hc : Cluster.tryFrom state with e | cluster
    · rw [hc] at h; cases h
    · rw [hc] at h
      obtain ⟨⟨next, elected⟩, hchoose, h⟩ := bind_eq_ok.mp h
      obtain ⟨hmem, hle, rfl⟩ := Cluster.chooseScheduler_ok hchoose
      cases h
      refine ⟨state, cluster, next, rfl, hc, hmem, hle, ?_⟩
      simp only [Cluster.removeServer_group]

/-- Only a reporter's own server is told to become the scheduler: the least of the ids that are left
when the scheduler is removed, in the cluster that is handed over. -/
theorem failover_becomes {rep : MetricsReporter} {cluster : Cluster}
    (h : rep.failover = .ok (.ok (.becomeScheduler cluster))) :
    ∃ state saved next, rep.lastClusterState = some state ∧ Cluster.tryFrom state = .ok saved ∧
      cluster = { (saved.removeServer saved.group.schedulerInfo.id).2 with
        group := { saved.group with schedulerInfo := next } } ∧
      IsLeast {k | k ∈ (saved.removeServer saved.group.schedulerInfo.id).2.ids} rep.server.id := by
  obtain ⟨state, saved, next, hl, hc, hmem, hle, hcommand⟩ := failover_ok h
  split_ifs at hcommand with hown
  cases hcommand
  refine ⟨state, saved, next, hl, hc, rfl, ?_⟩
  rw [← hown]
  refine ⟨Cluster.mem_ids.mpr ⟨next, hmem, rfl⟩, fun k hk => ?_⟩
  obtain ⟨t, ht, rfl⟩ := Cluster.mem_ids.mp hk
  exact hle t ht

/-- What a reporter has saved decodes to the cluster it encodes. -/
theorem saved_decodes {rep : MetricsReporter} {Q : Cluster → Prop} (h : Saves rep Q)
    {state : ClusterState} {cluster : Cluster} (hl : rep.lastClusterState = some state)
    (hc : Cluster.tryFrom state = .ok cluster) : ∃ c, cluster = c.withoutStats ∧ Q c := by
  obtain ⟨c, it, hit, hlast, hQ⟩ := h
  rw [hlast] at hl
  obtain rfl := Option.some.inj hl
  rw [Cluster.tryFrom_into hit] at hc
  obtain rfl := Except.ok.inj hc
  exact ⟨c, rfl, hQ⟩

/-- What a reporter saves and decodes has the scheduler and the ids of its last reply. -/
theorem seen_of_saved {seat : Seat} (h : seat.Tracks) {state : ClusterState} {cluster : Cluster}
    (hl : seat.reporter.lastClusterState = some state) (hc : Cluster.tryFrom state = .ok cluster) :
    ∃ c, seat.seen = some c ∧ SameIds cluster c := by
  unfold Seat.Tracks at h
  rcases hseen : seat.seen with _ | c
  · rw [hseen] at h
    rw [h] at hl
    simp at hl
  · rw [hseen] at h
    obtain ⟨c₀, rfl, hsame⟩ := saved_decodes h hl hc
    exact ⟨c, rfl, hsame.withoutStats⟩

/-- **A failover elects among the ids of the last reply.** -/
theorem failover_elects {seat : Seat} (h : seat.Tracks) {cluster : Cluster}
    (hb : seat.reporter.failover = .ok (.ok (.becomeScheduler cluster))) :
    ∃ c, seat.seen = some c ∧ IsLeast {k | k ∈ (c.removeServer c.group.schedulerInfo.id).2.ids}
      seat.reporter.server.id := by
  obtain ⟨state, saved, next, hl, hc, -, hleast⟩ := failover_becomes hb
  obtain ⟨c, hseen, hsame⟩ := seen_of_saved h hl hc
  refine ⟨c, hseen, ?_⟩
  convert hleast using 1
  exact Set.ext fun k => (hsame.remaining k).symm

/-! ### Every reporter tracks its replies -/

/-- The reporters' saved states track their replies. -/
def Net.Tracks (s : Net) : Prop := ∀ seat ∈ s.seats, seat.Tracks

theorem tracks_step {s s' : Net} {a : NetAct} (h : s.Tracks) (hs : s.step a = some s') :
    s'.Tracks := by
  intro seat hseat
  rcases Net.seat_cases hs hseat with hold | ⟨server, scheduler, rfl⟩ |
    ⟨old, hold, sys, metrics, it, rt, -, -, hit, rfl⟩
  · exact h seat hold
  · rfl
  · exact tracks_reply (h old hold) hit

theorem tracks_empty : Net.empty.Tracks := by
  intro seat hseat
  cases hseat

/-! ### The assumption of `chooseScheduler` -/

/-- In the branch for a lost scheduler, the servers that are left include the reporter's own. -/
def Seat.SafeFailover (seat : Seat) : Prop :=
  ∀ state cluster, seat.reporter.lastClusterState = some state →
    Cluster.tryFrom state = .ok cluster →
    (cluster.removeServer cluster.group.schedulerInfo.id).2.servers ≠ [] ∧
      seat.reporter.server.id ∈ (cluster.removeServer cluster.group.schedulerInfo.id).2.ids

omit [Crates] in
/-- The last reply lists the reporter's own server, and a second time if it is the scheduler. -/
def Seat.Listed (seat : Seat) : Prop :=
  ∀ c, seat.seen = some c → seat.reporter.server.id ∈ c.ids ∧
    (seat.reporter.server.id = c.group.schedulerInfo.id → 2 ≤ c.ids.count seat.reporter.server.id)

theorem safeFailover_iff {seat : Seat} (h : seat.Tracks) : seat.SafeFailover ↔ seat.Listed := by
  unfold Seat.Tracks at h
  rcases hseen : seat.seen with _ | c
  · rw [hseen] at h
    refine iff_of_true (fun state cluster hl => ?_) fun c hc => ?_
    · rw [h] at hl
      simp at hl
    · rw [hseen] at hc
      simp at hc
  · rw [hseen] at h
    have hlisted : seat.Listed ↔
        seat.reporter.server.id ∈ (c.removeServer c.group.schedulerInfo.id).2.ids := by
      unfold Seat.Listed
      rw [hseen, Cluster.mem_ids_removeServer]
      exact ⟨fun hc => hc c rfl, fun hc c' hc' => by cases hc'; exact hc⟩
    rw [hlisted]
    constructor
    · intro hsafe
      obtain ⟨c₀, it, hit, hl, hsame⟩ := h
      exact (hsame.withoutStats.remaining _).mp (hsafe _ _ hl (Cluster.tryFrom_into hit)).2
    · intro hmem state cluster hl hc
      obtain ⟨c₀, rfl, hsame⟩ := saved_decodes h hl hc
      have hown := (hsame.withoutStats.remaining _).mpr hmem
      refine ⟨fun hnil => ?_, hown⟩
      obtain ⟨t, ht, -⟩ := Cluster.mem_ids.mp hown
      rw [hnil] at ht
      simp at ht

/-- If the step is a failover, the assumption of `chooseScheduler` holds. -/
def FailoverSafe (s : Net) : NetAct → Prop
  | .failover i => ∀ seat, s.seats[i]? = some seat → seat.SafeFailover
  | _ => True

omit [Crates] in
/-- If the step is a failover, its reporter was listed in the last reply. -/
def FailoverListed (s : Net) : NetAct → Prop
  | .failover i => ∀ seat, s.seats[i]? = some seat → seat.Listed
  | _ => True

/-- **The assumption of `chooseScheduler` holds at its call** in exactly the runs in which every
reporter that fails over was listed in the last reply it got, twice if it is the scheduler's own. -/
theorem failoverSafe_iff (as : List NetAct) :
    EachStep Net.step FailoverSafe Net.empty as ↔
      EachStep Net.step FailoverListed Net.empty as := by
  refine eachStep_congr_of_invariant (I := Net.Tracks) (fun s a s' h hs => tracks_step h hs) ?_
    tracks_empty
  intro s a s' h _
  rcases a with ⟨addr, act⟩ | ⟨server, scheduler⟩ | ⟨i, metrics, it⟩ | i | k | server | addr
  case failover =>
    constructor
    · intro hsafe seat hseat
      exact (safeFailover_iff (h seat (List.mem_of_getElem? hseat))).mp (hsafe seat hseat)
    · intro hlisted seat hseat
      exact (safeFailover_iff (h seat (List.mem_of_getElem? hseat))).mpr (hlisted seat hseat)
  all_goals exact Iff.rfl

/-- A reporter can always fail over. -/
theorem exists_failover {s : Net} {i : ℕ} {seat : Seat} (h : s.seats[i]? = some seat) :
    ∃ s', s.step (.failover i) = some s' := by
  simp only [Net.step, h]
  split
  · exact ⟨_, rfl⟩
  · exact ⟨_, rfl⟩

end Tracking

/-! ### A scheduler that starts again -/

section Restart

attribute [local instance] Crates.hyphenated

/-- A member reports to a scheduler that crashes, starts again without it, and crashes again. -/
def forgotten : List NetAct :=
  .boot schedulerServer :: (joins memberServer 0 ++
    [.report 0 idleWindow [], .crash schedulerServer.addr, .boot schedulerServer,
      .report 0 idleWindow [], .crash schedulerServer.addr])

theorem forgotten_member_panics :
    ¬ ∀ as : List NetAct, EachStep Net.step FailoverSafe Net.empty as := by
  intro h
  have hrun : (run Net.step Net.empty forgotten).map (fun s => s.seats[0]?.map Seat.reporter) =
      some (some ⟨schedulerServer, memberServer,
        some ((Cluster.new schedulerServer).into [])⟩) := by decide +kernel
  obtain ⟨s, hs, hseat⟩ := Option.map_eq_some_iff.mp hrun
  obtain ⟨seat, hget, hrep⟩ := Option.map_eq_some_iff.mp hseat
  obtain ⟨s', hs'⟩ := exists_failover hget
  have hsafe := h (forgotten ++ [.failover 0]) forgotten (.failover 0) s s' List.prefix_rfl hs hs'
  have hne := (hsafe seat hget _ _ (by rw [hrep])
    (Cluster.tryFrom_into (c := Cluster.new schedulerServer) Keyed.iter_empty)).1
  exact absurd hne (by decide)

end Restart

end Laqista
