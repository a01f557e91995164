import Laqista.Net.Snapshot

/-! # Elections from one snapshot

Two survivors whose snapshots name the same scheduler and list the same servers, in whatever orders,
elect the same server: the one with the smallest id besides the scheduler (`election_agrees`). Only
its own reporter makes it the scheduler, with a cluster that the failed one has left; every other
one joins it. -/

namespace Laqista

open Laqista.Proto Laqista.Lib

/-- The server with the smallest id besides the scheduler. -/
structure Cluster.IsSuccessor (c : Cluster) (next : ServerInfo) : Prop where
  mem : next ∈ c.servers
  other : next.id ≠ c.group.schedulerInfo.id
  least : ∀ s ∈ c.servers, s.id ≠ c.group.schedulerInfo.id → next.id ≤ s.id

/-- Distinct ids leave one server with the smallest of them. -/
theorem Cluster.IsSuccessor.unique {c : Cluster} {s t : ServerInfo} (hd : c.ids.Nodup)
    (hs : c.IsSuccessor s) (ht : c.IsSuccessor t) : s = t := by
  have hid : s.id = t.id := le_antisymm (hs.least t ht.mem ht.other) (ht.least s hs.mem hs.other)
  exact List.inj_on_of_nodup_map hd hs.mem ht.mem hid

/-- The order of the servers does not matter. -/
theorem Cluster.IsSuccessor.perm {c d : Cluster} {s : ServerInfo} (h : c.IsSuccessor s)
    (hsched : c.group.schedulerInfo.id = d.group.schedulerInfo.id)
    (hservers : c.servers.Perm d.servers) : d.IsSuccessor s where
  mem := hservers.mem_iff.mp h.mem
  other := hsched ▸ h.other
  least t ht hne := h.least t (hservers.mem_iff.mpr ht) (by rw [hsched]; exact hne)

/-- With distinct ids, the servers without the scheduler are those with another id. -/
theorem Cluster.mem_removeServer {c : Cluster} (hd : c.ids.Nodup) {id : Uuid} {s : ServerInfo} :
    s ∈ (c.removeServer id).2.servers ↔ s ∈ c.servers ∧ s.id ≠ id := by
  have hids : ∀ t ∈ (c.removeServer id).2.servers, t.id ≠ id := by
    intro t ht he
    have hmem : t.id ∈ (c.removeServer id).2.ids := Cluster.mem_ids.mpr ⟨t, ht, rfl⟩
    rw [Cluster.removeServer_ids, hd.mem_erase_iff] at hmem
    exact hmem.1 he
  constructor
  · intro h
    refine ⟨?_, hids s h⟩
    rw [Cluster.removeServer_servers] at h
    exact List.mem_of_mem_eraseP h
  · rintro ⟨h, hne⟩
    rw [Cluster.removeServer_servers, List.mem_eraseP_of_neg (by simpa using hne)]
    exact h

section Reporters

variable [Crates]

/-- The reporter's snapshot decodes to the cluster, whose ids are distinct, with the reporter's own
server listed and not the scheduler. -/
structure MetricsReporter.Survives (rep : MetricsReporter) (c : Cluster) : Prop where
  saved : ∃ state, rep.lastClusterState = some state ∧ Cluster.tryFrom state = .ok c
  distinct : c.ids.Nodup
  listed : rep.server.id ∈ c.ids
  alive : rep.server.id ≠ c.group.schedulerInfo.id

/-- The failover branch elects `next` in the place of `failed`: the reporter of `next` sends it a
cluster without `failed` to become the scheduler of, any other reporter joins it. -/
def MetricsReporter.Elects (rep : MetricsReporter) (failed : Uuid) (next : ServerInfo) : Prop :=
  ∃ command, rep.failover = .ok (.ok command) ∧
    (rep.server.id = next.id → ∃ cluster, command = .becomeScheduler cluster ∧
      failed ∉ cluster.ids ∧ cluster.group.schedulerInfo = next) ∧
    (rep.server.id ≠ next.id → command = .update (.joining next.addr))

/-- **A survivor elects the server with the smallest id** besides the scheduler. -/
theorem survivor_elects {rep : MetricsReporter} {c : Cluster} (h : rep.Survives c) :
    ∃ next, c.IsSuccessor next ∧ rep.Elects c.group.schedulerInfo.id next := by
  obtain ⟨state, hl, hdec⟩ := h.saved
  obtain ⟨own, hown, hownid⟩ := Cluster.mem_ids.mp h.listed
  have hleft : own ∈ (c.removeServer c.group.schedulerInfo.id).2.servers :=
    (Cluster.mem_removeServer h.distinct).mpr ⟨hown, hownid ▸ h.alive⟩
  obtain ⟨⟨next, elected⟩, hchoose⟩ :=
    Cluster.chooseScheduler_isOk.mpr (List.ne_nil_of_mem hleft)
  obtain ⟨hmem, hleast, rfl⟩ := Cluster.chooseScheduler_ok hchoose
  have hnext := (Cluster.mem_removeServer h.distinct).mp hmem
  refine ⟨next, ⟨hnext.1, hnext.2, fun s hs hne => ?_⟩, ?_⟩
  · exact hleast s ((Cluster.mem_removeServer h.distinct).mpr ⟨hs, hne⟩)
  · have hcommand := rep.failover_eq hl hdec hchoose
    refine ⟨_, hcommand, fun he => ⟨_, if_pos he.symm, ?_, rfl⟩, fun hne => ?_⟩
    · show c.group.schedulerInfo.id ∉ (c.removeServer c.group.schedulerInfo.id).2.ids
      rw [Cluster.removeServer_ids]
      exact h.distinct.not_mem_erase
    · exact if_neg fun he => hne he.symm

/-- **Survivors with the same snapshot, in whatever orders, elect the same server.** -/
theorem election_agrees {r₁ r₂ : MetricsReporter} {c₁ c₂ : Cluster} (h₁ : r₁.Survives c₁)
    (h₂ : r₂.Survives c₂) (hsched : c₁.group.schedulerInfo.id = c₂.group.schedulerInfo.id)
    (hservers : c₁.servers.Perm c₂.servers) :
    ∃ next, c₁.IsSuccessor next ∧ r₁.Elects c₁.group.schedulerInfo.id next ∧
      r₂.Elects c₁.group.schedulerInfo.id next := by
  obtain ⟨next, hnext, helects⟩ := survivor_elects h₁
  obtain ⟨next', hnext', helects'⟩ := survivor_elects h₂
  have hsame : next' = next := hnext'.unique h₂.distinct (hnext.perm hsched hservers)
  rw [hsame, ← hsched] at helects'
  exact ⟨next, hnext, helects, helects'⟩

end Reporters

section TwoOrders

attribute [local instance] Crates.hyphenated

/-- Three servers, of which the first has failed, in the order `servers`. -/
def threeServers (servers : List ServerInfo) : Cluster :=
  { Cluster.new schedulerServer with servers := servers }

theorem survives_three {own : ServerInfo} {servers : List ServerInfo}
    (hd : (servers.map (·.id)).Nodup) (hown : own ∈ servers) (hne : own.id ≠ schedulerServer.id) :
    MetricsReporter.Survives ⟨schedulerServer, own, some ((threeServers servers).into [])⟩
      (threeServers servers) where
  saved := ⟨_, rfl, Cluster.tryFrom_into Keyed.iter_empty⟩
  distinct := hd
  listed := List.mem_map_of_mem hown
  alive := hne

theorem member_is_elected : ∃ next, Cluster.IsSuccessor
      (threeServers [thirdServer, schedulerServer, memberServer]) next ∧
    MetricsReporter.Elects ⟨schedulerServer, memberServer,
      some ((threeServers [thirdServer, schedulerServer, memberServer]).into [])⟩
      schedulerServer.id next ∧
    MetricsReporter.Elects ⟨schedulerServer, thirdServer,
      some ((threeServers [memberServer, thirdServer, schedulerServer]).into [])⟩
      schedulerServer.id next :=
  election_agrees (survives_three (by decide) (by decide) (by decide))
    (survives_three (by decide) (by decide) (by decide)) rfl (by decide)

end TwoOrders

end Laqista
