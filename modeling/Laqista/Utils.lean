import Laqista.Info
import Laqista.Lib.DateTime
import Laqista.Lib.F64
import Mathlib.Data.List.Sort

/-! # Helper functions

Time and percentages (`subtractWindow`, `mulAsPercent`), and the comparison of two cluster states
with which a reporter decides whether to replace the one it has saved (`clusterDiffers`).

`clusterDiffers_eq_false`: between states that name a scheduler, the comparison sees the scheduler's
id, the ids of the servers up to order, and the number of the instances, and nothing else.
`equivalent_iff`: two states without a group always differ, and a state without a scheduler differs
from none for its group, so the comparison is an equivalence only away from these. -/

namespace Laqista

open Laqista.Proto Laqista.Lib

/-- `end - start` in nanoseconds. The sums are in 128 bits, where they cannot overflow. -/
def subtractWindow (e start : Timestamp) : Int64 :=
  let startI128 : ℤ := start.nanos.toInt + (e.seconds <<< (32 : Int64)).toInt
  let endI128 : ℤ := e.nanos.toInt + (e.seconds <<< (32 : Int64)).toInt
  Int64.ofInt (endI128 - startI128)

/-- `x` times `percent` hundredths, as a floating-point product cast back to an integer. -/
def mulAsPercent (x percent : Int64) : Int64 :=
  toI64 ((x.toInt : ℚ) * ((percent.toInt : ℚ) / 100))

/-- `datetime_to_prost`: the seconds are those of the minute. -/
def datetimeToProst (dt : DateTime) : Timestamp := ⟨Int64.ofNat dt.second, Int32.ofNat dt.nanos⟩

/-! ### Comparing cluster states -/

def groupDiffers (a b : Group) : Bool :=
  match a.scheduler, b.scheduler with
  | some sa, some sb => sa.id != sb.id
  | _, _ => false

/-- The ids of the servers, sorted. -/
def sortedIds (servers : List Server) : List String :=
  (servers.map (·.id)).insertionSort (· ≤ ·)

def serversDiffer (a b : List Server) : Bool := sortedIds a != sortedIds b

/-- Only the number of the instances is compared. -/
def instancesDiffer (a b : List AppInstanceLocations) : Bool := a.length != b.length

def clusterDiffers (a b : ClusterState) : Bool :=
  let groupChanged := match a.group, b.group with
    | some ga, some gb => groupDiffers ga gb
    | none, none => true
    | _, _ => false
  let serversChanged := serversDiffer a.servers b.servers
  let instancesChanged := instancesDiffer a.instances b.instances
  groupChanged || serversChanged || instancesChanged

theorem sortedIds_eq_iff {a b : List Server} :
    sortedIds a = sortedIds b ↔ (a.map (·.id)).Perm (b.map (·.id)) := by
  unfold sortedIds
  constructor
  · intro h
    have ha := List.perm_insertionSort (· ≤ ·) (a.map (·.id))
    have hb := List.perm_insertionSort (· ≤ ·) (b.map (·.id))
    exact ha.symm.trans (h ▸ hb)
  · intro h
    exact List.Perm.eq_of_pairwise' (List.pairwise_insertionSort (· ≤ ·) _)
      (List.pairwise_insertionSort (· ≤ ·) _)
      ((List.perm_insertionSort _ _).trans (h.trans (List.perm_insertionSort _ _).symm))

theorem serversDiffer_eq_false {a b : List Server} :
    serversDiffer a b = false ↔ (a.map (·.id)).Perm (b.map (·.id)) := by
  rw [serversDiffer, bne_eq_false_iff_eq, sortedIds_eq_iff]

/-- The id of the scheduler that a state names. -/
def schedulerId (st : ClusterState) : Option String :=
  st.group.bind fun g => g.scheduler.map (·.id)

/-- The groups do not count as changed: one is there, and no two schedulers are named. -/
structure GroupsAgree (a b : ClusterState) : Prop where
  isSome : a.group.isSome ∨ b.group.isSome
  scheduler : ∀ i j, schedulerId a = some i → schedulerId b = some j → i = j

/-- The servers have the same ids up to order, and there are as many instances. -/
structure SameMembers (a b : ClusterState) : Prop where
  servers : (a.servers.map (·.id)).Perm (b.servers.map (·.id))
  instances : a.instances.length = b.instances.length

theorem isSome_of_schedulerId {st : ClusterState} {i : String} (h : schedulerId st = some i) :
    st.group.isSome := by
  obtain ⟨g, hg, -⟩ := Option.bind_eq_some_iff.mp h
  rw [hg]
  rfl

theorem schedulerId_of_group {st : ClusterState} {g : Group} (h : st.group = some g) :
    schedulerId st = g.scheduler.map (·.id) := by
  unfold schedulerId
  rw [h]
  rfl

theorem groupDiffers_eq_false {a b : Group} : groupDiffers a b = false ↔
    ∀ s t, a.scheduler = some s → b.scheduler = some t → s.id = t.id := by
  unfold groupDiffers
  rcases a.scheduler with _ | s
  · simp
  · rcases b.scheduler with _ | t
    · simp
    · simp

theorem groupsAgree_iff {a b : ClusterState} {ga gb : Group} (ha : a.group = some ga)
    (hb : b.group = some gb) : GroupsAgree a b ↔ groupDiffers ga gb = false := by
  have hida := schedulerId_of_group ha
  have hidb := schedulerId_of_group hb
  rw [groupDiffers_eq_false]
  constructor
  · intro h s t hs ht
    rw [hs] at hida
    rw [ht] at hidb
    exact h.scheduler s.id t.id hida hidb
  · intro h
    refine ⟨.inl (by simp [ha]), fun i j hi hj => ?_⟩
    obtain ⟨s, hs, rfl⟩ := Option.map_eq_some_iff.mp (hida.symm.trans hi)
    obtain ⟨t, ht, rfl⟩ := Option.map_eq_some_iff.mp (hidb.symm.trans hj)
    exact h s t hs ht

/-- **What the comparison sees.** -/
theorem clusterDiffers_iff {a b : ClusterState} :
    clusterDiffers a b = false ↔ GroupsAgree a b ∧ SameMembers a b := by
  have hmembers : SameMembers a b ↔ serversDiffer a.servers b.servers = false ∧
      instancesDiffer a.instances b.instances = false := by
    rw [serversDiffer_eq_false, instancesDiffer, bne_eq_false_iff_eq]
    exact ⟨fun h => ⟨h.servers, h.instances⟩, fun h => ⟨h.1, h.2⟩⟩
  rw [hmembers]
  unfold clusterDiffers
  rcases ha : a.group with _ | ga
  · rcases hb : b.group with _ | gb
    · have hgroups : ¬ GroupsAgree a b := fun h => by simpa [ha, hb] using h.isSome
      simp [hgroups]
    · have hgroups : GroupsAgree a b := ⟨by simp [hb], by simp [schedulerId, ha]⟩
      simp [hgroups]
  · rcases hb : b.group with _ | gb
    · have hgroups : GroupsAgree a b := ⟨by simp [ha], by simp [schedulerId, hb]⟩
      simp [hgroups]
    · simp [groupsAgree_iff ha hb, and_assoc]

theorem GroupsAgree.symm {a b : ClusterState} (h : GroupsAgree a b) : GroupsAgree b a :=
  ⟨h.isSome.symm, fun i j hi hj => (h.scheduler j i hj hi).symm⟩

theorem SameMembers.refl (a : ClusterState) : SameMembers a a := ⟨List.Perm.refl _, rfl⟩

theorem SameMembers.symm {a b : ClusterState} (h : SameMembers a b) : SameMembers b a :=
  ⟨h.servers.symm, h.instances.symm⟩

theorem SameMembers.trans {a b c : ClusterState} (h : SameMembers a b) (h' : SameMembers b c) :
    SameMembers a c :=
  ⟨h.servers.trans h'.servers, h.instances.trans h'.instances⟩

/-- **What the comparison sees**, when both states name a scheduler. -/
theorem clusterDiffers_eq_false {a b : ClusterState} (ha : (schedulerId a).isSome)
    (hb : (schedulerId b).isSome) :
    clusterDiffers a b = false ↔ schedulerId a = schedulerId b ∧
      (a.servers.map (·.id)).Perm (b.servers.map (·.id)) ∧
      a.instances.length = b.instances.length := by
  obtain ⟨i, hi⟩ := Option.isSome_iff_exists.mp ha
  obtain ⟨j, hj⟩ := Option.isSome_iff_exists.mp hb
  have hgroup := isSome_of_schedulerId hi
  rw [clusterDiffers_iff, hi, hj, Option.some.injEq]
  constructor
  · rintro ⟨hagree, hsame⟩
    exact ⟨hagree.scheduler i j hi hj, hsame.servers, hsame.instances⟩
  · rintro ⟨rfl, hservers, hinstances⟩
    refine ⟨⟨.inl hgroup, fun k l hk hl => ?_⟩, hservers, hinstances⟩
    rw [hi] at hk
    rw [hj] at hl
    exact (Option.some.inj hk).symm.trans (Option.some.inj hl)

/-! ### An equivalence -/

/-- The same state with its lists in another order. -/
structure Reordered (a a' : ClusterState) : Prop where
  group : a'.group = a.group
  servers : a'.servers.Perm a.servers
  instances : a'.instances.Perm a.instances

/-- What an equivalence that does not look at the order of the lists satisfies at three states. -/
structure Equivalent (a b c : ClusterState) : Prop where
  refl : clusterDiffers a a = false
  symm : clusterDiffers a b = clusterDiffers b a
  trans : clusterDiffers a b = false → clusterDiffers b c = false → clusterDiffers a c = false
  order : ∀ a' b', Reordered a a' → Reordered b b' → clusterDiffers a' b' = clusterDiffers a b

theorem clusterDiffers_comm (a b : ClusterState) : clusterDiffers a b = clusterDiffers b a := by
  rw [Bool.eq_iff_iff, ← not_iff_not, Bool.not_eq_true, Bool.not_eq_true, clusterDiffers_iff,
    clusterDiffers_iff]
  exact ⟨fun h => ⟨h.1.symm, h.2.symm⟩, fun h => ⟨h.1.symm, h.2.symm⟩⟩

theorem Reordered.same {a a' : ClusterState} (h : Reordered a a') :
    schedulerId a' = schedulerId a ∧ SameMembers a' a := by
  refine ⟨?_, h.servers.map _, h.instances.length_eq⟩
  unfold schedulerId
  rw [h.group]

theorem clusterDiffers_reordered {a a' b b' : ClusterState} (ha : Reordered a a')
    (hb : Reordered b b') : clusterDiffers a' b' = clusterDiffers a b := by
  obtain ⟨hsa, hma⟩ := ha.same
  obtain ⟨hsb, hmb⟩ := hb.same
  have hgroups : GroupsAgree a' b' ↔ GroupsAgree a b := by
    constructor
    · rintro ⟨hsome, hsched⟩
      rw [ha.group, hb.group] at hsome
      rw [hsa, hsb] at hsched
      exact ⟨hsome, hsched⟩
    · rintro ⟨hsome, hsched⟩
      rw [← ha.group, ← hb.group] at hsome
      rw [← hsa, ← hsb] at hsched
      exact ⟨hsome, hsched⟩
  rw [Bool.eq_iff_iff, ← not_iff_not, Bool.not_eq_true, Bool.not_eq_true, clusterDiffers_iff,
    clusterDiffers_iff, hgroups]
  exact ⟨fun h => ⟨h.1, (hma.symm.trans h.2).trans hmb⟩,
    fun h => ⟨h.1, (hma.trans h.2).trans hmb.symm⟩⟩

/-- A state differs from itself exactly if it has no group. -/
theorem clusterDiffers_self (a : ClusterState) : clusterDiffers a a = false ↔ a.group.isSome := by
  rw [clusterDiffers_iff]
  constructor
  · rintro ⟨h, -⟩
    exact h.isSome.elim id id
  · intro h
    refine ⟨⟨.inl h, fun i j hi hj => ?_⟩, SameMembers.refl a⟩
    rw [hi] at hj
    exact Option.some.inj hj

/-- **The comparison is an equivalence exactly at states** with a group, where no state without a
scheduler is between two schedulers. -/
theorem equivalent_iff (a b c : ClusterState) : Equivalent a b c ↔ a.group.isSome ∧
    ¬ (schedulerId b = none ∧ (∃ i j, schedulerId a = some i ∧ schedulerId c = some j ∧ i ≠ j) ∧
      SameMembers a b ∧ SameMembers b c) := by
  constructor
  · intro h
    have hgroup := (clusterDiffers_self a).mp h.refl
    refine ⟨hgroup, ?_⟩
    rintro ⟨hb, ⟨i, j, hi, hj, hne⟩, hab, hbc⟩
    have hcgroup := isSome_of_schedulerId hj
    have h₁ : clusterDiffers a b = false :=
      clusterDiffers_iff.mpr ⟨⟨.inl hgroup, by simp [hb]⟩, hab⟩
    have h₂ : clusterDiffers b c = false :=
      clusterDiffers_iff.mpr ⟨⟨.inr hcgroup, by simp [hb]⟩, hbc⟩
    obtain ⟨hac, -⟩ := clusterDiffers_iff.mp (h.trans h₁ h₂)
    exact hne (hac.scheduler i j hi hj)
  · rintro ⟨hgroup, hnot⟩
    refine ⟨(clusterDiffers_self a).mpr hgroup, clusterDiffers_comm a b, fun h₁ h₂ => ?_,
      fun a' b' ha hb => clusterDiffers_reordered ha hb⟩
    obtain ⟨hab, hmab⟩ := clusterDiffers_iff.mp h₁
    obtain ⟨hbc, hmbc⟩ := clusterDiffers_iff.mp h₂
    refine clusterDiffers_iff.mpr ⟨⟨.inl hgroup, fun i j hi hj => ?_⟩, hmab.trans hmbc⟩
    rcases hb : schedulerId b with _ | k
    · by_contra hne
      exact hnot ⟨hb, ⟨i, j, hi, hj, hne⟩, hmab, hmbc⟩
    · exact (hab.scheduler i k hi hb).trans (hbc.scheduler k j hb hj)

/-- A cluster of one scheduler, without servers. -/
def schedulerOnly (id : String) : ClusterState := ⟨some ⟨1, some ⟨id, ""⟩⟩, [], []⟩

/-- A state without a group differs from itself, and a group without a scheduler from none. -/
theorem not_equivalent : ¬ Equivalent ⟨none, [], []⟩ ⟨none, [], []⟩ ⟨none, [], []⟩ ∧
    ¬ Equivalent (schedulerOnly "a") ⟨some ⟨1, none⟩, [], []⟩ (schedulerOnly "b") := by
  refine ⟨fun h => ?_, fun h => ?_⟩
  · exact absurd h.refl (by decide)
  · exact absurd (h.trans (by decide) (by decide)) (by decide)

end Laqista
