import Laqista.Scheduler.Mean
import Laqista.Lib.Least

/-! # Which server the mean scheduler picks

The loop of `schedule` starts with the first entry and with the rate `0`, which is not the first
entry's rate. It is `leastBelow` on the rates (`foldlM_eq_leastBelow`), so it finds a least utilised
server only below the rate `0`. Rates of servers with a positive total duration are negative only
where the windows of negative duration outweigh the others.

`schedule_least_iff`: the server that is picked is a least utilised one exactly when the first entry
in the iteration order is, or some rate is negative. -/

namespace Laqista

open Laqista.Proto Laqista.Lib Laqista.Lib.Least

/-- The server has reported windows that are complete, have a positive duration in total and a
utilisation between 0 and 100 per cent. -/
def ReportsPercent (percent : ResourceUtilization → Int32) (stats : ServerStats) : Prop :=
  ∃ windows, stats.windows = .ok windows ∧
    0 < (windows.map fun w => (w.nanos.toInt : ℚ)).sum ∧
    ∀ w ∈ windows, 0 ≤ (percent w.utilization).toInt ∧ (percent w.utilization).toInt ≤ 100

/-- The rate of the entry is a number that is at most the rate of every entry. -/
def LeastRate (rate : ServerStats → Except Panic F64) (it : List ServerStats)
    (stats : ServerStats) : Prop :=
  ∃ q, rate stats = .ok (.rat q) ∧ ∀ other ∈ it, ∃ r, rate other = .ok (.rat r) ∧ q ≤ r

/-- The server of an entry with a least rate is picked. -/
def PicksLeast (rate : ServerStats → Except Panic F64)
    (scheduled : Except Panic (Option ServerInfo)) (it : List ServerStats) : Prop :=
  ∃ server, scheduled = .ok (some server) ∧
    ∃ stats ∈ it, stats.server = server ∧ LeastRate rate it stats

/-- Some entry has a rate below zero. -/
def SomeNegative (rate : ServerStats → Except Panic F64) (it : List ServerStats) : Prop :=
  ∃ stats ∈ it, ∃ q, rate stats = .ok (.rat q) ∧ q < 0

/-! ### Rates -/

/-- The rate as a number. -/
def rateValue (rate : ServerStats → Except Panic F64) (stats : ServerStats) : ℚ :=
  match rate stats with
  | .ok x => x.value
  | .error _ => 0

theorem rateValue_of_ok {rate : ServerStats → Except Panic F64} {stats : ServerStats} {q : ℚ}
    (h : rate stats = .ok (.rat q)) : rateValue rate stats = q := by
  unfold rateValue
  rw [h]
  rfl

/-- The rate of a server that has reported is a number. -/
theorem utilizedRate_of_reported {percent : ResourceUtilization → Int32} {stats : ServerStats}
    (h : ReportsPercent percent stats) :
    utilizedRate percent stats = .ok (.rat (rateValue (utilizedRate percent) stats)) := by
  obtain ⟨windows, hw, hpos, -⟩ := h
  have hrate : ∃ q, utilizedRate percent stats = .ok (.rat q) := by
    unfold utilizedRate
    rw [hw]
    exact ⟨_, congrArg Except.ok (F64.div_of_ne_zero (ne_of_gt hpos))⟩
  obtain ⟨q, hq⟩ := hrate
  rw [rateValue_of_ok hq, hq]

section Loop

variable {rate : ServerStats → Except Panic F64} {it : List ServerStats}

theorem leastRate_iff (hrate : ∀ s ∈ it, rate s = .ok (.rat (rateValue rate s)))
    {stats : ServerStats} (hs : stats ∈ it) :
    LeastRate rate it stats ↔ ∀ other ∈ it, rateValue rate stats ≤ rateValue rate other := by
  constructor
  · rintro ⟨q, hq, hle⟩ other ho
    obtain ⟨r, hr, hqr⟩ := hle other ho
    rw [rateValue_of_ok hq, rateValue_of_ok hr]
    exact hqr
  · intro hle
    exact ⟨_, hrate stats hs, fun other ho => ⟨_, hrate other ho, hle other ho⟩⟩

theorem someNegative_iff (hrate : ∀ s ∈ it, rate s = .ok (.rat (rateValue rate s))) :
    SomeNegative rate it ↔ ∃ stats ∈ it, rateValue rate stats < 0 := by
  constructor
  · rintro ⟨stats, hs, q, hq, hneg⟩
    exact ⟨stats, hs, by rwa [rateValue_of_ok hq]⟩
  · rintro ⟨stats, hs, hneg⟩
    exact ⟨stats, hs, _, hrate stats hs, hneg⟩

/-- **The loop** carries the rate along as `leastBelow` does. -/
theorem foldlM_eq_leastBelow (hrate : ∀ s ∈ it, rate s = .ok (.rat (rateValue rate s)))
    (acc : ServerStats × ℚ) :
    it.foldlM (scheduleStep rate) (acc.1, .rat acc.2) =
      .ok ((leastBelow (rateValue rate) acc it).1,
        .rat (leastBelow (rateValue rate) acc it).2) := by
  induction it generalizing acc with
  | nil => rfl
  | cons s it ih =>
    have hs : scheduleStep rate (acc.1, .rat acc.2) s =
        .ok ((if rateValue rate s < acc.2 then (s, rateValue rate s) else acc).1,
          .rat (if rateValue rate s < acc.2 then (s, rateValue rate s) else acc).2) := by
      unfold scheduleStep
      rw [hrate s (by simp), ok_bind]
      by_cases h : rateValue rate s < acc.2
      · simp [F64.lt, h]
      · simp [F64.lt, h]
    rw [List.foldlM_cons, hs, ok_bind, ih fun t ht => hrate t (by simp [ht])]
    rfl

/-- **What the loop picks**, of entries with distinct servers. -/
theorem picksLeast_iff {first : ServerStats} {rest : List ServerStats}
    (hdistinct : ∀ s ∈ first :: rest, s.server = first.server → s = first)
    (hrate : ∀ s ∈ first :: rest, rate s = .ok (.rat (rateValue rate s))) :
    PicksLeast rate (scheduleBy rate (first :: rest)) (first :: rest) ↔
      LeastRate rate (first :: rest) first ∨ SomeNegative rate (first :: rest) := by
  have hloop : scheduleBy rate (first :: rest) =
      .ok (some (leastBelow (rateValue rate) (first, 0) (first :: rest)).1.server) := by
    unfold scheduleBy
    dsimp only
    rw [foldlM_eq_leastBelow hrate (first, 0)]
    rfl
  rw [someNegative_iff hrate]
  rcases leastBelow_cases (rateValue rate) (first, 0) (first :: rest) with
    ⟨heq, hle⟩ | ⟨x, hx, heq, hneg, hle⟩
  · -- no rate is negative: the first entry stays
    rw [heq] at hloop
    constructor
    · rintro ⟨server, hs, stats, hmem, hserver, hleast⟩
      rw [hloop] at hs
      obtain rfl := Option.some.inj (Except.ok.inj hs)
      rw [hdistinct stats hmem hserver] at hleast
      exact Or.inl hleast
    · rintro (hleast | ⟨stats, hmem, hneg⟩)
      · exact ⟨first.server, hloop, first, by simp, rfl, hleast⟩
      · exact absurd hneg (not_lt.mpr (hle stats hmem))
  · -- below zero the loop finds a least rate
    rw [heq] at hloop
    refine iff_of_true ⟨x.server, hloop, x, hx, rfl, (leastRate_iff hrate hx).mpr hle⟩ ?_
    exact Or.inr ⟨x, hx, hneg⟩

end Loop

/-- **A least utilised server is picked exactly when it is the first one**, or when a rate is
negative, for the cpu and for the gpu. -/
theorem schedule_least_iff {m : StatsMap} {first : ServerStats} {rest : List ServerStats}
    (hit : m.Iter (first :: rest)) :
    ((∀ stats ∈ first :: rest, ReportsPercent (·.cpu) stats) →
      (PicksLeast cpuUtilizedRate (schedule (first :: rest)) (first :: rest) ↔
        LeastRate cpuUtilizedRate (first :: rest) first ∨
          SomeNegative cpuUtilizedRate (first :: rest))) ∧
    ((∀ stats ∈ first :: rest, ReportsPercent (·.gpu) stats) →
      (PicksLeast gpuUtilizedRate (scheduleGpu (first :: rest)) (first :: rest) ↔
        LeastRate gpuUtilizedRate (first :: rest) first ∨
          SomeNegative gpuUtilizedRate (first :: rest))) := by
  have hdistinct : ∀ s ∈ first :: rest, s.server = first.server → s = first := by
    intro s hs he
    have hl : m.lookup s.server.id = some s := hit.lookup hs
    rw [he] at hl
    have hf : m.lookup first.server.id = some first := hit.lookup (by simp)
    exact Option.some.inj (hl.symm.trans hf)
  refine ⟨fun h => ?_, fun h => ?_⟩
  · exact picksLeast_iff hdistinct fun s hs => utilizedRate_of_reported (h s hs)
  · exact picksLeast_iff hdistinct fun s hs => utilizedRate_of_reported (h s hs)

/-! ### A busy server in front of an idle one -/

def utilizedWindow (percent : Int32) : MonitorWindow :=
  ⟨some ⟨some ⟨0, 0⟩, some ⟨0, 1000⟩⟩, some ⟨percent, 0, 0, percent, 0, 0⟩⟩

def busyStats : ServerStats := ⟨⟨1, "http://10.0.0.1:50051"⟩, [utilizedWindow 80]⟩

def idleStats : ServerStats := ⟨⟨2, "http://10.0.0.2:50051"⟩, [utilizedWindow 10]⟩

theorem reportsPercent_utilized {server : ServerInfo} {percent : Int32} (h0 : 0 ≤ percent.toInt)
    (h1 : percent.toInt ≤ 100) :
    ReportsPercent (·.cpu) ⟨server, [utilizedWindow percent]⟩ ∧
      ReportsPercent (·.gpu) ⟨server, [utilizedWindow percent]⟩ := by
  have hw : ServerStats.windows ⟨server, [utilizedWindow percent]⟩ =
      .ok [⟨⟨0, 0⟩, ⟨0, 1000⟩, 1000, ⟨percent, 0, 0, percent, 0, 0⟩⟩] := rfl
  constructor
  · exact ⟨_, hw, by simp, by simpa using ⟨h0, h1⟩⟩
  · exact ⟨_, hw, by simp, by simpa using ⟨h0, h1⟩⟩

/-- The busy server is listed first and is picked. -/
theorem schedule_picks_busy : ¬ ∀ (m : StatsMap) (it : List ServerStats), m.Iter it → it ≠ [] →
    (∀ stats ∈ it, ReportsPercent (·.cpu) stats) → PicksLeast cpuUtilizedRate (schedule it) it := by
  intro h
  have hrep : ∀ stats ∈ [busyStats, idleStats], ReportsPercent (·.cpu) stats := by
    intro stats hs
    rcases List.mem_cons.mp hs with rfl | hs
    · exact (reportsPercent_utilized (by decide) (by decide)).1
    · rw [List.mem_singleton.mp hs]
      exact (reportsPercent_utilized (by decide) (by decide)).1
  have hbusy : cpuUtilizedRate busyStats = .ok (.rat (4 / 5)) := by decide +kernel
  have hidle : cpuUtilizedRate idleStats = .ok (.rat (1 / 10)) := by decide +kernel
  obtain ⟨server, hs, stats, hmem, rfl, q, hq, hle⟩ :=
    h (.ofList [busyStats, idleStats]) [busyStats, idleStats] (by decide) (by simp) hrep
  have hpick : schedule [busyStats, idleStats] = .ok (some busyStats.server) := by decide +kernel
  rw [hpick] at hs
  have hid : busyStats.server.id = stats.server.id := by
    rw [Option.some.inj (Except.ok.inj hs)]
  rcases List.mem_cons.mp hmem with rfl | hmem
  · obtain ⟨r, hr, hqr⟩ := hle idleStats (by simp)
    have hq' : q = 4 / 5 := by simpa [hbusy] using hq.symm
    have hr' : r = 1 / 10 := by simpa [hidle] using hr.symm
    rw [hq', hr'] at hqr
    norm_num at hqr
  · rw [List.mem_singleton.mp hmem] at hid
    exact absurd hid (by decide)

/-- The idle server is listed first and is picked, for the cpu and for the gpu. -/
theorem schedule_least_idle_first :
    PicksLeast cpuUtilizedRate (schedule [idleStats, busyStats]) [idleStats, busyStats] ∧
      PicksLeast gpuUtilizedRate (scheduleGpu [idleStats, busyStats]) [idleStats, busyStats] := by
  have hit : Keyed.Iter (.ofList [idleStats, busyStats] : StatsMap) [idleStats, busyStats] := by
    decide
  have hiff := schedule_least_iff hit
  have hall : ∀ P : ServerStats → Prop, P idleStats → P busyStats →
      ∀ stats ∈ [idleStats, busyStats], P stats := by
    intro P h1 h2
    simpa using ⟨h1, h2⟩
  have hi : ReportsPercent (·.cpu) idleStats ∧ ReportsPercent (·.gpu) idleStats :=
    reportsPercent_utilized (by decide) (by decide)
  have hb : ReportsPercent (·.cpu) busyStats ∧ ReportsPercent (·.gpu) busyStats :=
    reportsPercent_utilized (by decide) (by decide)
  refine ⟨(hiff.1 (hall _ hi.1 hb.1)).mpr (Or.inl ⟨1 / 10, by decide +kernel, ?_⟩),
    (hiff.2 (hall _ hi.2 hb.2)).mpr (Or.inl ⟨1 / 10, by decide +kernel, ?_⟩)⟩
  · exact hall _ ⟨1 / 10, by decide +kernel, le_rfl⟩ ⟨4 / 5, by decide +kernel, by norm_num⟩
  · exact hall _ ⟨1 / 10, by decide +kernel, le_rfl⟩ ⟨4 / 5, by decide +kernel, by norm_num⟩

end Laqista
