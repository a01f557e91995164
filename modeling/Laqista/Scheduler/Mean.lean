import Laqista.Scheduler.Stats

/-! # The mean scheduler

`schedule` walks over the stats in the iteration order of the map and keeps the server with the
smallest utilised share of the time it reported on, starting from the first server and the rate `0`.
A window with an absent part makes it panic. `schedule_mem`: what it returns is the server of one of
the entries. -/

namespace Laqista

open Laqista.Proto Laqista.Lib

/-- `SCALEOUT_THREASHOLD`. -/
def scaleoutThreashold : Int32 := 70

/-- The share of the reported time in which a resource was used: `utilizedRate` with the cpu's or
the gpu's percentage. -/
def utilizedRate (percent : ResourceUtilization → Int32) (stats : ServerStats) :
    Except Panic F64 := do
  let windows ← stats.windows
  let total : ℚ := (windows.map fun w => (w.nanos.toInt : ℚ)).sum
  let utilized : ℚ :=
    (windows.map fun w => ((mulAsPercent w.nanos (percent w.utilization).toInt64).toInt : ℚ)).sum
  return F64.div utilized total

def cpuUtilizedRate (stats : ServerStats) : Except Panic F64 := utilizedRate (·.cpu) stats

def gpuUtilizedRate (stats : ServerStats) : Except Panic F64 := utilizedRate (·.gpu) stats

/-- One turn of the loop: the least utilised server so far and its rate. -/
def scheduleStep (rate : ServerStats → Except Panic F64) (least : ServerStats × F64)
    (stats : ServerStats) : Except Panic (ServerStats × F64) := do
  let utilized ← rate stats
  return if utilized.lt least.2 then (stats, utilized) else least

/-- The loop of `schedule` and `schedule_gpu` over the stats in an iteration order. -/
def scheduleBy (rate : ServerStats → Except Panic F64) (it : List ServerStats) :
    Except Panic (Option ServerInfo) :=
  match it with
  | [] => .ok none
  | first :: _ => do
    let least ← it.foldlM (scheduleStep rate) (first, .rat 0)
    return some least.1.server

def schedule (it : List ServerStats) : Except Panic (Option ServerInfo) :=
  scheduleBy cpuUtilizedRate it

def scheduleGpu (it : List ServerStats) : Except Panic (Option ServerInfo) :=
  scheduleBy gpuUtilizedRate it

/-- Only the last window counts. -/
def needsScaleOut (stats : ServerStats) : Except Panic Bool :=
  match stats.stats.getLast? with
  | none => .ok false
  | some stat => do
    let utilization ← expect "called `Option::unwrap()` on a `None` value" stat.utilization
    return decide (scaleoutThreashold < utilization.cpu)

/-! ### What is scheduled -/

theorem scheduleStep_ok {rate : ServerStats → Except Panic F64} {least least' : ServerStats × F64}
    {stats : ServerStats} (h : scheduleStep rate least stats = .ok least') :
    least'.1 = stats ∨ least'.1 = least.1 := by
  obtain ⟨u, -, h⟩ := bind_eq_ok.mp h
  obtain rfl := Except.ok.inj h
  split_ifs
  · exact Or.inl rfl
  · exact Or.inr rfl

theorem foldlM_scheduleStep_mem {rate : ServerStats → Except Panic F64} {it : List ServerStats}
    {least least' : ServerStats × F64} (h : it.foldlM (scheduleStep rate) least = .ok least') :
    least'.1 = least.1 ∨ least'.1 ∈ it := by
  induction it generalizing least with
  | nil =>
    obtain rfl := Except.ok.inj h
    exact Or.inl rfl
  | cons stats it ih =>
    rw [List.foldlM_cons] at h
    obtain ⟨next, hs, h⟩ := bind_eq_ok.mp h
    rcases ih h with h1 | h1
    · rcases scheduleStep_ok hs with h2 | h2
      · right; rw [h1, h2]; simp
      · left; rw [h1, h2]
    · right; simp [h1]

theorem scheduleBy_mem {rate : ServerStats → Except Panic F64} {it : List ServerStats}
    {server : ServerInfo} (h : scheduleBy rate it = .ok (some server)) :
    ∃ stats ∈ it, stats.server = server := by
  rcases it with _ | ⟨first, rest⟩
  · cases h
  · obtain ⟨least, hf, h⟩ := bind_eq_ok.mp h
    cases h
    refine ⟨least.1, ?_, rfl⟩
    rcases foldlM_scheduleStep_mem hf with h1 | h1
    · rw [h1]; simp
    · exact h1

/-- The scheduler returns the server of an entry. -/
theorem schedule_mem {it : List ServerStats} {server : ServerInfo}
    (h : schedule it = .ok (some server)) : ∃ stats ∈ it, stats.server = server :=
  scheduleBy_mem h

/-- It returns none only on an empty map. -/
theorem schedule_none {it : List ServerStats} (h : schedule it = .ok none) : it = [] := by
  rcases it with _ | ⟨first, rest⟩
  · rfl
  · obtain ⟨least, -, h⟩ := bind_eq_ok.mp h
    simp at h

end Laqista
