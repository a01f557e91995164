import Laqista.Monitor.Apple
import Laqista.Monitor.Printed
import Laqista.Scheduler.Mean
import Mathlib.Algebra.Order.BigOperators.Group.List

/-! # The unit of the two monitors

Both monitors report a load of the GPU as an integer. The Apple path turns the idle share into a
percentage. The Radeon path reads a percentage and multiplies it by a hundred once more, so its unit
is the hundredth of a percent, while the scheduler divides what it is sent by a hundred.

`sameUnit_iff`: the two agree on a load, and what the scheduler makes of their windows is a rate
between 0 and 1, exactly when no load is above zero. -/

namespace Laqista.Monitor

open Laqista.Proto Laqista.Lib

/-- A load in hundredths of a percent, as radeontop and as powermetrics show it. -/
structure Sample where
  load : ℕ
  load_le : load ≤ 10000
  line : Line
  line_gpu : (line.ratio "gpu").hundredths = load
  power : PowerMetrics
  power_gpu : power.gpu.idleRatio = 1 - (load / 100) / 100

/-- The parser reads the line, and its metrics give the utilisation. -/
def Sample.RadeonReports (s : Sample) (u : ResourceUtilization) : Prop :=
  ∃ m, metricsLine s.line.text = .ok [] m ∧ m.intoUtilization = u

def Sample.AppleReports (s : Sample) (u : ResourceUtilization) : Prop := s.power.intoUtilization = u

/-- The window comes from one of the monitors and has a positive duration. -/
def Sample.Sends (s : Sample) (w : MonitorWindow) : Prop :=
  ∃ x, nextWindow w = .ok x ∧ 0 < x.nanos.toInt ∧
    (s.RadeonReports x.utilization ∨ s.AppleReports x.utilization)

/-- The monitors report the same percentage of each load, and the utilised rate of any windows with
these loads is a share. -/
structure SameUnit (samples : List Sample) : Prop where
  equal : ∀ s ∈ samples, ∃ u v, s.RadeonReports u ∧ s.AppleReports v ∧ u.gpu = v.gpu ∧
    0 ≤ u.gpu.toInt ∧ u.gpu.toInt ≤ 100
  rate : ∀ server windows, windows ≠ [] → (∀ w ∈ windows, ∃ s ∈ samples, s.Sends w) →
    ∃ q, gpuUtilizedRate ⟨server, windows⟩ = .ok (.rat q) ∧ 0 ≤ q ∧ q ≤ 1

/-! ### The values that are sent -/

/-- The Radeon path sends hundredths of a percent. -/
theorem radeon_gpu (s : Sample) {u : ResourceUtilization} (h : s.RadeonReports u) :
    u.gpu.toInt = s.load := by
  obtain ⟨m, hm, rfl⟩ := h
  rw [metricsLine_text] at hm
  obtain rfl := (Parsed.ok.inj hm).2
  have hvalue : s.line.metrics.gpu * 100 = ((s.load : ℕ) : ℚ) / (1 : ℕ) := by
    show (((s.line.ratio "gpu").hundredths : ℚ) / 100) * 100 = _
    rw [s.line_gpu]
    push_cast
    ring
  have hload := s.load_le
  refine toInt_toI32 ?_ (by omega)
  rw [hvalue, trunc_natCast_div, Nat.div_one]

/-- The Apple path sends percents. -/
theorem apple_gpu (s : Sample) {u : ResourceUtilization} (h : s.AppleReports u) :
    u.gpu.toInt = (s.load / 100 : ℕ) := by
  obtain rfl := h
  have hvalue : s.power.gpu.utilizationRatio * 100 = ((s.load : ℕ) : ℚ) / (100 : ℕ) := by
    unfold PowerGpu.utilizationRatio
    rw [s.power_gpu]
    push_cast
    ring
  have hload := s.load_le
  refine toInt_toI32 ?_ (by omega)
  rw [hvalue, trunc_natCast_div]

/-! ### The rate -/

theorem mulAsPercent_zero (x : Int64) : mulAsPercent x (0 : Int32).toInt64 = 0 := by
  have hz : ((0 : Int32).toInt64.toInt : ℚ) = 0 := rfl
  unfold mulAsPercent
  rw [hz, zero_div, mul_zero]
  rfl

/-- An unused GPU. -/
theorem gpuUtilizedRate_zero {server : ServerInfo} {windows : List MonitorWindow}
    (hne : windows ≠ []) (h : ∀ w ∈ windows, ∃ x, nextWindow w = .ok x ∧
      (0 < x.nanos.toInt ∧ x.utilization.gpu = 0)) :
    gpuUtilizedRate ⟨server, windows⟩ = .ok (.rat 0) := by
  obtain ⟨xs, hxs, hlen, hall⟩ := mapM_ok_of_forall h
  have hpos : 0 < (xs.map fun w => (w.nanos.toInt : ℚ)).sum := by
    refine List.sum_pos _ (fun q hq => ?_) ?_
    · obtain ⟨x, hx, rfl⟩ := List.mem_map.mp hq
      exact Int.cast_pos.mpr (hall x hx).1
    · intro hnil
      rw [List.map_eq_nil_iff.mp hnil] at hlen
      exact hne (List.length_eq_zero_iff.mp hlen.symm)
  have hzero : (xs.map fun w =>
      ((mulAsPercent w.nanos w.utilization.gpu.toInt64).toInt : ℚ)).sum = 0 := by
    refine List.sum_eq_zero fun q hq => ?_
    obtain ⟨x, hx, rfl⟩ := List.mem_map.mp hq
    rw [(hall x hx).2, mulAsPercent_zero]
    rfl
  have hw : ServerStats.windows ⟨server, windows⟩ = .ok xs := hxs
  unfold gpuUtilizedRate utilizedRate
  rw [hw, ok_bind]
  dsimp only
  rw [hzero, F64.div_of_ne_zero (ne_of_gt hpos), zero_div]
  rfl

/-- **The monitors speak one unit exactly where no load is above zero.** -/
theorem sameUnit_iff (samples : List Sample) :
    SameUnit samples ↔ ∀ s ∈ samples, s.load = 0 := by
  constructor
  · intro h s hs
    obtain ⟨u, v, hu, hv, heq, -⟩ := h.equal s hs
    have hradeon := radeon_gpu s hu
    have hgpu := apple_gpu s hv
    rw [← heq, hradeon] at hgpu
    omega
  · intro h
    have hradeon : ∀ s ∈ samples, ∀ u, s.RadeonReports u → u.gpu = 0 := by
      intro s hs u hu
      refine Int32.toInt_inj.mp ((radeon_gpu s hu).trans ?_)
      rw [h s hs]
      rfl
    have happle : ∀ s ∈ samples, ∀ u, s.AppleReports u → u.gpu = 0 := by
      intro s hs u hu
      refine Int32.toInt_inj.mp ((apple_gpu s hu).trans ?_)
      rw [h s hs]
      rfl
    refine ⟨fun s hs => ?_, fun server windows hne hsent => ?_⟩
    · have hu : s.RadeonReports s.line.metrics.intoUtilization := ⟨_, metricsLine_text s.line, rfl⟩
      have hgpu := hradeon s hs _ hu
      refine ⟨_, _, hu, rfl, hgpu.trans (happle s hs _ rfl).symm, ?_, ?_⟩
      · rw [hgpu]
        decide
      · rw [hgpu]
        decide
    · refine ⟨0, gpuUtilizedRate_zero hne fun w hw => ?_, le_rfl, zero_le_one⟩
      obtain ⟨s, hs, x, hx, hpos, hu | hu⟩ := hsent w hw
      · exact ⟨x, hx, hpos, hradeon s hs _ hu⟩
      · exact ⟨x, hx, hpos, happle s hs _ hu⟩

/-! ### A GPU that is half used -/

theorem metricNames_alpha :
    ∀ key ∈ metricNames, key.toList ≠ [] ∧ ∀ c ∈ key.toList, Char.isAlpha c := by
  have hall : metricNames.all (fun key => !key.toList.isEmpty && key.toList.all Char.isAlpha) := by
    decide +kernel
  simpa [List.all_eq_true] using hall

def metricEntry (n : Numeral) (key : String) (h : key ∈ metricNames) : Entry :=
  ⟨key.toList, .percent n none, (metricNames_alpha key h).1, (metricNames_alpha key h).2⟩

/-- "0.00" -/
def nought : Numeral where
  int := ['0']
  frac := ['0', '0']
  int_ne := by simp
  int_digits := by simp
  int_lt := by decide
  frac_digits := by simp
  frac_length := by simp

/-- "50.00" -/
def fifty : Numeral := { nought with
  int := ['5', '0']
  int_ne := by simp
  int_digits := by simp
  int_lt := by decide }

def halfRatio (key : String) : Numeral := if key = "gpu" then fifty else nought

def epoch : DateTime := ⟨0, 0, by decide, by decide⟩

/-- Only the GPU is used. -/
def halfLine : Line where
  stamp := ⟨0, ['0'], by simp, by simp, epoch, by decide⟩
  first := metricEntry fifty "gpu" (by decide)
  others := metricNames.tail.pmap (metricEntry nought) fun _ h => List.mem_of_mem_tail h
  distinct := by decide +kernel
  ratio := halfRatio
  named := by
    intro key hkey
    by_cases hgpu : key = "gpu"
    · subst hgpu
      exact ⟨none, _, List.mem_cons_self .., rfl, rfl⟩
    · have htail : key ∈ metricNames.tail := by
        rcases List.mem_cons.mp hkey with h | h
        · exact absurd h hgpu
        · exact h
      refine ⟨none, metricEntry nought key hkey, List.mem_cons_of_mem _ ?_, rfl, ?_⟩
      · exact List.mem_pmap.mpr ⟨key, htail, rfl⟩
      · unfold halfRatio
        rw [if_neg hgpu]
        rfl

def halfSample : Sample where
  load := 5000
  load_le := by decide
  line := halfLine
  line_gpu := by decide
  power := ⟨⟨1 / 2⟩, 1000000000, epoch⟩
  power_gpu := by norm_num

/-- At half load the monitors report `5000` and `50`. -/
theorem halfSample_differs : ¬ ∀ samples : List Sample, SameUnit samples := by
  intro h
  obtain ⟨u, v, hu, hv, heq, -⟩ := (h [halfSample]).equal halfSample (by simp)
  have hradeon := radeon_gpu halfSample hu
  have hgpu := apple_gpu halfSample hv
  rw [heq, hgpu] at hradeon
  exact absurd hradeon (by decide)

end Laqista.Monitor
