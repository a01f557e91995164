import Laqista.Crates
import Laqista.Utils

/-! # The metrics of an Apple GPU

A document of powermetrics gives the share of time in which the GPU was idle, with the end of the
sample and how long it took. -/

namespace Laqista

open Laqista.Proto Laqista.Lib

/-- `Gpu`. -/
structure PowerGpu where
  idleRatio : ℚ
  deriving DecidableEq

def PowerGpu.utilizationRatio (g : PowerGpu) : ℚ := 1 - g.idleRatio

/-- The timestamp is the instant that the `Date` of the document stands for. -/
structure PowerMetrics where
  gpu : PowerGpu
  elapsedNs : Int64
  timestamp : DateTime
  deriving DecidableEq

structure MetricsWindow where
  start : DateTime
  «end» : DateTime
  metrics : PowerMetrics
  deriving DecidableEq

/-- `Into<ResourceUtilization>`. What is not measured is `-1`. -/
def PowerMetrics.intoUtilization (m : PowerMetrics) : ResourceUtilization where
  gpu := toI32 (m.gpu.utilizationRatio * 100)
  cpu := -1
  ramTotal := -1
  ramUsed := -1
  vramTotal := -1
  vramUsed := -1

/-- `Into<MetricsWindow>`. -/
def PowerMetrics.intoMetricsWindow (m : PowerMetrics) : Except Panic MetricsWindow :=
  let e := m.timestamp
  match e.checkedAdd (-m.elapsedNs.toInt) with
  | some start => .ok ⟨start, e, m⟩
  | none => .error ⟨"`DateTime - TimeDelta` overflowed"⟩

def MetricsWindow.timeWindow (w : MetricsWindow) : TimeWindow :=
  ⟨some (datetimeToProst w.start), some (datetimeToProst w.end)⟩

/-- `Into<MonitorWindow>`. -/
def MetricsWindow.intoWindow (w : MetricsWindow) : MonitorWindow :=
  ⟨some w.timeWindow, some w.metrics.intoUtilization⟩

end Laqista
