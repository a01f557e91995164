import Laqista.Crates
import Laqista.Utils

/-! # The metrics of a Radeon GPU

A line of radeontop gives thirteen utilisations with the time of the sample. Only the one of the GPU
is reported, with a window that starts at that time and takes a second. -/

namespace Laqista

open Laqista.Proto Laqista.Lib

/-- The utilisations are the percentages of the line. -/
structure RadeonMetrics where
  timestamp : DateTime
  gpu : ℚ
  ee : ℚ
  vgt : ℚ
  ta : ℚ
  sx : ℚ
  sh : ℚ
  spi : ℚ
  sc : ℚ
  pa : ℚ
  db : ℚ
  cb : ℚ
  vram : ℚ
  gtt : ℚ
  deriving DecidableEq

namespace RadeonMetrics

def timeWindow (m : RadeonMetrics) : Except Panic TimeWindow :=
  let start := m.timestamp
  match start.checkedAdd (10 ^ 9) with
  | some stop => .ok ⟨some (datetimeToProst start), some (datetimeToProst stop)⟩
  | none => .error ⟨"`DateTime + TimeDelta` overflowed"⟩

/-- `Into<ResourceUtilization>`. What is not measured is `-1`. -/
def intoUtilization (m : RadeonMetrics) : ResourceUtilization where
  gpu := toI32 (m.gpu * 100)
  cpu := -1
  ramTotal := -1
  ramUsed := -1
  vramTotal := -1
  vramUsed := -1

/-- `Into<MonitorWindow>`. -/
def intoWindow (m : RadeonMetrics) : Except Panic MonitorWindow := do
  let window ← m.timeWindow
  return ⟨some window, some m.intoUtilization⟩

end RadeonMetrics
end Laqista
