import Laqista.Utils

/-! # The windows a server has reported

A `ServerStats` is a server with the windows of its reports in the order of their arrival. The
iterator over the windows takes them apart and panics at a window with an absent part. -/

namespace Laqista

open Laqista.Proto Laqista.Lib

structure ServerStats where
  server : ServerInfo
  stats : List MonitorWindow
  deriving DecidableEq, Repr

/-- `IdMap<ServerStats>`: the stats are stored under the id of their server. -/
abbrev StatsMap := Keyed fun s : ServerStats => s.server.id

/-- An item of the iterator over the windows. -/
structure Window where
  start : Timestamp
  «end» : Timestamp
  nanos : Int64
  utilization : ResourceUtilization
  deriving DecidableEq, Repr

/-- `Option::expect`. -/
def expect {α : Type} (message : String) : Option α → Except Panic α
  | some a => .ok a
  | none => .error ⟨message⟩

namespace ServerStats

def fromStats (server : ServerInfo) (stats : List MonitorWindow) : ServerStats := ⟨server, stats⟩

def append (s : ServerStats) (windows : List MonitorWindow) : ServerStats :=
  { s with stats := s.stats ++ windows }

@[simp] theorem append_server (s : ServerStats) (ws : List MonitorWindow) :
    (s.append ws).server = s.server := rfl

@[simp] theorem append_stats (s : ServerStats) (ws : List MonitorWindow) :
    (s.append ws).stats = s.stats ++ ws := rfl

end ServerStats

/-- `Windows::next` at one window. -/
def nextWindow (stats : MonitorWindow) : Except Panic Window := do
  let window ← expect "Start cannot be empty" stats.window
  let start ← expect "Start cannot be empty" window.start
  let e ← expect "End cannot be empty" window.end
  let nanos := subtractWindow e start
  let utilization ← expect "Utilization cannot be empty" stats.utilization
  return ⟨start, e, nanos, utilization⟩

/-- All items of the iterator. -/
def ServerStats.windows (s : ServerStats) : Except Panic (List Window) := s.stats.mapM nextWindow

end Laqista
