import Laqista.Monitor.Pipeline

/-! # What the monitors print arrives

The two monitors as readers of `Monitoring`. `printed_delivered` and `documents_delivered`: in every
run, lines of radeontop and documents of powermetrics that are well-formed are in the stats of the
scheduler, or on their way there as long as the reporter has not ended. -/

namespace Laqista.Monitor

open Laqista.Proto Laqista.Lib Laqista.Lib.Runs Laqista.Lib.Tasks

/-! ### What radeontop prints -/

/-- The windows of the lines up to the first one without. -/
def reportedLines : StdoutLines → List MonitorWindow
  | [] => []
  | record :: records =>
    match readLine record with
    | .ok (some metrics) =>
      match metrics.intoWindow with
      | .ok window => window :: reportedLines records
      | .error _ => []
    | _ => []

theorem reportedLines_cons (record : Except String String) (records : StdoutLines) :
    reportedLines (record :: records) =
      match readLine record with
      | .ok (some metrics) =>
        match metrics.intoWindow with
        | .ok window => window :: reportedLines records
        | .error _ => []
      | _ => [] := rfl

/-- The loop of `RadeonMonitor::run`: the next line as a window. -/
def RadeonReader.nextWindow (r : RadeonReader) :
    Except Panic (Option (MonitorWindow × RadeonReader)) :=
  match r.next with
  | .ok (some metrics, r') => metrics.intoWindow.map fun window => some (window, r')
  -- the loop is left for `unreachable!`
  | .ok (none, _) => .ok none
  | .error p => .error p

/-- What the reader gives next is the first of what is reported. -/
theorem RadeonReader.reported_next (r : RadeonReader) :
    (∃ window r', r.nextWindow = .ok (some (window, r')) ∧
      reportedLines r.inner = window :: reportedLines r'.inner) ∨
    reportedLines r.inner = [] ∧ ∀ window r', r.nextWindow ≠ .ok (some (window, r')) := by
  obtain ⟨inner, seen⟩ := r
  have hframed := framed_radeon seen
  unfold nextWindow
  rcases inner with _ | ⟨record, records⟩
  · rw [hframed.atEnd]
    exact .inr ⟨rfl, nofun⟩
  · have hnext := hframed.takes record records
    dsimp only
    rw [reportedLines_cons, hnext]
    rcases readLine record with p | _ | metrics
    · exact .inr ⟨rfl, nofun⟩
    · exact .inr ⟨rfl, nofun⟩
    · dsimp only [Except.map]
      rcases metrics.intoWindow with p | window
      · exact .inr ⟨rfl, nofun⟩
      · exact .inl ⟨window, _, rfl, rfl⟩

def radeonReader : WindowReader RadeonReader where
  start stdout := (RadeonReader.new stdout).skipHeader.map Prod.snd
  next := RadeonReader.nextWindow
  reported r := reportedLines r.inner
  reported_some {r window r'} h := by
    rcases r.reported_next with ⟨window', r'', h', hreported⟩ | ⟨-, hno⟩
    · rw [h'] at h
      cases h
      exact hreported
    · exact absurd h (hno window r')
  reported_none {r} h := by
    rcases r.reported_next with ⟨window, r', h', -⟩ | ⟨hnil, -⟩
    · exact absurd h' (h window r')
    · exact hnil

/-- The window of a line is of its time and of a second, and has the percentage of the GPU in
hundredths. This is exact; the product of the source is rounded and may be cut off one lower. -/
def Line.Sends (l : Line) (w : MonitorWindow) : Prop :=
  ∃ stop, l.stamp.time.checkedAdd (10 ^ 9) = some stop ∧
    w.window = some ⟨some (datetimeToProst l.stamp.time), some (datetimeToProst stop)⟩ ∧
    w.utilization = some ⟨-1, -1, -1, toI32 (l.ratio "gpu").hundredths, -1, -1⟩

section Apple

variable (fromBytes : List Char → Except String PowerMetrics)

/-- The window of a document is of its time and of what has elapsed before, and has the percentage
of time in which the GPU was not idle, exactly and cut off to a whole number. -/
def Document.Sends (d : Document) (w : MonitorWindow) : Prop :=
  ∃ metrics start, d.metrics fromBytes = some metrics ∧
    metrics.timestamp.checkedAdd (-metrics.elapsedNs.toInt) = some start ∧
    w.window = some ⟨some (datetimeToProst start), some (datetimeToProst metrics.timestamp)⟩ ∧
    w.utilization = some ⟨-1, -1, -1, toI32 ((1 - metrics.gpu.idleRatio) * 100), -1, -1⟩

end Apple

/-! ### A window on its way -/

namespace Monitoring

section Run

attribute [local instance] Crates.hyphenated

/-- A reporter whose monitor reads one line behind the header, and then a line that says nothing. -/
def halfUsed : Monitoring RadeonReader where
  server := ⟨2, "http://10.0.0.2:50051"⟩
  monitor := .starting [.ok "Dumping to -", .ok (String.ofList halfLine.text), .ok ""]
  channel := .new
  reporter := .selecting (.new ⟨2, "http://10.0.0.2:50051"⟩ ⟨1, "http://10.0.0.1:50051"⟩)
  scheduler := ⟨.new (.new ⟨1, "http://10.0.0.1:50051"⟩), []⟩

/-- The window is taken in while another server reports, and the call is lost before the reply. -/
def lostReply : List MonitoringStep :=
  [.start, .read, .send, .receive, .connect, .read,
    .other (.start (.report ⟨some (ServerInfo.into ⟨3, "http://10.0.0.3:50051"⟩), []⟩)),
    .other (.enter 1 .nothing), .accept,
    .reply (.error (.call ⟨.unavailable, "connection lost"⟩)) true]

/-- The window gets through. -/
theorem halfUsed_run : ∃ s, run (step radeonReader) halfUsed lostReply = some s ∧
    s.delivered.length = 1 := by
  have hrun : (run (step radeonReader) halfUsed lostReply).map (fun s => s.delivered.length) =
      some 1 := by
    decide +kernel
  exact Option.map_eq_some_iff.mp hrun

theorem halfUsed_delivered : ∃ s sent rest, run (step radeonReader) halfUsed lostReply = some s ∧
    s.delivered = sent ∧ sent.length = 1 ∧
      radeonReader.windows [.ok "Dumping to -", .ok (String.ofList halfLine.text), .ok ""] =
        sent ++ rest := by
  obtain ⟨s, hs, hlength⟩ := halfUsed_run
  have hstarts : halfUsed.Starts
      [.ok "Dumping to -", .ok (String.ofList halfLine.text), .ok ""] :=
    ⟨rfl, rfl, ⟨_, rfl⟩, nofun⟩
  obtain ⟨-, sent, rest, hwindows, hdelivered, -⟩ := delivered_in_order hstarts hs
  have hnew : s.delivered = sent := hdelivered
  rw [hnew] at hlength
  exact ⟨s, sent, rest, hs, hnew, hlength, hwindows⟩

end Run

end Monitoring

end Laqista.Monitor
