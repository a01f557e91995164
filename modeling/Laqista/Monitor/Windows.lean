import Laqista.Monitor.Apple
import Laqista.Monitor.Radeon
import Laqista.Scheduler.Stats

/-! # The windows of the monitors

A `Timestamp` denotes seconds since the Unix epoch and nanoseconds. What a monitor writes into one
is the second of the minute, and what the scheduler makes of two of them is the difference of their
nanoseconds.

* `subtractWindow_toInt`: the seconds cancel.
* `datetimeToProst_ns_iff`: only the instants of the first minute are encoded as they are.
* `RadeonMetrics.sendsTrueWindow_iff`, `PowerMetrics.sendsTrueWindow_iff`: so only the windows
  inside this minute are true.
* `ordersBetween_iff`: order survives the encoding inside a minute and no further. -/

namespace Laqista.Proto

open Laqista.Lib

/-- Nanoseconds since the Unix epoch. -/
def Timestamp.ns (t : Timestamp) : ℤ := t.seconds.toInt * 10 ^ 9 + t.nanos.toInt

/-- The window is the one between two instants. -/
def TimeWindow.Denotes (w : TimeWindow) (start stop : DateTime) : Prop :=
  ∃ s e, w = ⟨some s, some e⟩ ∧ s.ns = start.ns ∧ e.ns = stop.ns

end Laqista.Proto

namespace Laqista

open Laqista.Proto Laqista.Lib

/-! ### What the scheduler computes -/

/-- **The seconds cancel**: both sums take them from the end of the window. -/
theorem subtractWindow_toInt (e start : Timestamp) :
    (subtractWindow e start).toInt = e.nanos.toInt - start.nanos.toInt := by
  have h1 := e.nanos.toInt_lt
  have h2 := start.nanos.toInt_lt
  have h3 := e.nanos.le_toInt
  have h4 := start.nanos.le_toInt
  have hcancel : e.nanos.toInt + (e.seconds <<< (32 : Int64)).toInt
      - (start.nanos.toInt + (e.seconds <<< (32 : Int64)).toInt)
      = e.nanos.toInt - start.nanos.toInt := by
    omega
  simp only [subtractWindow]
  rw [hcancel]
  exact Int64.toInt_ofInt_of_le (by omega) (by omega)

/-- The item of the iterator at a window all of whose parts are present. -/
theorem nextWindow_eq (start e : Timestamp) (u : ResourceUtilization) :
    nextWindow ⟨some ⟨some start, some e⟩, some u⟩ = .ok ⟨start, e, subtractWindow e start, u⟩ :=
  rfl

/-- The iterator yields the exact duration of a window. -/
def YieldsDuration (start e : Timestamp) (u : ResourceUtilization) : Prop :=
  ∃ w, nextWindow ⟨some ⟨some start, some e⟩, some u⟩ = .ok w ∧
    w.nanos.toInt = (e.seconds.toInt - start.seconds.toInt) * 10 ^ 9
      + (e.nanos.toInt - start.nanos.toInt)

/-- **Durations are exact inside a second**, whatever the nanoseconds are. -/
theorem yieldsDuration_iff (start e : Timestamp) (u : ResourceUtilization) :
    YieldsDuration start e u ↔ start.seconds = e.seconds := by
  have key : YieldsDuration start e u ↔ start.seconds.toInt = e.seconds.toInt := by
    unfold YieldsDuration
    rw [nextWindow_eq]
    constructor
    · rintro ⟨w, hw, hn⟩
      obtain rfl := Except.ok.inj hw
      rw [subtractWindow_toInt] at hn
      omega
    · intro h
      refine ⟨_, rfl, ?_⟩
      rw [subtractWindow_toInt]
      omega
  rw [key, Int64.toInt_inj]

/-- A whole second is lost. -/
theorem second_lost :
    ¬ YieldsDuration ⟨1700000000, 0⟩ ⟨1700000001, 0⟩ ⟨50, -1, -1, -1, -1, -1⟩ := by
  rintro ⟨w, hw, hn⟩
  obtain rfl := Except.ok.inj hw
  revert hn
  decide

/-! ### What the monitors send -/

theorem datetimeToProst_ns (d : DateTime) :
    (datetimeToProst d).ns = (d.second : ℤ) * 10 ^ 9 + d.nanos := by
  have h1 := d.second_lt
  have h2 := d.nanos_lt
  have hs : (Int64.ofNat d.second).toInt = d.second := Int64.toInt_ofNat_of_lt (by omega)
  have hn : (Int32.ofNat d.nanos).toInt = d.nanos := Int32.toInt_ofNat_of_lt (by omega)
  unfold datetimeToProst Timestamp.ns
  rw [hs, hn]

/-- **Only the first minute is encoded as it is.** -/
theorem datetimeToProst_ns_iff (d : DateTime) :
    (datetimeToProst d).ns = d.ns ↔ 0 ≤ d.secs ∧ d.secs < 60 := by
  have h := d.second_eq
  rw [datetimeToProst_ns]
  unfold DateTime.ns
  omega

theorem denotes_iff (start stop a b : DateTime) :
    TimeWindow.Denotes ⟨some (datetimeToProst start), some (datetimeToProst stop)⟩ a b ↔
      (datetimeToProst start).ns = a.ns ∧ (datetimeToProst stop).ns = b.ns := by
  constructor
  · rintro ⟨s, e, h, hs, he⟩
    obtain ⟨rfl, rfl⟩ : datetimeToProst start = s ∧ datetimeToProst stop = e := by
      simpa using h
    exact ⟨hs, he⟩
  · rintro ⟨hs, he⟩
    exact ⟨_, _, rfl, hs, he⟩

/-- The window that is sent for a sample denotes the second that starts with it. -/
def RadeonMetrics.SendsTrueWindow (m : RadeonMetrics) : Prop :=
  ∃ sent tw stop, m.intoWindow = .ok sent ∧ sent.window = some tw ∧
    m.timestamp.checkedAdd (10 ^ 9) = some stop ∧ tw.Denotes m.timestamp stop ∧
    stop.ns - m.timestamp.ns = 10 ^ 9

/-- **A Radeon window is true in the first minute of the epoch**, but for its last second. -/
theorem RadeonMetrics.sendsTrueWindow_iff (m : RadeonMetrics) :
    m.SendsTrueWindow ↔ 0 ≤ m.timestamp.secs ∧ m.timestamp.secs < 59 := by
  unfold SendsTrueWindow intoWindow timeWindow
  constructor
  · rintro ⟨sent, tw, stop, hsent, hw, hstop, htrue, hlen⟩
    simp only [hstop] at hsent
    obtain rfl := Except.ok.inj hsent
    obtain rfl := Option.some.inj hw
    obtain ⟨h1, h2⟩ := (denotes_iff _ _ _ _).mp htrue
    rw [datetimeToProst_ns_iff] at h1 h2
    have hnext := DateTime.checkedAdd_second hstop
    omega
  · rintro ⟨h0, h1⟩
    have hnanos := m.timestamp.nanos_lt
    have hns : m.timestamp.ns = m.timestamp.secs * 10 ^ 9 + m.timestamp.nanos := rfl
    have hn : m.timestamp.nanos < 10 ^ 9 := by omega
    have hlo : minSecs = -8334601228800 := rfl
    have hhi : maxSecs = 8210266876799 := rfl
    obtain ⟨stop, hstop⟩ := DateTime.exists_checkedAdd m.timestamp (10 ^ 9) (Or.inl hn)
      (by omega) (by omega)
    have hlen := DateTime.checkedAdd_ns hstop (Or.inl hn)
    have hnext := DateTime.checkedAdd_second hstop
    simp only [hstop]
    refine ⟨_, _, stop, rfl, rfl, rfl, (denotes_iff m.timestamp stop _ _).mpr ⟨?_, ?_⟩, by omega⟩
    · exact (datetimeToProst_ns_iff _).mpr (by omega)
    · exact (datetimeToProst_ns_iff _).mpr (by omega)

/-- The window that is sent for a sample denotes the time that it took. -/
def PowerMetrics.SendsTrueWindow (m : PowerMetrics) : Prop :=
  ∃ w tw, m.intoMetricsWindow = .ok w ∧ w.intoWindow.window = some tw ∧ w.end = m.timestamp ∧
    tw.Denotes w.start w.end ∧ w.end.ns - w.start.ns = m.elapsedNs.toInt

/-- **An Apple window is true in the first minute of the epoch**, if it began there too. -/
theorem PowerMetrics.sendsTrueWindow_iff (m : PowerMetrics) (h : 0 ≤ m.elapsedNs) :
    m.SendsTrueWindow ↔ 0 ≤ m.timestamp.secs ∧ m.timestamp.secs < 60 ∧
      m.elapsedNs.toInt ≤ m.timestamp.ns := by
  have hel : 0 ≤ m.elapsedNs.toInt := Int64.le_iff_toInt_le.mp h
  have hns : m.timestamp.ns = m.timestamp.secs * 10 ^ 9 + m.timestamp.nanos := rfl
  unfold SendsTrueWindow intoMetricsWindow
  constructor
  · rintro ⟨w, tw, hw, htw, hend, htrue, hlen⟩
    obtain rfl := Option.some.inj htw
    obtain ⟨h1, h2⟩ := (denotes_iff _ _ _ _).mp htrue
    rw [datetimeToProst_ns_iff] at h1 h2
    rw [hend] at h2 hlen
    have hstart : w.start.ns = w.start.secs * 10 ^ 9 + w.start.nanos := rfl
    omega
  · rintro ⟨h0, h1, hle⟩
    have hlo : minSecs = -8334601228800 := rfl
    have hhi : maxSecs = 8210266876799 := rfl
    have hnanos := m.timestamp.nanos_lt
    obtain ⟨start, hstart⟩ := DateTime.exists_checkedAdd m.timestamp
      (-m.elapsedNs.toInt) (Or.inr (by omega)) (by omega) (by omega)
    have hlen := DateTime.checkedAdd_ns hstart (Or.inr (by omega))
    have hback := DateTime.checkedAdd_nonpos hstart (by omega)
    have hstartns : start.ns = start.secs * 10 ^ 9 + start.nanos := rfl
    simp only [hstart]
    refine ⟨⟨start, _, m⟩, _, rfl, rfl, rfl, (denotes_iff start m.timestamp _ _).mpr ⟨?_, ?_⟩, ?_⟩
    · exact (datetimeToProst_ns_iff _).mpr (by omega)
    · exact (datetimeToProst_ns_iff _).mpr ⟨h0, h1⟩
    · show m.timestamp.ns - start.ns = m.elapsedNs.toInt
      omega

/-! ### Order -/

/-- The instants from `a` to `b` are encoded in their order. -/
def OrdersBetween (a b : DateTime) : Prop :=
  ∀ x y : DateTime, ¬ x.Before a → ¬ b.Before y → x.Before y →
    (datetimeToProst x).ns < (datetimeToProst y).ns

/-- Inside a minute the encoding keeps the order, also of the instants of a leap second. -/
theorem datetimeToProst_lt {x y : DateTime} (h : x.Before y) (hm : x.minute = y.minute) :
    (datetimeToProst x).ns < (datetimeToProst y).ns := by
  have hx := x.second_add_minute
  have hy := y.second_add_minute
  have hxs := x.second_eq
  have hys := y.second_lt
  have hn := x.nanos_lt
  unfold DateTime.Before at h
  rw [datetimeToProst_ns, datetimeToProst_ns]
  omega

/-- The first instant of the minute of `b`, if an earlier one can be represented. -/
theorem exists_minuteStart {a b : DateTime} (h : a.minute < b.minute) :
    ∃ y : DateTime, a.Before y ∧ ¬ b.Before y ∧ (datetimeToProst y).ns = 0 := by
  have ha := a.second_add_minute
  have has := a.second_lt
  have hb := b.second_add_minute
  have halo := a.inRange.1
  have hbhi := b.inRange.2
  obtain ⟨y, hy⟩ := DateTime.exists_fromTimestamp (60 * b.minute) 0 (by omega) (by omega)
    (Or.inl (by decide))
  obtain ⟨hsecs, hnanos⟩ := DateTime.fromTimestamp_eq_some.mp hy
  have hsecond := y.second_eq
  refine ⟨y, Or.inl (by omega), ?_, ?_⟩
  · unfold DateTime.Before
    omega
  · rw [datetimeToProst_ns]
    omega

/-- **The order of instants survives inside a minute**, and no further. -/
theorem ordersBetween_iff {a b : DateTime} (h : a.Before b) :
    OrdersBetween a b ↔ a.minute = b.minute := by
  constructor
  · intro hord
    by_contra hne
    have hlt : a.minute < b.minute := lt_of_le_of_ne h.minute_le hne
    obtain ⟨y, hay, hyb, hy0⟩ := exists_minuteStart hlt
    have hrefl : ¬ a.Before a := by
      unfold DateTime.Before
      omega
    have key := hord a y hrefl hyb hay
    rw [hy0, datetimeToProst_ns] at key
    omega
  · intro hm x y hxa hyb hxy
    have h1 := DateTime.minute_le_of_not_before hxa
    have h2 := DateTime.minute_le_of_not_before hyb
    have h3 := hxy.minute_le
    exact datetimeToProst_lt hxy (by omega)

/-- **True windows.** The monitors send true windows in the first minute of the epoch, and the order
of instants is kept inside each minute. -/
theorem sendsTrueWindows_iff (m : RadeonMetrics) (p : PowerMetrics) (hp : 0 ≤ p.elapsedNs)
    (a b : DateTime) (hab : a.Before b) :
    (m.SendsTrueWindow ↔ 0 ≤ m.timestamp.secs ∧ m.timestamp.secs < 59) ∧
    (p.SendsTrueWindow ↔
      0 ≤ p.timestamp.secs ∧ p.timestamp.secs < 60 ∧ p.elapsedNs.toInt ≤ p.timestamp.ns) ∧
    (OrdersBetween a b ↔ a.minute = b.minute) :=
  ⟨m.sendsTrueWindow_iff, p.sendsTrueWindow_iff hp, ordersBetween_iff hab⟩

/-- The last second of a minute of an ordinary day. -/
def ordinary : DateTime := ⟨1700000039, 0, by decide, by decide⟩

/-- A second of the first minute. -/
def early : DateTime := ⟨10, 0, by decide, by decide⟩

/-- A line of radeontop without load. -/
def idleAt (timestamp : DateTime) : RadeonMetrics where
  timestamp := timestamp
  gpu := 0
  ee := 0
  vgt := 0
  ta := 0
  sx := 0
  sh := 0
  spi := 0
  sc := 0
  pa := 0
  db := 0
  cb := 0
  vram := 0
  gtt := 0

theorem sends_true_windows_early :
    (idleAt early).SendsTrueWindow ∧
    PowerMetrics.SendsTrueWindow ⟨⟨1⟩, 1000000000, early⟩ ∧
    OrdersBetween early ⟨11, 0, by decide, by decide⟩ := by
  obtain ⟨hradeon, happle, horder⟩ := sendsTrueWindows_iff (idleAt early)
    ⟨⟨1⟩, 1000000000, early⟩ (by decide) early ⟨11, 0, by decide, by decide⟩ (.inl (by decide))
  exact ⟨hradeon.mpr (by decide), happle.mpr (by decide), horder.mpr (by decide)⟩

theorem sends_false_windows :
    ¬ (idleAt ordinary).SendsTrueWindow ∧
    ¬ PowerMetrics.SendsTrueWindow ⟨⟨1⟩, 1000000000, ordinary⟩ ∧
    ¬ OrdersBetween ordinary ⟨1700000040, 0, by decide, by decide⟩ := by
  refine ⟨?_, ?_, ?_⟩
  · rw [RadeonMetrics.sendsTrueWindow_iff]
    decide
  · rw [PowerMetrics.sendsTrueWindow_iff _ (by decide)]
    decide
  · rw [ordersBetween_iff (Or.inl (by decide))]
    decide

end Laqista
