import Laqista.Monitor.Panics
import Laqista.Monitor.Units

/-! # Entries and times of any sample

`metricsLine_entries`: whatever the entries of a line, with distinct names and in any order, the
parser reads the line to its end if the names that are looked up are among them with a percentage,
and each metric is that percentage, truncated to hundredths.

The digits behind the dot of a time are read as a number of nanoseconds, not as a decimal fraction.
`sampleTimes_iff`: the time of a sample is exact only with nine digits or with nothing but zeros,
and the distance and the order of two samples are kept only where both lose as much, and where the
seconds or the digits already decide. -/

namespace Laqista.Monitor

open Laqista.Lib Laqista.Lib.Parser

/-! ### Times -/

def TimeText.secs (t : TimeText) : ℤ :=
  if t.sign = ['-'] then -(decimal t.int : ℤ) else decimal t.int

/-- What the parser makes of a time. -/
def TimeText.time (t : TimeText) : DateTime :=
  (DateTime.fromTimestamp t.secs (decimal t.frac)).get t.valid

theorem TimeText.fromTimestamp_eq (t : TimeText) :
    DateTime.fromTimestamp t.secs (decimal t.frac) = some t.time := (Option.some_get _).symm

theorem TimeText.secs_time (t : TimeText) : t.time.secs = t.secs :=
  (DateTime.fromTimestamp_eq_some.mp t.fromTimestamp_eq).1

theorem reads_timeText (t : TimeText) {rest : List Char}
    (hr : ∀ c ∈ rest.head?, Char.isDigit c = false) : Reads timestamp t.text t.time rest := by
  have hsecs := t.signed_int rest t.fromTimestamp_eq
  have hnsecs := t.unsigned_frac hr
  refine bind_ok_iff.mpr ⟨_, _, hsecs, bind_ok_iff.mpr ⟨_, (), dot_ok_iff.mpr rfl,
    bind_ok_iff.mpr ⟨rest, _, hnsecs, ?_⟩⟩⟩
  rw [t.secs_time, t.fromTimestamp_eq]
  rfl

/-! ### Entries in any order -/

/-- The names that are looked up, each with its metric. -/
def metricFields : List (String × (RadeonMetrics → ℚ)) :=
  [("gpu", RadeonMetrics.gpu), ("ee", RadeonMetrics.ee), ("vgt", RadeonMetrics.vgt),
   ("ta", RadeonMetrics.ta), ("sx", RadeonMetrics.sx), ("sh", RadeonMetrics.sh),
   ("spi", RadeonMetrics.spi), ("sc", RadeonMetrics.sc), ("pa", RadeonMetrics.pa),
   ("db", RadeonMetrics.db), ("cb", RadeonMetrics.cb), ("vram", RadeonMetrics.vram),
   ("gtt", RadeonMetrics.gtt)]

theorem metricFields_names : metricFields.map Prod.fst = metricNames := rfl

theorem Line.metrics_fields (l : Line) :
    ∀ f ∈ metricFields, f.2 l.metrics = l.percentage f.1 := by
  simp [metricFields, Line.metrics]

theorem intercalate_entries (first : Entry) (others : List Entry) :
    List.intercalate ", ".toList ((first :: others).map Entry.text) =
      first.text ++ separated ", ".toList Entry.text others := by
  induction others generalizing first with
  | nil => simp [List.intercalate, separated]
  | cons e es ih =>
    have hrest := ih e
    unfold List.intercalate separated at hrest ⊢
    rw [List.map_cons] at hrest ⊢
    rw [List.map_cons, List.intersperse_cons_cons, List.flatten_cons, List.flatten_cons, hrest,
      List.flatMap_cons, List.append_assoc]

/-- The entries of a line behind another time. -/
def Line.atTime (l : Line) (t : TimeText) : Line :=
  { l with stamp := ⟨t.secs, t.frac, t.frac_ne, t.frac_digits, t.time, t.fromTimestamp_eq⟩ }

theorem metricsLine_atTime (l : Line) (t : TimeText) :
    metricsLine (t.text ++ (": ".toList ++ (l.first.text ++
      separated ", ".toList Entry.text l.others))) = .ok [] (l.atTime t).metrics := by
  have hreads : Reads metricsLine (t.text ++ (": ".toList ++ (l.first.text ++
      separated ", ".toList Entry.text l.others))) (l.atTime t).metrics [] := by
    refine reads_bind (reads_timeText t (by simp)) (reads_bind (reads_tag ": " _) ?_)
    exact reads_bind_last (reads_utilizationMap (l.atTime t)) (reads_radeonFromMap (l.atTime t) [])
  unfold Reads at hreads
  rw [List.append_nil] at hreads
  exact hreads

/-- **The parser undoes printing**, for the entries in any order. -/
theorem metricsLine_entries (t : TimeText) (es : List Entry)
    (hdistinct : (es.map Entry.name).Nodup)
    (hnamed : ∀ key ∈ metricNames, ∃ e ∈ es, ∃ ratio abs,
      e.name = key.toList ∧ e.value = .percent ratio abs) :
    ∃ m, metricsLine (t.text ++ (": ".toList ++
        List.intercalate ", ".toList (es.map Entry.text))) = .ok [] m ∧
      m.timestamp = t.time ∧
      ∀ f ∈ metricFields, ∀ e ∈ es, ∀ ratio abs, e.name = f.1.toList →
        e.value = .percent ratio abs → f.2 m = ratio.hundredths / 100 := by
  obtain ⟨e₀, he₀, ratio₀, -⟩ := hnamed "gpu" (by decide)
  have hentry : Nonempty Entry := ⟨e₀⟩
  have hnumeral : Nonempty Numeral := ⟨ratio₀⟩
  choose! e he ratio abs hname hvalue using hnamed
  obtain ⟨first, others, rfl⟩ := List.exists_cons_of_ne_nil (List.ne_nil_of_mem he₀)
  let l : Line := ⟨⟨t.secs, t.frac, t.frac_ne, t.frac_digits, t.time, t.fromTimestamp_eq⟩, first,
    others, hdistinct, ratio,
    fun key hkey => ⟨abs key, e key, he key hkey, hname key hkey, hvalue key hkey⟩⟩
  refine ⟨(l.atTime t).metrics, ?_, rfl, fun f hf e' he' ratio' abs' hname' hvalue' => ?_⟩
  · rw [intercalate_entries]
    exact metricsLine_atTime l t
  · have hkey : f.1 ∈ metricNames := by
      rw [← metricFields_names]
      exact List.mem_map_of_mem hf
    -- the names are distinct, so the entry is the one that was found
    have hsame : e' = e f.1 := List.inj_on_of_nodup_map hdistinct he' (he f.1 hkey)
      (hname'.trans (hname f.1 hkey).symm)
    rw [hsame, hvalue f.1 hkey] at hvalue'
    rw [(l.atTime t).metrics_fields f hf, ← (EntryValue.percent.inj hvalue').1]
    rfl

/-- "1730461004.264057" -/
def dumpTime : TimeText where
  sign := []
  int := "1730461004".toList
  frac := "264057".toList
  sign_cases := Or.inl rfl
  int_ne := by decide
  int_digits := by simp
  frac_ne := by decide
  frac_digits := by simp
  valid := by decide

/-- "bus 02" -/
def busEntry : Entry where
  name := "bus".toList
  value := .id ⟨['0', '2'], 2, by simp, by simp [isHexDigit, Hex.charValue], by decide, by decide⟩
  name_ne := by decide
  name_alpha := by simp

/-- A line with an id in front. -/
theorem dump_read :
    ∃ m, metricsLine (dumpTime.text ++ (": ".toList ++
        List.intercalate ", ".toList ((busEntry :: halfLine.entries).map Entry.text))) = .ok [] m ∧
      m.timestamp = dumpTime.time ∧
      ∀ f ∈ metricFields, ∀ e ∈ busEntry :: halfLine.entries, ∀ ratio abs, e.name = f.1.toList →
        e.value = .percent ratio abs → f.2 m = ratio.hundredths / 100 := by
  refine metricsLine_entries dumpTime (busEntry :: halfLine.entries) (by decide +kernel)
    fun key hkey => ?_
  obtain ⟨abs, e, he, hname, hvalue⟩ := halfLine.named key hkey
  exact ⟨e, List.mem_cons_of_mem _ he, _, abs, hname, hvalue⟩

/-! ### The digits behind the dot -/

/-- A time with at most nine digits behind the dot. -/
structure SampleTime extends TimeText where
  frac_le : frac.length ≤ 9

namespace SampleTime

/-- The digits behind the dot as a decimal fraction, in nanoseconds. -/
def fraction (t : SampleTime) : ℕ := decimal t.frac * 10 ^ (9 - t.frac.length)

/-- The time that is printed, in nanoseconds since the Unix epoch. -/
def instant (t : SampleTime) : ℤ := t.secs * 10 ^ 9 + t.fraction

/-- The parser returns the time that is printed. -/
def Exact (t : SampleTime) : Prop :=
  ∀ rest : List Char, (∀ c ∈ rest.head?, Char.isDigit c = false) →
    ∃ d, timestamp (t.text ++ rest) = .ok rest d ∧ d.ns = t.instant

/-- A line with this time gives metrics of the instant. -/
def Gives (t : SampleTime) (d : DateTime) : Prop := ∃ body rest m,
  metricsLine (t.text ++ (": ".toList ++ body)) = .ok rest m ∧ m.timestamp = d

def KeepDistance (a b : SampleTime) : Prop :=
  ∀ d e, a.Gives d → b.Gives e → e.ns - d.ns = b.instant - a.instant

def KeepOrder (a b : SampleTime) : Prop :=
  ∀ d e, a.Gives d → b.Gives e →
    (d.Before e ↔ a.instant < b.instant) ∧ (e.Before d ↔ b.instant < a.instant)

/-- The part of the fraction that the parser loses. -/
def lost (t : SampleTime) : ℕ := t.fraction - decimal t.frac

theorem fraction_bounds (t : SampleTime) : decimal t.frac ≤ t.fraction ∧ t.fraction < 10 ^ 9 := by
  have hpos : 0 < 10 ^ (9 - t.frac.length) := Nat.pow_pos (by decide)
  have hpow : 10 ^ t.frac.length * 10 ^ (9 - t.frac.length) = 10 ^ 9 := by
    rw [← pow_add, Nat.add_sub_cancel' t.frac_le]
  have hlt := Nat.mul_lt_mul_of_pos_right (decimal_lt t.frac_digits) hpos
  rw [hpow] at hlt
  exact ⟨Nat.le_mul_of_pos_right _ hpos, hlt⟩

theorem time_eq (t : SampleTime) : t.time.secs = t.secs ∧ t.time.nanos = decimal t.frac :=
  DateTime.fromTimestamp_eq_some.mp t.fromTimestamp_eq

theorem time_ns (t : SampleTime) : t.time.ns = t.secs * 10 ^ 9 + decimal t.frac := by
  unfold DateTime.ns
  rw [t.time_eq.1, t.time_eq.2]

/-- The time is behind by what is lost. -/
theorem instant_eq (t : SampleTime) : t.instant = t.time.ns + t.lost := by
  have hle := t.fraction_bounds.1
  have hns := t.time_ns
  unfold instant lost
  omega

theorem lost_eq_zero (t : SampleTime) :
    t.lost = 0 ↔ t.frac.length = 9 ∨ decimal t.frac = 0 := by
  have hle := t.frac_le
  unfold lost fraction
  constructor
  · intro h
    by_contra hne
    push Not at hne
    have hpow : 10 ^ 1 ≤ 10 ^ (9 - t.frac.length) := Nat.pow_le_pow_right (by decide) (by omega)
    have hmul := Nat.mul_le_mul_left (decimal t.frac) hpow
    omega
  · rintro (h | h)
    · rw [h]
      omega
    · rw [h]
      omega

theorem exact_iff (t : SampleTime) : t.Exact ↔ t.frac.length = 9 ∨ decimal t.frac = 0 := by
  rw [← t.lost_eq_zero]
  have heq := t.instant_eq
  constructor
  · intro h
    obtain ⟨d, hd, hns⟩ := h [] (by simp)
    have hread : timestamp (t.text ++ []) = .ok [] t.time := reads_timeText t.toTimeText (by simp)
    rw [hread] at hd
    obtain rfl := (Parsed.ok.inj hd).2
    omega
  · intro h rest hrest
    exact ⟨t.time, reads_timeText t.toTimeText hrest, by omega⟩

theorem radeonFromMap_timestamp {map : UtilizationMap} {ts : DateTime} {input rest : List Char}
    {m : RadeonMetrics} (h : radeonFromMap map ts input = .ok rest m) : m.timestamp = ts := by
  unfold radeonFromMap at h
  iterate 13 obtain ⟨_, _, -, h⟩ := bind_ok_iff.mp h
  obtain ⟨-, rfl⟩ := pure_ok_iff.mp h
  rfl

theorem gives_iff (t : SampleTime) {d : DateTime} : t.Gives d ↔ d = t.time := by
  constructor
  · rintro ⟨body, rest, m, hm, rfl⟩
    have hread : Reads timestamp t.text t.time (": ".toList ++ body) :=
      reads_timeText t.toTimeText (by simp)
    obtain ⟨r, ts, hts, h⟩ := bind_ok_iff.mp hm
    rw [show timestamp _ = _ from hread] at hts
    obtain ⟨rfl, rfl⟩ := Parsed.ok.inj hts
    obtain ⟨_, _, -, h⟩ := bind_ok_iff.mp h
    obtain ⟨_, _, -, h⟩ := bind_ok_iff.mp h
    exact radeonFromMap_timestamp h
  · rintro rfl
    exact ⟨_, _, _, metricsLine_atTime halfLine t.toTimeText, rfl⟩

theorem keepDistance_iff (a b : SampleTime) : KeepDistance a b ↔ a.lost = b.lost := by
  have ha := a.instant_eq
  have hb := b.instant_eq
  unfold KeepDistance
  simp only [gives_iff, forall_eq_apply_imp_iff, forall_eq]
  omega

theorem compare_eq_compare {x y m n : ℕ} :
    compare x y = compare m n ↔ (x < y ↔ m < n) ∧ (y < x ↔ n < m) := by
  rw [Nat.compare_eq_ite_lt, Nat.compare_eq_ite_lt]
  split_ifs
  all_goals simp only [false_iff, true_iff]
  all_goals omega

theorem keepOrder_iff (a b : SampleTime) : KeepOrder a b ↔ a.secs ≠ b.secs ∨
    compare (decimal a.frac) (decimal b.frac) = compare a.fraction b.fraction := by
  obtain ⟨hsecs, hnanos⟩ := a.time_eq
  obtain ⟨hsecs', hnanos'⟩ := b.time_eq
  have ha := a.fraction_bounds
  have hb := b.fraction_bounds
  unfold KeepOrder DateTime.Before instant
  simp only [gives_iff, forall_eq_apply_imp_iff, forall_eq, hsecs, hnanos, hsecs', hnanos']
  rw [compare_eq_compare]
  by_cases heq : a.secs = b.secs
  · rw [heq]
    omega
  · omega

/-- "1730461004.264057" -/
def dump : SampleTime := { dumpTime with frac_le := by decide }

/-- "1730461004.5" -/
def dumpLater : SampleTime := { dumpTime with
  frac := ['5']
  frac_ne := by decide
  frac_digits := by simp
  valid := by decide
  frac_le := by decide }

/-- Half a second is read as five nanoseconds, and comes before the smaller fraction. -/
theorem dump_not_exact :
    ¬ dump.Exact ∧ ¬ KeepDistance dump dumpLater ∧ ¬ KeepOrder dump dumpLater := by
  rw [exact_iff, keepDistance_iff, keepOrder_iff]
  decide

end SampleTime

/-- **The time of a sample is exact only with nine digits, or with nothing but zeros**, and the
distance of two samples and their order are kept only where both lose as much, and where the seconds
or the digits already decide. -/
theorem sampleTimes_iff (a b : SampleTime) :
    (a.Exact ↔ a.frac.length = 9 ∨ decimal a.frac = 0) ∧
    (SampleTime.KeepDistance a b ↔ a.lost = b.lost) ∧
    (SampleTime.KeepOrder a b ↔ a.secs ≠ b.secs ∨
      compare (decimal a.frac) (decimal b.frac) = compare a.fraction b.fraction) :=
  ⟨a.exact_iff, a.keepDistance_iff b, a.keepOrder_iff b⟩

end Laqista.Monitor
