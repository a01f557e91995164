import Laqista.Monitor.Parse

/-! # Reading what radeontop prints

A `Line` is a line as radeontop prints it: a time and entries with distinct names, each with a
percentage and perhaps an absolute value, or with a hexadecimal id, among them percentages under the
names that are looked up. `metricsLine_text`: the parser accepts every line to its end, and each
metric is the percentage of the entry with its name, truncated to hundredths. -/

namespace Laqista.Monitor

open Laqista.Lib Laqista.Lib.Parser

/-! ### Lines -/

/-- An integer part of 64 bits, and one to three digits after the dot. -/
structure Numeral where
  int : List Char
  frac : List Char
  int_ne : int ≠ []
  int_digits : ∀ c ∈ int, Char.isDigit c
  int_lt : decimal int < 2 ^ 64
  frac_digits : ∀ c ∈ frac, Char.isDigit c
  frac_length : 1 ≤ frac.length ∧ frac.length ≤ 3

def Numeral.text (n : Numeral) : List Char := n.int ++ ('.' :: n.frac)

/-- The number in hundredths, truncated. -/
def Numeral.hundredths (n : Numeral) : ℕ :=
  (decimal n.int * 10 ^ n.frac.length + decimal n.frac) * 100 / 10 ^ n.frac.length

inductive AbsoluteUnit where
  | mb | ghz
  deriving DecidableEq, Repr

def AbsoluteUnit.text : AbsoluteUnit → List Char
  | mb => "mb".toList
  | ghz => "ghz".toList

/-- Hexadecimal digits of either case, of a value of 64 bits. -/
structure HexId where
  digits : List Char
  id : ℕ
  ne : digits ≠ []
  isHex : ∀ c ∈ digits, isHexDigit c
  value : Hex.hexValue digits = some id
  lt : id < 2 ^ 64

inductive EntryValue where
  | id (id : HexId)
  | percent (ratio : Numeral) (abs : Option (Numeral × AbsoluteUnit))

def absoluteText : Option (Numeral × AbsoluteUnit) → List Char
  | none => []
  | some (n, unit) => ' ' :: (n.text ++ unit.text)

def EntryValue.text : EntryValue → List Char
  | id i => i.digits
  | percent ratio abs => ratio.text ++ ('%' :: absoluteText abs)

/-- A name of ASCII letters with its value. -/
structure Entry where
  name : List Char
  value : EntryValue
  name_ne : name ≠ []
  name_alpha : ∀ c ∈ name, Char.isAlpha c

def Entry.text (e : Entry) : List Char := e.name ++ (' ' :: e.value.text)

/-- The time of a sample: the digits after the dot are a number of nanoseconds for the parser. -/
structure Stamp where
  secs : ℤ
  frac : List Char
  frac_ne : frac ≠ []
  frac_digits : ∀ c ∈ frac, Char.isDigit c
  time : DateTime
  valid : DateTime.fromTimestamp secs (decimal frac) = some time

def Stamp.text (s : Stamp) : List Char := intText s.secs ++ ('.' :: s.frac)

/-- The names that are looked up. -/
def metricNames : List String :=
  ["gpu", "ee", "vgt", "ta", "sx", "sh", "spi", "sc", "pa", "db", "cb", "vram", "gtt"]

structure Line where
  stamp : Stamp
  first : Entry
  others : List Entry
  distinct : ((first :: others).map Entry.name).Nodup
  /-- The percentages of the names that are looked up. -/
  ratio : String → Numeral
  named : ∀ key ∈ metricNames, ∃ abs, ∃ e ∈ first :: others,
    e.name = key.toList ∧ e.value = .percent (ratio key) abs

namespace Line

def entries (l : Line) : List Entry := l.first :: l.others

def text (l : Line) : List Char :=
  l.stamp.text ++ (": ".toList ++ (l.first.text ++ separated ", ".toList Entry.text l.others))

/-- The percentage under a name, truncated to hundredths. -/
def percentage (l : Line) (key : String) : ℚ := (l.ratio key).hundredths / 100

/-- What the line says. -/
def metrics (l : Line) : RadeonMetrics where
  timestamp := l.stamp.time
  gpu := l.percentage "gpu"
  ee := l.percentage "ee"
  vgt := l.percentage "vgt"
  ta := l.percentage "ta"
  sx := l.percentage "sx"
  sh := l.percentage "sh"
  spi := l.percentage "spi"
  sc := l.percentage "sc"
  pa := l.percentage "pa"
  db := l.percentage "db"
  cb := l.percentage "cb"
  vram := l.percentage "vram"
  gtt := l.percentage "gtt"

end Line

/-! ### Numbers -/

/-- The hundredths after the dot. -/
def Numeral.fracHundredths (n : Numeral) : ℕ := decimal n.frac * 100 / 10 ^ n.frac.length

theorem Numeral.hundredths_eq (n : Numeral) :
    n.hundredths = decimal n.int * 100 + n.fracHundredths := by
  have hpos : 0 < 10 ^ n.frac.length := Nat.pow_pos (by decide)
  unfold hundredths fracHundredths
  rw [show (decimal n.int * 10 ^ n.frac.length + decimal n.frac) * 100 =
      decimal n.frac * 100 + (decimal n.int * 100) * 10 ^ n.frac.length by ring,
    Nat.add_mul_div_right _ _ hpos, Nat.add_comm]

/-- What the parser makes of a numeral. -/
def Numeral.fraction (n : Numeral) : Fraction := ⟨decimal n.int, n.fracHundredths⟩

theorem Numeral.toF64_fraction (n : Numeral) : n.fraction.toF64 = n.hundredths / 100 := by
  unfold Fraction.toF64 Numeral.fraction
  rw [n.hundredths_eq]
  push_cast
  ring

theorem reads_dot (rest : List Char) : Reads dot ['.'] () rest := reads_tag "." rest

theorem reads_space (rest : List Char) : Reads space [' '] () rest := reads_tag " " rest

theorem reads_fractionalPart (n : Numeral) {rest : List Char}
    (hr : ∀ c ∈ rest.head?, Char.isDigit c = false) :
    Reads fractionalPart n.frac n.fracHundredths rest := by
  obtain ⟨h1, h3⟩ := n.frac_length
  have hne : n.frac ≠ [] := List.ne_nil_of_length_pos h1
  have hlt : decimal n.frac < 2 ^ 64 :=
    (decimal_lt n.frac_digits).trans_le ((Nat.pow_le_pow_right (by decide) h3).trans (by decide))
  have hnum : Reads (unsigned (2 ^ 64) : P ℕ) n.frac (decimal n.frac) [] :=
    reads_unsigned hne n.frac_digits (by simp) hlt
  unfold Reads at hnum
  rw [List.append_nil] at hnum
  refine reads_bind_last (reads_takeWhile1 hne n.frac_digits hr)
    (reads_bind_last (reads_onInput hnum) ?_)
  unfold Numeral.fracHundredths
  obtain hl | hl | hl : n.frac.length = 1 ∨ n.frac.length = 2 ∨ n.frac.length = 3 := by omega
  · rw [hl, show decimal n.frac * 100 / 10 ^ 1 = decimal n.frac * 10 by omega]
    exact reads_pure _ _
  · rw [hl, show decimal n.frac * 100 / 10 ^ 2 = decimal n.frac by omega]
    exact reads_pure _ _
  · rw [hl, show decimal n.frac * 100 / 10 ^ 3 = decimal n.frac / 10 by omega]
    exact reads_pure _ _

theorem reads_fraction (n : Numeral) {rest : List Char}
    (hr : ∀ c ∈ rest.head?, Char.isDigit c = false) : Reads fraction n.text n.fraction rest := by
  have hint : Reads (unsigned (2 ^ 64) : P ℕ) n.int (decimal n.int) (('.' :: n.frac) ++ rest) :=
    reads_unsigned n.int_ne n.int_digits (by simp) n.int_lt
  refine reads_bind hint (reads_bind (t := ['.']) (u := n.frac) (reads_dot _) ?_)
  exact reads_bind_last (reads_fractionalPart n hr) (reads_pure _ _)

/-! ### Entries -/

/-- What follows an entry: nothing, or a separator. -/
def Ends (rest : List Char) : Prop := rest = [] ∨ ∃ r, rest = ", ".toList ++ r

theorem Ends.head {rest : List Char} (h : Ends rest) : ∀ c ∈ rest.head?, c = ',' := by
  rcases h with rfl | ⟨r, rfl⟩
  · simp
  · intro c hc
    simpa using hc.symm

theorem Ends.not_head {rest : List Char} (h : Ends rest) {p : Char → Bool} (hp : p ',' = false) :
    ∀ c ∈ rest.head?, p c = false := by
  intro c hc
  rw [h.head c hc]
  exact hp

theorem Ends.head_ne {rest : List Char} (h : Ends rest) {c : Char} (hc : c ≠ ',') :
    rest.head? ≠ some c := fun he => hc (h.head c (by rw [he]; rfl))

/-- What the parser makes of an absolute value. -/
def absoluteOf : Option (Numeral × AbsoluteUnit) → AbsoluteUtilization
  | none => .none
  | some (n, .mb) => .mb n.fraction
  | some (n, .ghz) => .ghz n.fraction

theorem reads_absoluteIn (unit : String) (make : Fraction → AbsoluteUtilization) (n : Numeral)
    {rest : List Char} (hu : ∀ c ∈ unit.toList.head?, Char.isDigit c = false)
    (hne : unit.toList ≠ []) :
    Reads (absoluteIn unit make) (' ' :: (n.text ++ unit.toList)) (make n.fraction) rest := by
  have hhead : ∀ c ∈ (unit.toList ++ rest).head?, Char.isDigit c = false := by
    rcases hl : unit.toList with _ | ⟨c, cs⟩
    · exact absurd hl hne
    · rw [hl] at hu
      exact hu
  refine reads_bind (t := [' ']) (reads_space _) ?_
  refine reads_bind (reads_fraction n hhead) ?_
  exact reads_bind_last (reads_tag unit rest) (reads_pure _ _)

/-- A number with another unit. -/
theorem fails_absoluteIn {unit : String} (make : Fraction → AbsoluteUtilization) (n : Numeral)
    {rest : List Char} {c : Char} {cs : List Char} (hu : unit.toList = c :: cs)
    (hr : ∀ c ∈ rest.head?, Char.isDigit c = false) (hne : rest.head? ≠ some c) :
    Fails (absoluteIn unit make) (' ' :: (n.text ++ rest)) := by
  refine fails_bind (reads_space _) (fails_bind (reads_fraction n hr) ?_)
  exact fails_bind_left (fails_tag hu hne)

/-- A number with its unit, in front of anything. -/
theorem reads_absolute_some (n : Numeral) (unit : AbsoluteUnit) (rest : List Char) :
    Reads absoluteUtilization (absoluteText (some (n, unit))) (absoluteOf (some (n, unit)))
      rest := by
  cases unit with
  | mb => exact reads_alt_left (reads_absoluteIn "mb" .mb n (by simp) (by simp))
  | ghz =>
    have hmb : Fails absoluteUtilizationMb (' ' :: (n.text ++ ("ghz".toList ++ rest))) :=
      fails_absoluteIn .mb n (show "mb".toList = 'm' :: ['b'] from rfl) (by simp) (by simp)
    rw [← List.append_assoc] at hmb
    exact reads_alt_right hmb
      (reads_alt_left (reads_absoluteIn "ghz" .ghz n (by simp) (by simp)))

theorem reads_absoluteUtilization (abs : Option (Numeral × AbsoluteUnit)) {rest : List Char}
    (hr : Ends rest) :
    Reads absoluteUtilization (absoluteText abs) (absoluteOf abs) rest := by
  have hspace : Fails space rest := fails_tag rfl (hr.head_ne (by decide))
  rcases abs with _ | ⟨n, unit⟩
  · refine reads_alt_right (fails_bind_left hspace) ?_
    exact reads_alt_right (fails_bind_left hspace) (reads_pure _ _)
  · exact reads_absolute_some n unit rest

/-- What the parser makes of a value. -/
def utilizationOf : EntryValue → Utilization
  | .id i => .id i.id
  | .percent ratio abs => .percent ratio.fraction (absoluteOf abs)

theorem reads_hex (i : HexId) {rest : List Char} (hr : Ends rest) :
    Reads hex i.digits i.id rest := by
  have hlower : ∀ c ∈ rest.head?, isHexDigit c = false := hr.not_head (by decide)
  refine reads_bind_last (reads_takeWhile1 i.ne i.isHex hlower) ?_
  rw [i.value]
  show Reads (if i.id < 2 ^ 64 then _ else _) [] i.id rest
  rw [if_pos i.lt]
  exact reads_pure _ _

/-- Hexadecimal digits are no percentage: no dot follows the decimal digits in front. -/
theorem fails_percent_hex (i : HexId) {rest : List Char} (hr : Ends rest) :
    Fails utilizationPercent (i.digits ++ rest) := by
  refine fails_bind_left ?_
  rcases unsigned_stops (ε := MetricsParseError) (2 ^ 64) (i.digits ++ rest) with h | ⟨n, h⟩
  · exact fails_bind_left h
  · refine fails_bind h (fails_bind_left (fails_tag rfl (c := '.') fun he => ?_))
    rw [List.dropWhile_append] at he
    split_ifs at he with hempty
    · have hrest : ([] ++ rest).dropWhile Char.isDigit = rest :=
        (takeWhile_append_stop (by simp) (hr.not_head (by decide))).2
      rw [List.nil_append] at hrest
      rw [hrest] at he
      exact absurd (hr.head '.' (by rw [he]; rfl)) (by decide)
    · rcases hl : i.digits.dropWhile Char.isDigit with _ | ⟨c, cs⟩
      · rw [hl] at hempty
        exact absurd rfl hempty
      · rw [hl] at he
        obtain rfl := Option.some.inj he
        have hmem : '.' ∈ i.digits := (List.dropWhile_sublist Char.isDigit).subset (by
          rw [hl]
          exact List.mem_cons_self ..)
        exact absurd (i.isHex '.' hmem) (by decide)

theorem reads_utilization (v : EntryValue) {rest : List Char} (hr : Ends rest) :
    Reads utilization v.text (utilizationOf v) rest := by
  rcases v with i | ⟨ratio, abs⟩
  · have hid : Reads utilizationId i.digits (.id i.id) rest :=
      reads_bind_last (reads_hex i hr) (reads_pure _ _)
    exact reads_alt_right (fails_percent_hex i hr) hid
  · refine reads_alt_left (reads_bind (reads_fraction ratio (by simp)) ?_)
    refine reads_bind (t := ['%']) (reads_tag "%" _) ?_
    exact reads_bind_last (reads_absoluteUtilization abs hr) (reads_pure _ _)

/-- What the parser makes of an entry. -/
def Entry.read (e : Entry) : NamedUtilization := ⟨String.ofList e.name, utilizationOf e.value⟩

theorem reads_resourceUtilization (e : Entry) {rest : List Char} (hr : Ends rest) :
    Reads resourceUtilization e.text e.read rest := by
  refine reads_bind (reads_takeWhile1 e.name_ne e.name_alpha (by simp)) ?_
  refine reads_bind (t := [' ']) (reads_space _) ?_
  exact reads_bind_last (reads_utilization e.value hr) (reads_pure _ _)

/-! ### Lines -/

theorem reads_stamp (s : Stamp) {rest : List Char}
    (hr : ∀ c ∈ rest.head?, Char.isDigit c = false) : Reads timestamp s.text s.time rest := by
  obtain ⟨hsecs, hnanos⟩ := DateTime.fromTimestamp_eq_some.mp s.valid
  obtain ⟨hmin, hmax⟩ := s.time.inRange
  unfold minSecs at hmin
  unfold maxSecs at hmax
  have hlt : decimal s.frac < 2 ^ 32 := by
    rcases s.time.fit with h | ⟨h, -⟩
    · omega
    · omega
  refine reads_bind (t := intText s.secs) (reads_signed (by omega) (by omega) (by simp)) ?_
  refine reads_bind (t := ['.']) (reads_dot _) ?_
  refine reads_bind_last (reads_unsigned s.frac_ne s.frac_digits hr hlt) ?_
  rw [s.valid]
  exact reads_pure _ _

theorem reads_utilizationMap (l : Line) :
    Reads utilizationMap (l.first.text ++ separated ", ".toList Entry.text l.others)
      (Keyed.ofList (l.entries.map Entry.read)) [] := by
  have hlist : Reads (separatedList1 (tag ", ") resourceUtilization)
      (l.first.text ++ separated ", ".toList Entry.text l.others) (l.entries.map Entry.read) [] :=
    reads_separatedList1 (by decide) (fails_tag rfl (by simp))
      fun e _ r hr => reads_resourceUtilization e hr
  exact reads_bind_last hlist (reads_pure _ _)

/-- Each of the names that are looked up has its percentage. -/
theorem reads_getKey (l : Line) {key : String} (hkey : key ∈ metricNames) (rest : List Char) :
    Reads (getKey (Keyed.ofList (l.entries.map Entry.read)) key) [] (l.percentage key) rest := by
  obtain ⟨abs, e, he, hname, hvalue⟩ := l.named key hkey
  have hlook : (Keyed.ofList (l.entries.map Entry.read) : UtilizationMap).lookup key =
      some e.read := by
    have hread : e.read.name = key := by rw [Entry.read, hname, String.ofList_toList]
    rw [← hread]
    refine Keyed.lookup_ofList ?_ (List.mem_map_of_mem he)
    have hnames : (l.entries.map Entry.read).map NamedUtilization.name =
        (l.entries.map Entry.name).map String.ofList := by
      rw [List.map_map, List.map_map]
      rfl
    rw [hnames]
    exact l.distinct.map fun _ _ h => String.ofList_inj.mp h
  have hratio : e.read.util = .percent (l.ratio key).fraction (absoluteOf abs) := by
    rw [Entry.read, hvalue]
    rfl
  unfold getKey
  rw [hlook]
  dsimp only
  rw [hratio]
  dsimp only
  rw [Numeral.toF64_fraction]
  exact reads_pure _ _

theorem reads_radeonFromMap (l : Line) (rest : List Char) :
    Reads (radeonFromMap (Keyed.ofList (l.entries.map Entry.read)) l.stamp.time) [] l.metrics
      rest := by
  unfold radeonFromMap
  iterate 13 refine reads_bind_last (reads_getKey l (by simp [metricNames]) rest) ?_
  exact reads_pure _ _

/-- **The parser undoes printing**: a line is accepted with nothing left over, and each metric is
the percentage of its entry, truncated to hundredths. -/
theorem metricsLine_text (l : Line) : metricsLine l.text = .ok [] l.metrics := by
  have h : Reads metricsLine l.text l.metrics [] := by
    refine reads_bind (reads_stamp l.stamp (by simp)) ?_
    refine reads_bind (reads_tag ": " _) ?_
    exact reads_bind_last (reads_utilizationMap l) (reads_radeonFromMap l [])
  rw [← List.append_nil l.text]
  exact h

end Laqista.Monitor
