import Laqista.Lib.Accepts
import Laqista.Monitor.Printed

/-! # Lines at which the parser panics

`fractional_part` panics at more than three digits after the dot, and `get_key` at a name that is
looked up and has a bare hexadecimal id. Both are reached: the first also in an alternative that
would fail later, the second by the order in which the names are looked up. `Panicking` describes
these lines as texts, and `panicFree_iff` says that there are no others. -/

namespace Laqista.Monitor

open Laqista.Lib Laqista.Lib.Parser

/-! ### Numbers -/

/-- An integer part of 64 bits, and four or more digits after the dot of a value of 64 bits. -/
structure LongNumeral where
  int : List Char
  frac : List Char
  int_ne : int ≠ []
  int_digits : ∀ c ∈ int, Char.isDigit c
  int_lt : decimal int < 2 ^ 64
  frac_digits : ∀ c ∈ frac, Char.isDigit c
  frac_lt : decimal frac < 2 ^ 64
  frac_length : 4 ≤ frac.length

def LongNumeral.text (n : LongNumeral) : List Char := n.int ++ ('.' :: n.frac)

/-- The input starts with such a number. -/
def StartsLong (input : List Char) : Prop :=
  ∃ (n : LongNumeral) (rest : List Char), input = n.text ++ rest ∧
    ∀ c ∈ rest.head?, Char.isDigit c = false

theorem onInput_ok_iff {α : Type} {p : P α} {part input rest : List Char} {a : α} :
    onInput p part input = .ok rest a ↔ rest = input ∧ ∃ left, p part = .ok left a := by
  unfold onInput
  rcases p part with ⟨left, b⟩ | err | message
  · simp only [Parsed.andThen, Parsed.ok.injEq]
    constructor
    · rintro ⟨rfl, rfl⟩
      exact ⟨rfl, left, rfl, rfl⟩
    · rintro ⟨rfl, _, -, rfl⟩
      exact ⟨rfl, rfl⟩
  · simp [Parsed.andThen]
  · simp [Parsed.andThen]

theorem not_panics_onInput_unsigned {bound : ℕ} {part input : List Char} :
    ¬ Panics (onInput (unsigned bound : P ℕ) part) input := by
  rintro ⟨message, h⟩
  unfold onInput at h
  rcases hu : (unsigned bound : P ℕ) part with ⟨left, n⟩ | err | m
  · simp [hu, Parsed.andThen] at h
  · simp [hu, Parsed.andThen] at h
  · exact not_panics_unsigned ⟨m, hu⟩

/-- All of a text of digits is read. -/
theorem unsigned_digits {bound n : ℕ} {part left : List Char} (hne : part ≠ [])
    (hdigits : ∀ c ∈ part, Char.isDigit c) :
    (unsigned bound : P ℕ) part = .ok left n ↔
      left = [] ∧ decimal part < bound ∧ n = decimal part := by
  rw [unsigned_ok_iff]
  constructor
  · rintro ⟨t, hpart, ⟨-, -, hlt, hstop⟩, rfl⟩
    have hleft : left = [] := by
      rcases left with _ | ⟨c, cs⟩
      · rfl
      · have hc := hdigits c (by rw [hpart]; simp)
        rw [hstop c rfl] at hc
        exact absurd hc (by simp)
    subst hleft
    rw [List.append_nil] at hpart
    subst hpart
    exact ⟨rfl, hlt, rfl⟩
  · rintro ⟨rfl, hlt, rfl⟩
    exact ⟨part, by simp, ⟨hne, hdigits, hlt, by simp⟩, rfl⟩

theorem panics_fractionalPart {input : List Char} : Panics fractionalPart input ↔
    ∃ frac rest, input = frac ++ rest ∧ (∀ c ∈ frac, Char.isDigit c) ∧ 4 ≤ frac.length ∧
      decimal frac < 2 ^ 64 ∧ ∀ c ∈ rest.head?, Char.isDigit c = false := by
  unfold fractionalPart
  simp only [panics_bind, not_panics_onInput_unsigned, false_or, onInput_ok_iff]
  constructor
  · rintro (h | ⟨rest, frac, hfrac, r', num, ⟨rfl, left, hnum⟩, hp⟩)
    · exact absurd h not_panics_takeWhile1
    · obtain ⟨rfl, hne, hdigits, hstop⟩ := takeWhile1_ok_iff.mp hfrac
      obtain ⟨-, hlt, -⟩ := (unsigned_digits hne hdigits).mp hnum
      have hpos := List.length_pos_iff.mpr hne
      refine ⟨frac, r', rfl, hdigits, ?_, hlt, hstop⟩
      by_contra hshort
      obtain hl | hl | hl : frac.length = 1 ∨ frac.length = 2 ∨ frac.length = 3 := by omega
      all_goals
        rw [hl] at hp
        exact absurd hp (not_panics_pure _)
  · rintro ⟨frac, rest, rfl, hdigits, hlength, hlt, hstop⟩
    have hne : frac ≠ [] := List.ne_nil_of_length_pos (by omega)
    refine .inr ⟨rest, frac, takeWhile1_ok_iff.mpr ⟨rfl, hne, hdigits, hstop⟩, rest, _,
      ⟨rfl, [], (unsigned_digits hne hdigits).mpr ⟨rfl, hlt, rfl⟩⟩, ?_⟩
    split
    · omega
    · omega
    · omega
    · exact ⟨_, rfl⟩

/-- What `fractional_part` does with the digits after the dot. -/
theorem fractionalPart_ok {input rest : List Char} {k : ℕ}
    (h : fractionalPart input = .ok rest k) : ∃ frac, input = frac ++ rest ∧ frac ≠ [] ∧
      (∀ c ∈ frac, Char.isDigit c) ∧ frac.length ≤ 3 ∧
      ∀ c ∈ rest.head?, Char.isDigit c = false := by
  obtain ⟨r, frac, hfrac, hrest⟩ := bind_ok_iff.mp h
  obtain ⟨r', num, hnum, hmatch⟩ := bind_ok_iff.mp hrest
  obtain ⟨rfl, left, hnum⟩ := onInput_ok_iff.mp hnum
  obtain ⟨rfl, hne, hdigits, hstop⟩ := takeWhile1_ok_iff.mp hfrac
  obtain ⟨-, hlt, -⟩ := (unsigned_digits hne hdigits).mp hnum
  have hpos := List.length_pos_iff.mpr hne
  have hlength : frac.length ≤ 3 := by
    by_contra hlong
    exact not_panics_of_ok h
      (panics_fractionalPart.mpr ⟨frac, r', rfl, hdigits, by omega, hlt, hstop⟩)
  have hend : r' = rest := by
    obtain hl | hl | hl : frac.length = 1 ∨ frac.length = 2 ∨ frac.length = 3 := by omega
    all_goals
      rw [hl] at hmatch
      exact (pure_ok_iff.mp hmatch).1
  subst hend
  exact ⟨frac, rfl, hne, hdigits, hlength, hstop⟩

theorem not_panics_dot {input : List Char} : ¬ Panics dot input := not_panics_tag "."

theorem not_panics_space {input : List Char} : ¬ Panics space input := not_panics_tag " "

theorem dot_ok_iff {input rest : List Char} {u : Unit} :
    dot input = .ok rest u ↔ input = '.' :: rest := tag_ok_iff

theorem space_ok_iff {input rest : List Char} {u : Unit} :
    space input = .ok rest u ↔ input = ' ' :: rest := tag_ok_iff

/-- A fraction is a numeral with at most three digits after the dot. -/
theorem fraction_ok {input rest : List Char} {f : Fraction} (h : fraction input = .ok rest f) :
    ∃ n : Numeral, input = n.text ++ rest ∧ ∀ c ∈ rest.head?, Char.isDigit c = false := by
  obtain ⟨r, k, hint, h₁⟩ := bind_ok_iff.mp h
  obtain ⟨r₁, u, hdot, h₂⟩ := bind_ok_iff.mp h₁
  obtain ⟨r₂, m, hfrac, h₃⟩ := bind_ok_iff.mp h₂
  obtain ⟨rfl, -⟩ := pure_ok_iff.mp h₃
  obtain rfl := dot_ok_iff.mp hdot
  obtain ⟨int, rfl, ⟨hne, hdigits, hlt, -⟩, rfl⟩ := unsigned_ok_iff.mp hint
  obtain ⟨frac, rfl, hfne, hfdigits, hflength, hstop⟩ := fractionalPart_ok hfrac
  have hpos := List.length_pos_iff.mpr hfne
  exact ⟨⟨int, frac, hne, hdigits, hlt, hfdigits, hpos, hflength⟩, by simp [Numeral.text], hstop⟩

/-- **A fraction panics exactly at a long numeral.** -/
theorem panics_fraction {input : List Char} : Panics fraction input ↔ StartsLong input := by
  unfold fraction
  simp only [panics_bind, not_panics_unsigned, not_panics_dot, not_panics_pure, false_or,
    panics_fractionalPart, unsigned_ok_iff, dot_ok_iff, and_false, exists_false, or_false]
  constructor
  · rintro ⟨r, k, ⟨int, rfl, ⟨hne, hdigits, hlt, -⟩, -⟩, r₁, -, rfl, frac, rest, rfl, hfdigits,
      hflength, hflt, hstop⟩
    exact ⟨⟨int, frac, hne, hdigits, hlt, hfdigits, hflt, hflength⟩, rest,
      by simp [LongNumeral.text], hstop⟩
  · rintro ⟨n, rest, rfl, hstop⟩
    exact ⟨_, _, ⟨n.int, by simp [LongNumeral.text], ⟨n.int_ne, n.int_digits, n.int_lt, by simp⟩,
      rfl⟩, _, (), rfl, n.frac, rest, rfl, n.frac_digits, n.frac_length, n.frac_lt, hstop⟩

/-! ### Absolute values -/

/-- The input starts with a space and a long numeral, where an absolute value could be. -/
def LongAbsolute (input : List Char) : Prop := ∃ s, input = ' ' :: s ∧ StartsLong s

/-- The input starts with an absolute value. -/
def StartsAbsolute (input : List Char) : Prop :=
  ∃ (a : Numeral × AbsoluteUnit) (rest : List Char), input = absoluteText (some a) ++ rest

theorem panics_absoluteIn {unit : String} {make : Fraction → AbsoluteUtilization}
    {input : List Char} : Panics (absoluteIn unit make) input ↔ LongAbsolute input := by
  unfold absoluteIn LongAbsolute
  simp only [panics_bind, not_panics_space, not_panics_tag, not_panics_pure, false_or,
    panics_fraction, space_ok_iff, and_false, exists_false, or_false]
  constructor
  · rintro ⟨s, -, rfl, hs⟩
    exact ⟨s, rfl, hs⟩
  · rintro ⟨s, rfl, hs⟩
    exact ⟨s, (), rfl, hs⟩

theorem absoluteIn_ok {unit : String} {make : Fraction → AbsoluteUtilization}
    {input rest : List Char} {a : AbsoluteUtilization}
    (h : absoluteIn unit make input = .ok rest a) :
    ∃ n : Numeral, input = ' ' :: (n.text ++ (unit.toList ++ rest)) := by
  obtain ⟨r₁, u, hspace, h₁⟩ := bind_ok_iff.mp h
  obtain ⟨r₂, f, hfraction, h₂⟩ := bind_ok_iff.mp h₁
  obtain ⟨r₃, v, htag, h₃⟩ := bind_ok_iff.mp h₂
  obtain ⟨rfl, -⟩ := pure_ok_iff.mp h₃
  obtain rfl := tag_ok_iff.mp htag
  obtain ⟨n, rfl, -⟩ := fraction_ok hfraction
  obtain rfl := space_ok_iff.mp hspace
  exact ⟨n, rfl⟩

theorem panics_absoluteUtilization {input : List Char} :
    Panics absoluteUtilization input ↔ LongAbsolute input := by
  unfold absoluteUtilization
  simp only [panics_alt, absoluteUtilizationMb, absoluteUtilizationGhz, absoluteUtilizationNone,
    panics_absoluteIn, not_panics_pure, and_false, or_false]
  exact ⟨fun h => h.elim id And.right, .inl⟩

/-- The last alternative is nothing, so this does not fail. -/
theorem not_fails_absoluteUtilization {input : List Char} : ¬ Fails absoluteUtilization input := by
  rintro ⟨err, h⟩
  unfold absoluteUtilization alt at h
  split at h
  · split at h
    · exact absurd h (by simp [absoluteUtilizationNone, pure])
    · next hnot => exact hnot err h
  · next hnot => exact hnot err h

/-- An absolute value is read if there is one. -/
theorem absoluteUtilization_ok_iff {input rest : List Char} {a : AbsoluteUtilization} :
    absoluteUtilization input = .ok rest a ↔ ∃ abs, input = absoluteText abs ++ rest ∧
      a = absoluteOf abs ∧ (abs = none → ¬ StartsAbsolute rest ∧ ¬ LongAbsolute rest) := by
  have hmb : ∀ {r : List Char} {b : AbsoluteUtilization},
      absoluteUtilizationMb input = .ok r b → StartsAbsolute input := by
    intro r b hr
    obtain ⟨n, rfl⟩ := absoluteIn_ok hr
    exact ⟨(n, .mb), r, by simp [absoluteText, AbsoluteUnit.text]⟩
  have hghz : ∀ {r : List Char} {b : AbsoluteUtilization},
      absoluteUtilizationGhz input = .ok r b → StartsAbsolute input := by
    intro r b hr
    obtain ⟨n, rfl⟩ := absoluteIn_ok hr
    exact ⟨(n, .ghz), r, by simp [absoluteText, AbsoluteUnit.text]⟩
  constructor
  · intro h
    by_cases hstart : StartsAbsolute input
    · obtain ⟨⟨n, unit⟩, r, rfl⟩ := hstart
      have hread : absoluteUtilization (absoluteText (some (n, unit)) ++ r) =
          .ok r (absoluteOf (some (n, unit))) := reads_absolute_some n unit r
      rw [h] at hread
      obtain ⟨rfl, rfl⟩ := Parsed.ok.inj hread
      exact ⟨some (n, unit), rfl, rfl, by simp⟩
    · have hlong : ¬ LongAbsolute input :=
        fun hl => not_panics_of_ok h (panics_absoluteUtilization.mpr hl)
      rcases alt_ok_iff.mp h with hr | ⟨-, hrest⟩
      · exact absurd (hmb hr) hstart
      · rcases alt_ok_iff.mp hrest with hr | ⟨-, hnone⟩
        · exact absurd (hghz hr) hstart
        · obtain ⟨rfl, rfl⟩ := pure_ok_iff.mp hnone
          exact ⟨none, rfl, rfl, fun _ => ⟨hstart, hlong⟩⟩
  · rintro ⟨_ | ⟨n, unit⟩, rfl, rfl, hnone⟩
    · obtain ⟨hstart, hlong⟩ := hnone rfl
      have hmbFails : Fails absoluteUtilizationMb input :=
        fails_iff.mpr ⟨fun r b hr => hstart (hmb hr), fun hp => hlong (panics_absoluteIn.mp hp)⟩
      have hghzFails : Fails absoluteUtilizationGhz input :=
        fails_iff.mpr ⟨fun r b hr => hstart (hghz hr), fun hp => hlong (panics_absoluteIn.mp hp)⟩
      exact alt_ok_iff.mpr (.inr ⟨hmbFails, alt_ok_iff.mpr (.inr ⟨hghzFails, rfl⟩)⟩)
    · exact reads_absolute_some n unit rest

/-! ### Percentages and ids -/

/-- The input starts with a percentage. -/
def StartsPercent (input : List Char) : Prop :=
  ∃ (n : Numeral) (rest : List Char), input = n.text ++ ('%' :: rest)

/-- The input starts with a percentage and then a space and a long numeral. -/
def LongAfterPercent (input : List Char) : Prop :=
  ∃ (n : Numeral) (rest : List Char), input = n.text ++ ('%' :: rest) ∧ LongAbsolute rest

theorem percent_tag_ok_iff {input rest : List Char} {u : Unit} :
    (tag "%" : P Unit) input = .ok rest u ↔ input = '%' :: rest := tag_ok_iff

theorem fraction_percent (n : Numeral) (rest : List Char) :
    fraction (n.text ++ ('%' :: rest)) = .ok ('%' :: rest) n.fraction :=
  reads_fraction n (by simp)

theorem panics_utilizationPercent {input : List Char} :
    Panics utilizationPercent input ↔ StartsLong input ∨ LongAfterPercent input := by
  unfold utilizationPercent LongAfterPercent
  simp only [panics_bind, panics_fraction, not_panics_tag, not_panics_pure, false_or,
    percent_tag_ok_iff, panics_absoluteUtilization, and_false, exists_false, or_false]
  refine or_congr_right ⟨?_, ?_⟩
  · rintro ⟨_, f, hfraction, rest, -, rfl, hlong⟩
    obtain ⟨n, rfl, -⟩ := fraction_ok hfraction
    exact ⟨n, rest, rfl, hlong⟩
  · rintro ⟨n, rest, rfl, hlong⟩
    exact ⟨_, _, fraction_percent n rest, rest, (), rfl, hlong⟩

theorem utilizationPercent_ok_iff {input rest : List Char} {u : Utilization} :
    utilizationPercent input = .ok rest u ↔ ∃ (n : Numeral) (r : List Char)
      (a : AbsoluteUtilization), input = n.text ++ ('%' :: r) ∧
        absoluteUtilization r = .ok rest a ∧ u = .percent n.fraction a := by
  constructor
  · intro h
    obtain ⟨r₁, f, hfraction, h₁⟩ := bind_ok_iff.mp h
    obtain ⟨r₂, v, htag, h₂⟩ := bind_ok_iff.mp h₁
    obtain ⟨r₃, a, habs, h₃⟩ := bind_ok_iff.mp h₂
    obtain ⟨rfl, rfl⟩ := pure_ok_iff.mp h₃
    obtain rfl := percent_tag_ok_iff.mp htag
    obtain ⟨n, rfl, -⟩ := fraction_ok hfraction
    rw [fraction_percent] at hfraction
    obtain ⟨-, rfl⟩ := Parsed.ok.inj hfraction
    exact ⟨n, r₂, a, rfl, habs, rfl⟩
  · rintro ⟨n, r, a, rfl, habs, rfl⟩
    exact bind_ok_iff.mpr ⟨_, _, fraction_percent n r, bind_ok_iff.mpr
      ⟨r, (), percent_tag_ok_iff.mpr rfl, bind_ok_iff.mpr ⟨rest, a, habs, rfl⟩⟩⟩

/-- A percentage that starts is read, or the parser panics. -/
theorem fails_utilizationPercent {input : List Char} :
    Fails utilizationPercent input ↔ ¬ StartsLong input ∧ ¬ StartsPercent input := by
  rw [fails_iff, panics_utilizationPercent]
  constructor
  · rintro ⟨hok, hpanics⟩
    refine ⟨fun hlong => hpanics (.inl hlong), ?_⟩
    rintro ⟨n, r, rfl⟩
    have habs : ¬ Fails absoluteUtilization r := not_fails_absoluteUtilization
    refine habs (fails_iff.mpr ⟨fun rest a habs => ?_, fun hp => ?_⟩)
    · exact hok rest _ (utilizationPercent_ok_iff.mpr ⟨n, r, a, rfl, habs, rfl⟩)
    · exact hpanics (.inr ⟨n, r, rfl, panics_absoluteUtilization.mp hp⟩)
  · rintro ⟨hlong, hpercent⟩
    refine ⟨fun rest u hu => ?_, ?_⟩
    · obtain ⟨n, r, a, rfl, -⟩ := utilizationPercent_ok_iff.mp hu
      exact hpercent ⟨n, r, rfl⟩
    · rintro (h | ⟨n, r, rfl, -⟩)
      · exact hlong h
      · exact hpercent ⟨n, r, rfl⟩

theorem not_panics_hex {input : List Char} : ¬ Panics hex input := by
  unfold hex
  rw [panics_bind]
  rintro (h | ⟨r, value, -, message, h⟩)
  · exact not_panics_takeWhile1 h
  · rcases hhex : Hex.hexValue value with _ | n
    · rw [hhex] at h
      exact absurd h (by simp [fail])
    · rw [hhex] at h
      by_cases hlt : n < 2 ^ 64
      · simp only [if_pos hlt] at h
        exact not_panics_pure n ⟨message, h⟩
      · simp only [if_neg hlt] at h
        exact absurd h (by simp [fail])

theorem hex_ok {input rest : List Char} {k : ℕ} (h : hex input = .ok rest k) :
    ∃ i : HexId, input = i.digits ++ rest ∧ (∀ c ∈ rest.head?, isHexDigit c = false) ∧
      k = i.id := by
  obtain ⟨r, value, hvalue, h₁⟩ := bind_ok_iff.mp h
  obtain ⟨rfl, hne, hdigits, hstop⟩ := takeWhile1_ok_iff.mp hvalue
  rcases hhex : Hex.hexValue value with _ | n
  · rw [hhex] at h₁
    exact absurd h₁ (by simp [fail])
  · rw [hhex] at h₁
    by_cases hlt : n < 2 ^ 64
    · have hpure : (pure n : P ℕ) r = .ok rest k := by
        rw [← h₁]
        simp only [if_pos hlt]
      obtain ⟨rfl, rfl⟩ := pure_ok_iff.mp hpure
      exact ⟨⟨value, n, hne, hdigits, hhex, hlt⟩, rfl, hstop, rfl⟩
    · have hfail : (fail (.int "number too large to fit in target type") : P ℕ) r = .ok rest k := by
        rw [← h₁]
        simp only [if_neg hlt]
      exact absurd hfail (by simp [fail])

theorem hex_digits (i : HexId) {rest : List Char} (hr : ∀ c ∈ rest.head?, isHexDigit c = false) :
    hex (i.digits ++ rest) = .ok rest i.id := by
  refine bind_ok_iff.mpr ⟨rest, i.digits, takeWhile1_ok_iff.mpr ⟨rfl, i.ne, i.isHex, hr⟩, ?_⟩
  rw [i.value]
  simp only [if_pos i.lt]
  rfl

/-! ### Entries -/

/-- What follows does not go on with the value: the digits of an id are not the beginning of a
percentage, and a percentage alone has no absolute value behind it. -/
def EntryValue.Stops (rest : List Char) : EntryValue → Prop
  | .id i => (∀ c ∈ rest.head?, isHexDigit c = false) ∧ ¬ StartsLong (i.digits ++ rest) ∧
      ¬ StartsPercent (i.digits ++ rest)
  | .percent _ none => ¬ StartsAbsolute rest ∧ ¬ LongAbsolute rest
  | .percent _ (some _) => True

/-- A value stops in front of a separator, and at the end. -/
theorem Ends.stops {rest : List Char} (h : Ends rest) (v : EntryValue) : v.Stops rest := by
  have hspace : ∀ s, rest ≠ ' ' :: s := by
    rintro s rfl
    exact absurd (h.head ' ' rfl) (by decide)
  rcases v with i | ⟨ratio, _ | a⟩
  · exact ⟨h.not_head (by decide), fails_utilizationPercent.mp (fails_percent_hex i h)⟩
  · refine ⟨?_, ?_⟩
    · rintro ⟨⟨n, unit⟩, r, hr⟩
      exact hspace _ hr
    · rintro ⟨s, hs, -⟩
      exact hspace s hs
  · trivial

theorem utilization_ok_iff {input rest : List Char} {u : Utilization} :
    utilization input = .ok rest u ↔
      ∃ v : EntryValue, input = v.text ++ rest ∧ v.Stops rest ∧ u = utilizationOf v := by
  unfold utilization
  rw [alt_ok_iff, fails_utilizationPercent, utilizationPercent_ok_iff]
  constructor
  · rintro (⟨n, r, a, rfl, habs, rfl⟩ | ⟨⟨hlong, hpercent⟩, hid⟩)
    · obtain ⟨abs, rfl, rfl, hstop⟩ := absoluteUtilization_ok_iff.mp habs
      refine ⟨.percent n abs, by simp [EntryValue.text], ?_, rfl⟩
      rcases abs with _ | a
      · exact hstop rfl
      · trivial
    · obtain ⟨r, k, hhex, hpure⟩ := bind_ok_iff.mp hid
      obtain ⟨rfl, rfl⟩ := pure_ok_iff.mp hpure
      obtain ⟨i, rfl, hstop, rfl⟩ := hex_ok hhex
      exact ⟨.id i, rfl, ⟨hstop, hlong, hpercent⟩, rfl⟩
  · rintro ⟨i | ⟨n, abs⟩, rfl, hstop, rfl⟩
    · obtain ⟨hhex, hlong, hpercent⟩ := hstop
      exact .inr ⟨⟨hlong, hpercent⟩, bind_ok_iff.mpr ⟨rest, i.id, hex_digits i hhex, rfl⟩⟩
    · refine .inl ⟨n, absoluteText abs ++ rest, absoluteOf abs, by simp [EntryValue.text],
        absoluteUtilization_ok_iff.mpr ⟨abs, rfl, rfl, ?_⟩, rfl⟩
      rintro rfl
      exact hstop

theorem panics_utilization {input : List Char} :
    Panics utilization input ↔ StartsLong input ∨ LongAfterPercent input := by
  unfold utilization utilizationId
  simp only [panics_alt, panics_bind, not_panics_hex, not_panics_pure, and_false, exists_false,
    or_false, panics_utilizationPercent]

/-- The input starts with a name and a long numeral, as its percentage or its absolute value. -/
def StartsTooLong (input : List Char) : Prop :=
  ∃ name s, name ≠ [] ∧ (∀ c ∈ name, Char.isAlpha c) ∧ input = name ++ (' ' :: s) ∧
    (StartsLong s ∨ LongAfterPercent s)

theorem alpha1_space {name s : List Char} (hne : name ≠ []) (halpha : ∀ c ∈ name, Char.isAlpha c) :
    (alpha1 : P (List Char)) (name ++ (' ' :: s)) = .ok (' ' :: s) name :=
  takeWhile1_ok_iff.mpr ⟨rfl, hne, halpha, by simp⟩

theorem panics_resourceUtilization {input : List Char} :
    Panics resourceUtilization input ↔ StartsTooLong input := by
  unfold resourceUtilization StartsTooLong
  simp only [panics_bind, not_panics_space, not_panics_pure, and_false, exists_false, or_false,
    false_or, panics_utilization, space_ok_iff]
  constructor
  · rintro (h | ⟨_, name, hname, s, -, rfl, hs⟩)
    · exact absurd h not_panics_takeWhile1
    · obtain ⟨rfl, hne, halpha, -⟩ := takeWhile1_ok_iff.mp hname
      exact ⟨name, s, hne, halpha, rfl, hs⟩
  · rintro ⟨name, s, hne, halpha, rfl, hs⟩
    exact .inr ⟨_, name, alpha1_space hne halpha, s, (), rfl, hs⟩

/-- **An entry is read exactly where one stops.** -/
theorem resourceUtilization_ok_iff {input rest : List Char} {u : NamedUtilization} :
    resourceUtilization input = .ok rest u ↔
      ∃ e : Entry, input = e.text ++ rest ∧ e.value.Stops rest ∧ u = e.read := by
  constructor
  · intro h
    obtain ⟨r₁, name, hname, h₁⟩ := bind_ok_iff.mp h
    obtain ⟨r₂, v, hspace, h₂⟩ := bind_ok_iff.mp h₁
    obtain ⟨r₃, util, hutil, h₃⟩ := bind_ok_iff.mp h₂
    obtain ⟨rfl, rfl⟩ := pure_ok_iff.mp h₃
    obtain ⟨value, rfl, hstop, rfl⟩ := utilization_ok_iff.mp hutil
    obtain rfl := space_ok_iff.mp hspace
    obtain ⟨rfl, hne, halpha, -⟩ := takeWhile1_ok_iff.mp hname
    exact ⟨⟨name, value, hne, halpha⟩, by simp [Entry.text], hstop, rfl⟩
  · rintro ⟨e, rfl, hstop, rfl⟩
    have htext : e.text ++ rest = e.name ++ (' ' :: (e.value.text ++ rest)) := by
      simp [Entry.text]
    rw [htext]
    exact bind_ok_iff.mpr ⟨_, _, alpha1_space e.name_ne e.name_alpha, bind_ok_iff.mpr
      ⟨_, (), space_ok_iff.mpr rfl, bind_ok_iff.mpr
        ⟨rest, _, utilization_ok_iff.mpr ⟨e.value, rfl, hstop, rfl⟩, rfl⟩⟩⟩

theorem consumes_resourceUtilization : Consumes resourceUtilization := by
  intro input rest u h
  obtain ⟨e, rfl, -⟩ := resourceUtilization_ok_iff.mp h
  rw [List.length_append]
  omega

/-! ### Lists of entries -/

/-- Entries, each in front of a separator. -/
def entriesText (es : List Entry) : List Char := es.flatMap fun e => e.text ++ ", ".toList

theorem chain_iff {input t : List Char} {us : List NamedUtilization} :
    Chain resourceUtilization ", ".toList input us t ↔
      ∃ es : List Entry, us = es.map Entry.read ∧ input = entriesText es ++ t := by
  constructor
  · intro h
    induction h with
    | nil input => exact ⟨[], rfl, rfl⟩
    | cons hitem _ ih =>
      obtain ⟨e, rfl, -, rfl⟩ := resourceUtilization_ok_iff.mp hitem
      obtain ⟨es, rfl, rfl⟩ := ih
      exact ⟨e :: es, rfl, by simp [entriesText]⟩
  · rintro ⟨es, rfl, rfl⟩
    induction es with
    | nil => exact .nil t
    | cons e es ih =>
      have htext : entriesText (e :: es) ++ t =
          e.text ++ (", ".toList ++ (entriesText es ++ t)) := by
        simp [entriesText]
      rw [htext]
      refine .cons (resourceUtilization_ok_iff.mpr ⟨e, rfl, ?_, rfl⟩) ih
      exact Ends.stops (.inr ⟨_, rfl⟩) e.value

/-- No further entry follows behind a separator. -/
def NoFurther (rest : List Char) : Prop :=
  ∀ (e : Entry) (r : List Char), rest = ", ".toList ++ (e.text ++ r) → ¬ e.value.Stops r

theorem ended_iff {rest : List Char} : Ended resourceUtilization ", ".toList rest ↔
    NoFurther rest ∧ ∀ r, rest = ", ".toList ++ r → ¬ StartsTooLong r := by
  constructor
  · intro h
    refine ⟨fun e r hr hstop => ?_, fun r hr hlong => ?_⟩
    · obtain ⟨hok, -⟩ := fails_iff.mp (h _ hr)
      exact hok r _ (resourceUtilization_ok_iff.mpr ⟨e, rfl, hstop, rfl⟩)
    · obtain ⟨-, hpanics⟩ := fails_iff.mp (h _ hr)
      exact hpanics (panics_resourceUtilization.mpr hlong)
  · rintro ⟨hno, hlong⟩ r hr
    refine fails_iff.mpr ⟨fun rest' u hu => ?_, fun hp => ?_⟩
    · obtain ⟨e, rfl, hstop, -⟩ := resourceUtilization_ok_iff.mp hu
      exact hno e rest' hr hstop
    · exact hlong r hr (panics_resourceUtilization.mp hp)

/-! ### Looking names up -/

/-- The last entry with a name. -/
def lastEntry (es : List Entry) (key : String) : Option Entry :=
  es.reverse.find? fun e => e.name = key.toList

def IsId (es : List Entry) (key : String) : Prop :=
  ∃ e i, lastEntry es key = some e ∧ e.value = .id i

def IsPercent (es : List Entry) (key : String) : Prop :=
  ∃ e ratio abs, lastEntry es key = some e ∧ e.value = .percent ratio abs

/-- The first of the names that is not one of a percentage is one of an id. -/
def AsksId (es : List Entry) : List String → Prop
  | [] => False
  | key :: keys => IsId es key ∨ (IsPercent es key ∧ AsksId es keys)

theorem lookup_read (es : List Entry) (key : String) :
    (Keyed.ofList (es.map Entry.read) : UtilizationMap).lookup key =
      (lastEntry es key).map Entry.read := by
  unfold Keyed.ofList lastEntry
  rw [Keyed.lookup_foldl_insert]
  simp only [Keyed.lookup_empty, Option.orElse_eq_or, Option.or_none]
  rw [← List.map_reverse, List.find?_map]
  congr 2
  funext e
  have hname : (String.ofList e.name = key) ↔ e.name = key.toList := by
    constructor
    · rintro rfl
      rw [String.toList_ofList]
    · intro h
      rw [h, String.ofList_toList]
  simp [Entry.read, hname]

/-- A name that is looked up. -/
theorem panics_getKey_bind {α : Type} {es : List Entry} {key : String} {f : ℚ → P α} {C : Prop}
    {input : List Char} (hf : ∀ q, Panics (f q) input ↔ C) :
    Panics (getKey (Keyed.ofList (es.map Entry.read)) key >>= f) input ↔
      IsId es key ∨ (IsPercent es key ∧ C) := by
  unfold IsId IsPercent
  rw [panics_bind]
  unfold getKey
  rw [lookup_read]
  rcases hlast : lastEntry es key with _ | e
  · simp [Panics, fail]
  · rcases hvalue : e.value with i | ⟨ratio, abs⟩
    · have hutil : e.read.util = .id i.id := by
        rw [Entry.read, hvalue]
        rfl
      simp only [Option.map_some, hutil]
      refine ⟨fun _ => .inl ⟨e, i, rfl, hvalue⟩, fun _ => .inl ⟨_, rfl⟩⟩
    · have hutil : e.read.util = .percent ratio.fraction (absoluteOf abs) := by
        rw [Entry.read, hvalue]
        rfl
      simp only [Option.map_some, hutil]
      constructor
      · rintro (h | ⟨r, q, hq, hp⟩)
        · exact absurd h (not_panics_pure _)
        · obtain ⟨rfl, rfl⟩ := pure_ok_iff.mp hq
          exact .inr ⟨⟨e, ratio, abs, rfl, hvalue⟩, (hf _).mp hp⟩
      · rintro (⟨_, i, he, hi⟩ | ⟨-, hC⟩)
        · obtain rfl := Option.some.inj he
          rw [hvalue] at hi
          simp at hi
        · exact .inr ⟨input, _, rfl, (hf _).mpr hC⟩

/-- **The lookups panic exactly when an id is asked for before a name is missing.** -/
theorem panics_radeonFromMap {es : List Entry} {ts : DateTime} {input : List Char} :
    Panics (radeonFromMap (Keyed.ofList (es.map Entry.read)) ts) input ↔ AsksId es metricNames := by
  unfold radeonFromMap
  iterate 13 refine panics_getKey_bind fun _ => ?_
  exact ⟨fun h => absurd h (not_panics_pure _), False.elim⟩

/-! ### Lines -/

/-- The time of a sample as the parser accepts it, with a sign and any zeros in front. -/
structure TimeText where
  sign : List Char
  int : List Char
  frac : List Char
  sign_cases : sign = [] ∨ sign = ['+'] ∨ sign = ['-']
  int_ne : int ≠ []
  int_digits : ∀ c ∈ int, Char.isDigit c
  frac_ne : frac ≠ []
  frac_digits : ∀ c ∈ frac, Char.isDigit c
  valid : (DateTime.fromTimestamp
    (if sign = ['-'] then -(decimal int : ℤ) else decimal int) (decimal frac)).isSome

def TimeText.text (t : TimeText) : List Char := t.sign ++ (t.int ++ ('.' :: t.frac))

theorem not_panics_timestamp {input : List Char} : ¬ Panics timestamp input := by
  unfold timestamp
  simp only [panics_bind, not_panics_signed, not_panics_dot, not_panics_unsigned, false_or]
  rintro ⟨r₁, secs, -, r₂, u, -, r₃, nsecs, -, message, h⟩
  rcases htime : DateTime.fromTimestamp secs nsecs with _ | time
  · rw [htime] at h
    exact absurd h (by simp [fail])
  · rw [htime] at h
    exact not_panics_pure time ⟨message, h⟩

/-- The seconds of a time fit: they are those of an instant. -/
theorem TimeText.signed_int (t : TimeText) {time : DateTime} (rest : List Char)
    (hvalid : DateTime.fromTimestamp
      (if t.sign = ['-'] then -(decimal t.int : ℤ) else decimal t.int) (decimal t.frac) =
        some time) :
    (signed (2 ^ 63) : P ℤ) (t.text ++ rest) = .ok ('.' :: (t.frac ++ rest)) time.secs := by
  obtain ⟨hsecs, -⟩ := DateTime.fromTimestamp_eq_some.mp hvalid
  obtain ⟨hmin, hmax⟩ := time.inRange
  unfold minSecs at hmin
  unfold maxSecs at hmax
  have hint : ∀ b : ℕ, 2 ^ 63 ≤ b → NumberText b t.int ('.' :: (t.frac ++ rest)) := by
    intro b hb
    refine ⟨t.int_ne, t.int_digits, ?_, by simp⟩
    split_ifs at hsecs
    · omega
    · omega
  refine signed_ok_iff.mpr ⟨t.sign, t.int, by simp [TimeText.text], ?_⟩
  rcases t.sign_cases with h | h | h
  · rw [hsecs, if_neg (by simp [h])]
    exact .inr ⟨.inl h, hint _ (by norm_num), rfl⟩
  · rw [hsecs, if_neg (by simp [h])]
    exact .inr ⟨.inr h, hint _ (by norm_num), rfl⟩
  · rw [hsecs, if_pos h]
    exact .inl ⟨h, hint _ (by norm_num), rfl⟩

/-- The nanoseconds of a time fit, also those of a leap second. -/
theorem TimeText.unsigned_frac (t : TimeText) {rest : List Char}
    (hstop : ∀ c ∈ rest.head?, Char.isDigit c = false) :
    (unsigned (2 ^ 32) : P ℕ) (t.frac ++ rest) = .ok rest (decimal t.frac) := by
  obtain ⟨time, hvalid⟩ := Option.isSome_iff_exists.mp t.valid
  obtain ⟨-, hnanos⟩ := DateTime.fromTimestamp_eq_some.mp hvalid
  refine unsigned_ok_iff.mpr ⟨t.frac, rfl, ⟨t.frac_ne, t.frac_digits, ?_, hstop⟩, rfl⟩
  rcases time.fit with h | ⟨h, -⟩
  · omega
  · omega

theorem timestamp_ok_iff {input rest : List Char} :
    (∃ ts, timestamp input = .ok rest ts) ↔
      ∃ t : TimeText, input = t.text ++ rest ∧ ∀ c ∈ rest.head?, Char.isDigit c = false := by
  constructor
  · rintro ⟨ts, h⟩
    obtain ⟨r₁, secs, hsecs, h₁⟩ := bind_ok_iff.mp h
    obtain ⟨r₂, u, hdot, h₂⟩ := bind_ok_iff.mp h₁
    obtain ⟨r₃, nsecs, hnsecs, h₃⟩ := bind_ok_iff.mp h₂
    rcases htime : DateTime.fromTimestamp secs nsecs with _ | time
    · rw [htime] at h₃
      exact absurd h₃ (by simp [fail])
    · rw [htime] at h₃
      obtain ⟨rfl, -⟩ := pure_ok_iff.mp h₃
      obtain ⟨frac, rfl, ⟨hfne, hfdigits, -, hstop⟩, rfl⟩ := unsigned_ok_iff.mp hnsecs
      obtain rfl := dot_ok_iff.mp hdot
      obtain ⟨sign, int, rfl, hint⟩ := signed_ok_iff.mp hsecs
      have hnum : (sign = [] ∨ sign = ['+'] ∨ sign = ['-']) ∧ int ≠ [] ∧
          (∀ c ∈ int, Char.isDigit c) ∧
          secs = if sign = ['-'] then -(decimal int : ℤ) else decimal int := by
        rcases hint with ⟨rfl, ⟨hne, hdigits, -⟩, hsecs⟩ | ⟨rfl | rfl, ⟨hne, hdigits, -⟩, hsecs⟩
        · exact ⟨.inr (.inr rfl), hne, hdigits, hsecs⟩
        · exact ⟨.inl rfl, hne, hdigits, hsecs⟩
        · exact ⟨.inr (.inl rfl), hne, hdigits, hsecs⟩
      obtain ⟨hsign, hne, hdigits, hvalue⟩ := hnum
      exact ⟨⟨sign, int, frac, hsign, hne, hdigits, hfne, hfdigits, by rw [← hvalue, htime]; rfl⟩,
        by simp [TimeText.text], hstop⟩
  · rintro ⟨t, rfl, hstop⟩
    obtain ⟨time, hvalid⟩ := Option.isSome_iff_exists.mp t.valid
    obtain ⟨hsecs, -⟩ := DateTime.fromTimestamp_eq_some.mp hvalid
    have hsigned := t.signed_int rest hvalid
    have hfrac := t.unsigned_frac hstop
    refine ⟨time, bind_ok_iff.mpr ⟨_, _, hsigned, bind_ok_iff.mpr ⟨_, (), dot_ok_iff.mpr rfl,
      bind_ok_iff.mpr ⟨rest, _, hfrac, ?_⟩⟩⟩⟩
    rw [hsecs, hvalid]
    rfl

/-- **The lines at which the parser panics**: behind the time and some entries comes one with more
than three digits after a dot, or the list ends and an id is asked for. -/
def Panicking (input : List Char) : Prop :=
  ∃ (t : TimeText) (es : List Entry) (s : List Char),
    input = t.text ++ (": ".toList ++ (entriesText es ++ s)) ∧
      (StartsTooLong s ∨ ∃ (last : Entry) (rest : List Char), s = last.text ++ rest ∧
        last.value.Stops rest ∧ NoFurther rest ∧ AsksId (es ++ [last]) metricNames)

theorem colon_ok_iff {input rest : List Char} {u : Unit} :
    (tag ": " : P Unit) input = .ok rest u ↔ input = ": ".toList ++ rest := tag_ok_iff

theorem panics_utilizationMap {input : List Char} : Panics utilizationMap input ↔
    ∃ (es : List Entry) (s : List Char), input = entriesText es ++ s ∧ StartsTooLong s := by
  unfold utilizationMap
  rw [panics_bind, panics_separatedList1 (by decide) consumes_resourceUtilization]
  simp only [not_panics_pure, and_false, exists_false, or_false, chain_iff,
    panics_resourceUtilization]
  constructor
  · rintro ⟨_, s, ⟨es, rfl, rfl⟩, hs⟩
    exact ⟨es, s, rfl, hs⟩
  · rintro ⟨es, s, rfl, hs⟩
    exact ⟨_, s, ⟨es, rfl, rfl⟩, hs⟩

theorem utilizationMap_ok_iff {input rest : List Char} {map : UtilizationMap} :
    utilizationMap input = .ok rest map ↔ ∃ (es : List Entry) (last : Entry),
      input = entriesText es ++ (last.text ++ rest) ∧ last.value.Stops rest ∧ NoFurther rest ∧
        (∀ r, rest = ", ".toList ++ r → ¬ StartsTooLong r) ∧
        map = Keyed.ofList ((es ++ [last]).map Entry.read) := by
  unfold utilizationMap
  rw [bind_ok_iff]
  simp only [separatedList1_ok_iff (by decide : ", ".toList ≠ []) consumes_resourceUtilization,
    chain_iff, ended_iff, resourceUtilization_ok_iff, pure_ok_iff]
  constructor
  · rintro ⟨r, _, ⟨_, _, _, ⟨es, rfl, rfl⟩, ⟨last, rfl, hstop, rfl⟩, ⟨hno, hlong⟩, rfl⟩, rfl, rfl⟩
    exact ⟨es, last, rfl, hstop, hno, hlong, by simp⟩
  · rintro ⟨es, last, rfl, hstop, hno, hlong, rfl⟩
    exact ⟨rest, _, ⟨_, _, _, ⟨es, rfl, rfl⟩, ⟨last, rfl, hstop, rfl⟩, ⟨hno, hlong⟩, rfl⟩, rfl,
      by simp⟩

/-- **The parser panics exactly at these lines.** -/
theorem panics_metricsLine {input : List Char} : Panics metricsLine input ↔ Panicking input := by
  unfold metricsLine Panicking
  simp only [panics_bind, not_panics_timestamp, not_panics_tag, false_or, colon_ok_iff,
    panics_utilizationMap]
  constructor
  · rintro ⟨_, ts, hts, r, -, rfl, h⟩
    obtain ⟨t, rfl, -⟩ := timestamp_ok_iff.mp ⟨ts, hts⟩
    rcases h with ⟨es, s, rfl, hs⟩ | ⟨rest, map, hmap, hp⟩
    · exact ⟨t, es, s, rfl, .inl hs⟩
    · obtain ⟨es, last, rfl, hstop, hno, -, rfl⟩ := utilizationMap_ok_iff.mp hmap
      exact ⟨t, es, _, rfl, .inr ⟨last, rest, rfl, hstop, hno, panics_radeonFromMap.mp hp⟩⟩
  · rintro ⟨t, es, s, rfl, h⟩
    have hcolon : ∀ c ∈ (": ".toList ++ (entriesText es ++ s)).head?, Char.isDigit c = false := by
      simp
    obtain ⟨ts, hts⟩ := timestamp_ok_iff.mpr ⟨t, rfl, hcolon⟩
    refine ⟨_, ts, hts, entriesText es ++ s, (), rfl, ?_⟩
    rcases h with hs | ⟨last, rest, rfl, hstop, hno, hask⟩
    · exact .inl ⟨es, s, rfl, hs⟩
    · by_cases hlong : ∃ r, rest = ", ".toList ++ r ∧ StartsTooLong r
      · obtain ⟨r, rfl, hr⟩ := hlong
        exact .inl ⟨es ++ [last], r, by simp [entriesText], hr⟩
      · refine .inr ⟨rest, _, utilizationMap_ok_iff.mpr ⟨es, last, rfl, hstop, hno, ?_, rfl⟩,
          panics_radeonFromMap.mpr hask⟩
        exact fun r hr hs => hlong ⟨r, hr, hs⟩

/-- The parser returns, with a value or an error. -/
def PanicFree (input : List Char) : Prop := ∀ message, metricsLine input ≠ .panic message

/-- The multiplication in `fractional_part` stays within 64 bits. -/
theorem times_ten_fits {part left : List Char} {num : ℕ} (hone : part.length = 1)
    (h : (unsigned (2 ^ 64) : P ℕ) part = .ok left num) : num * 10 < 2 ^ 64 := by
  obtain ⟨t, rfl, ⟨-, hdigits, -⟩, rfl⟩ := unsigned_ok_iff.mp h
  have hlength : t.length ≤ 1 := by
    rw [List.length_append] at hone
    omega
  have hlt : decimal t < 10 ^ 1 :=
    (decimal_lt hdigits).trans_le (Nat.pow_le_pow_right (by decide) hlength)
  omega

/-- **The parser is free of panics exactly at the other lines**, and its only unchecked
multiplication never overflows. -/
theorem panicFree_iff (input : List Char) : (PanicFree input ↔ ¬ Panicking input) ∧
    ∀ part left num, part.length = 1 → (unsigned (2 ^ 64) : P ℕ) part = .ok left num →
      num * 10 < 2 ^ 64 := by
  refine ⟨?_, fun _ _ _ hone hu => times_ten_fits hone hu⟩
  rw [← panics_metricsLine]
  constructor
  · rintro h ⟨message, hp⟩
    exact h message hp
  · intro h message hp
    exact h ⟨message, hp⟩

/-- **Four digits after the dot, and an id for the GPU.** -/
theorem lines_that_panic :
    ¬ PanicFree "0.0: gpu 5.0000%".toList ∧ ¬ PanicFree "0.0: bus 06, gpu 06".toList := by
  have hlong : ∃ message, metricsLine "0.0: gpu 5.0000%".toList = .panic message := ⟨_, rfl⟩
  have hid : ∃ message, metricsLine "0.0: bus 06, gpu 06".toList = .panic message := ⟨_, rfl⟩
  obtain ⟨message, hlong⟩ := hlong
  obtain ⟨message', hid⟩ := hid
  exact ⟨fun h => h message hlong, fun h => h message' hid⟩

end Laqista.Monitor
