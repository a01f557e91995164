import Mathlib.Algebra.Order.Ring.Int
import Mathlib.Tactic.Common

/-! # Instants

A `DateTime` is an instant in UTC as the chrono crate represents it: whole seconds since the Unix
epoch and nanoseconds, which only exceed a second in the last second of a minute (a leap second).
Only instants of some years can be represented, so adding a duration can fail. -/

namespace Laqista.Lib

/-- The first second of the year -262143. -/
def minSecs : ℤ := -8334601228800

/-- The last second of the year 262142. -/
def maxSecs : ℤ := 8210266876799

/-- The nanoseconds are inside the second, or inside a leap second. -/
def NanosFit (secs : ℤ) (nanos : ℕ) : Prop :=
  nanos < 10 ^ 9 ∨ (nanos < 2 * 10 ^ 9 ∧ secs % 60 = 59)

instance decidableNanosFit (secs : ℤ) (nanos : ℕ) : Decidable (NanosFit secs nanos) := by
  unfold NanosFit
  infer_instance

structure DateTime where
  secs : ℤ
  nanos : ℕ
  inRange : minSecs ≤ secs ∧ secs ≤ maxSecs
  fit : NanosFit secs nanos
  deriving DecidableEq

namespace DateTime

/-- `DateTime::from_timestamp`. -/
def fromTimestamp (secs : ℤ) (nanos : ℕ) : Option DateTime :=
  if h : (minSecs ≤ secs ∧ secs ≤ maxSecs) ∧ NanosFit secs nanos then some ⟨secs, nanos, h.1, h.2⟩
  else none

/-- The Unix epoch. -/
def epoch : DateTime := (fromTimestamp 0 0).get (by decide)

/-- `second`: the second of the minute. -/
def second (d : DateTime) : ℕ := (d.secs % 60).toNat

/-- Seconds and nanoseconds, none of them in a leap second, with a duration added whose parts have
the same sign. -/
def carry (secs frac secsToAdd fracToAdd : ℤ) : Option DateTime :=
  let secs := secs + secsToAdd
  let frac := frac + fracToAdd
  if frac < 0 then fromTimestamp (secs - 1) (frac + 10 ^ 9).toNat
  else if 10 ^ 9 ≤ frac then fromTimestamp (secs + 1) (frac - 10 ^ 9).toNat
  else fromTimestamp secs frac.toNat

/-- `checked_add_signed`, for a duration in nanoseconds. -/
def checkedAdd (d : DateTime) (delta : ℤ) : Option DateTime :=
  let secsToAdd := delta.tdiv (10 ^ 9)
  let fracToAdd := delta.tmod (10 ^ 9)
  if 10 ^ 9 ≤ d.nanos then
    -- the sum leaves the leap second forwards, backwards, or not at all
    if 0 < secsToAdd ∨ (0 < fracToAdd ∧ 2 * 10 ^ 9 - fracToAdd ≤ d.nanos) then
      carry d.secs (d.nanos - 10 ^ 9) secsToAdd fracToAdd
    else if secsToAdd < 0 then carry (d.secs + 1) (d.nanos - 10 ^ 9) secsToAdd fracToAdd
    else fromTimestamp d.secs (d.nanos + fracToAdd).toNat
  else carry d.secs d.nanos secsToAdd fracToAdd

theorem fromTimestamp_eq_some {secs : ℤ} {nanos : ℕ} {d : DateTime} :
    fromTimestamp secs nanos = some d ↔ d.secs = secs ∧ d.nanos = nanos := by
  unfold fromTimestamp
  constructor
  · intro h
    split_ifs at h
    obtain rfl := Option.some.inj h
    exact ⟨rfl, rfl⟩
  · rintro ⟨rfl, rfl⟩
    rw [dif_pos ⟨d.inRange, d.fit⟩]

/-! ### Nanoseconds since the epoch -/

/-- The instant in nanoseconds since the Unix epoch, of which a leap second takes none. -/
def ns (d : DateTime) : ℤ := d.secs * 10 ^ 9 + d.nanos

theorem nanos_lt (d : DateTime) : d.nanos < 10 ^ 9 ∨ d.nanos < 2 * 10 ^ 9 ∧ d.secs % 60 = 59 :=
  d.fit

theorem second_lt (d : DateTime) : d.second < 60 := by
  unfold second
  omega

theorem second_eq (d : DateTime) : (d.second : ℤ) = d.secs % 60 := by
  unfold second
  omega

/-- What carrying makes of the sum of the fractions. -/
theorem carry_cases {secs frac a f : ℤ} {d : DateTime} (h : carry secs frac a f = some d) :
    (frac + f < 0 ∧ d.secs = secs + a - 1 ∧ d.nanos = (frac + f + 10 ^ 9).toNat) ∨
    (10 ^ 9 ≤ frac + f ∧ d.secs = secs + a + 1 ∧ d.nanos = (frac + f - 10 ^ 9).toNat) ∨
    (0 ≤ frac + f ∧ frac + f < 10 ^ 9 ∧ d.secs = secs + a ∧ d.nanos = (frac + f).toNat) := by
  simp only [carry] at h
  split_ifs at h with hneg hover
  · exact .inl ⟨hneg, fromTimestamp_eq_some.mp h⟩
  · exact .inr (.inl ⟨hover, fromTimestamp_eq_some.mp h⟩)
  · exact .inr (.inr ⟨by omega, by omega, fromTimestamp_eq_some.mp h⟩)

/-- Carrying adds the duration, if the sum of the fractions is not below a second before zero. -/
theorem carry_ns {secs frac a f : ℤ} {d : DateTime} (h : carry secs frac a f = some d)
    (hf : -10 ^ 9 ≤ frac + f) : d.ns = (secs + a) * 10 ^ 9 + (frac + f) := by
  have hcases := carry_cases h
  unfold ns
  omega

theorem carry_secs {secs frac a f : ℤ} {d : DateTime} (h : carry secs frac a f = some d)
    (hf : -10 ^ 9 ≤ frac + f) (hf' : frac + f < 10 ^ 9) :
    d.secs ≤ secs + a ∧ d.nanos < 10 ^ 9 := by
  have hcases := carry_cases h
  omega

/-- A second in the range with a fraction inside of it can be represented. -/
theorem exists_fromTimestamp (secs : ℤ) (nanos : ℕ) (hlo : minSecs ≤ secs) (hhi : secs ≤ maxSecs)
    (hf : NanosFit secs nanos) : ∃ d, fromTimestamp secs nanos = some d :=
  ⟨_, dif_pos ⟨⟨hlo, hhi⟩, hf⟩⟩

theorem exists_carry {secs frac a f : ℤ} (hf : -10 ^ 9 ≤ frac + f) (hf' : frac + f < 2 * 10 ^ 9)
    (hlo : minSecs * 10 ^ 9 ≤ (secs + a) * 10 ^ 9 + (frac + f))
    (hhi : (secs + a) * 10 ^ 9 + (frac + f) < maxSecs * 10 ^ 9) :
    ∃ d, carry secs frac a f = some d := by
  simp only [carry]
  split_ifs with h1 h2
  · exact exists_fromTimestamp _ _ (by omega) (by omega) (Or.inl (by omega))
  · exact exists_fromTimestamp _ _ (by omega) (by omega) (Or.inl (by omega))
  · exact exists_fromTimestamp _ _ (by omega) (by omega) (Or.inl (by omega))

/-- The quotient and the remainder of a duration have its sign. -/
theorem tdiv_tmod (delta : ℤ) : 10 ^ 9 * delta.tdiv (10 ^ 9) + delta.tmod (10 ^ 9) = delta ∧
    -10 ^ 9 < delta.tmod (10 ^ 9) ∧ delta.tmod (10 ^ 9) < 10 ^ 9 ∧
    (delta ≤ 0 → delta.tmod (10 ^ 9) ≤ 0) := by
  refine ⟨Int.mul_tdiv_add_tmod delta _, Int.lt_tmod_of_pos delta (by decide),
    Int.tmod_lt_of_pos delta (by decide), fun h => ?_⟩
  have hneg := Int.tmod_nonneg (10 ^ 9) (show 0 ≤ -delta by omega)
  rw [Int.neg_tmod] at hneg
  omega

/-- **What a sum is**: a leap second is left forwards, or backwards, or not at all, and any other
second is carried. -/
theorem checkedAdd_cases {d d' : DateTime} {delta : ℤ} (h : d.checkedAdd delta = some d') :
    ∃ q r : ℤ, (10 ^ 9 * q + r = delta ∧ -10 ^ 9 < r ∧ r < 10 ^ 9 ∧ (delta ≤ 0 → r ≤ 0)) ∧
      ((10 ^ 9 ≤ d.nanos ∧ (0 < q ∨ 0 < r) ∧ carry d.secs (d.nanos - 10 ^ 9) q r = some d') ∨
       (10 ^ 9 ≤ d.nanos ∧ q < 0 ∧ carry (d.secs + 1) (d.nanos - 10 ^ 9) q r = some d') ∨
       (10 ^ 9 ≤ d.nanos ∧ q = 0 ∧ (0 < r → d.nanos + r < 2 * 10 ^ 9) ∧
         d'.secs = d.secs ∧ d'.nanos = (d.nanos + r).toNat) ∨
       (d.nanos < 10 ^ 9 ∧ carry d.secs d.nanos q r = some d')) := by
  refine ⟨_, _, tdiv_tmod delta, ?_⟩
  simp only [checkedAdd] at h
  split_ifs at h with hleap hforwards hbackwards
  · exact .inl ⟨hleap, hforwards.imp_right And.left, h⟩
  · exact .inr (.inl ⟨hleap, hbackwards, h⟩)
  · exact .inr (.inr (.inl ⟨hleap, by omega, by omega, fromTimestamp_eq_some.mp h⟩))
  · exact .inr (.inr (.inr ⟨by omega, h⟩))

/-- **Outside of leap seconds a sum is exact**, as is any that goes back. -/
theorem checkedAdd_ns {d d' : DateTime} {delta : ℤ} (h : d.checkedAdd delta = some d')
    (hd : d.nanos < 10 ^ 9 ∨ delta ≤ 0) : d'.ns = d.ns + delta := by
  have hn := d.nanos_lt
  obtain ⟨q, r, hparts, ⟨hleap, hforwards, hc⟩ | ⟨hleap, hq, hc⟩ | ⟨hleap, hq, -, hs, hf⟩ |
    ⟨hlt, hc⟩⟩ := checkedAdd_cases h
  · -- only a sum that goes forward leaves the leap second forwards
    omega
  · have key := carry_ns hc (by omega)
    unfold ns at key ⊢
    omega
  · unfold ns
    omega
  · have key := carry_ns hc (by omega)
    unfold ns at key ⊢
    omega

/-- Going back does not lead to a later second, nor into the leap second of another minute. -/
theorem checkedAdd_nonpos {d d' : DateTime} {delta : ℤ} (h : d.checkedAdd delta = some d')
    (hd : delta ≤ 0) : d'.secs ≤ d.secs ∧ (d'.nanos < 10 ^ 9 ∨ d'.secs = d.secs) := by
  have hn := d.nanos_lt
  obtain ⟨q, r, hparts, ⟨hleap, hforwards, hc⟩ | ⟨hleap, hq, hc⟩ | ⟨hleap, hq, -, hs, hf⟩ |
    ⟨hlt, hc⟩⟩ := checkedAdd_cases h
  · omega
  · have key := carry_secs hc (by omega) (by omega)
    omega
  · omega
  · have key := carry_secs hc (by omega) (by omega)
    omega

/-- A second later is in the next second, also from a leap second. -/
theorem checkedAdd_second {d d' : DateTime} (h : d.checkedAdd (10 ^ 9) = some d') :
    d'.secs = d.secs + 1 := by
  have hn := d.nanos_lt
  obtain ⟨q, r, hparts, ⟨hleap, hforwards, hc⟩ | ⟨hleap, hq, hc⟩ | ⟨hleap, hq, -, hs, hf⟩ |
    ⟨hlt, hc⟩⟩ := checkedAdd_cases h
  · have key := carry_cases hc
    omega
  · omega
  · omega
  · have key := carry_cases hc
    omega

/-- A sum can be represented if it is inside the bounds. -/
theorem exists_checkedAdd (d : DateTime) (delta : ℤ) (hd : d.nanos < 10 ^ 9 ∨ delta ≤ 0)
    (hlo : minSecs * 10 ^ 9 ≤ d.ns + delta) (hhi : d.ns + delta < maxSecs * 10 ^ 9) :
    ∃ d', d.checkedAdd delta = some d' := by
  obtain ⟨hsum, hr, hr', hsign⟩ := tdiv_tmod delta
  have hn := d.nanos_lt
  unfold ns at hlo hhi
  simp only [checkedAdd]
  generalize delta.tdiv (10 ^ 9) = q at hsum ⊢
  generalize delta.tmod (10 ^ 9) = r at hsum hr hr' hsign ⊢
  split_ifs with h1 h2 h3
  · omega
  · exact exists_carry (by omega) (by omega) (by omega) (by omega)
  · have hleap : d.secs % 60 = 59 := by omega
    exact exists_fromTimestamp _ _ d.inRange.1 d.inRange.2 (Or.inr ⟨by omega, hleap⟩)
  · exact exists_carry (by omega) (by omega) (by omega) (by omega)

/-! ### Order -/

/-- The order of instants, in which those of a leap second come before the next minute. -/
def Before (a b : DateTime) : Prop := a.secs < b.secs ∨ a.secs = b.secs ∧ a.nanos < b.nanos

/-- The minute since the Unix epoch. -/
def minute (d : DateTime) : ℤ := d.secs / 60

theorem second_add_minute (d : DateTime) : d.secs = 60 * d.minute + d.second := by
  rw [second_eq]
  unfold minute
  omega

theorem Before.minute_le {a b : DateTime} (h : a.Before b) : a.minute ≤ b.minute := by
  unfold Before at h
  unfold minute
  omega

/-- Not to be before is to be as late or later. -/
theorem minute_le_of_not_before {a b : DateTime} (h : ¬ b.Before a) : a.minute ≤ b.minute := by
  unfold Before at h
  unfold minute
  omega

end DateTime
end Laqista.Lib
