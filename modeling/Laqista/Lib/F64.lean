import Mathlib.Algebra.Field.Rat
import Mathlib.Algebra.Order.Ring.Unbundled.Rat
import Mathlib.Data.Rat.Floor
import Mathlib.Tactic.Common

/-! # Floating-point numbers with exact arithmetic

A finite `f64` is read as the rational number it stands for, and arithmetic on finite numbers is
exact; the values outside the rationals are kept. A quotient by zero is an infinity or no number, no
comparison with `nan` holds, and a cast to an integer truncates and saturates. -/

namespace Laqista.Lib

inductive F64 where
  | nan
  | inf (neg : Bool)
  | rat (q : ℚ)
  deriving DecidableEq

/-- The quotient of two finite numbers, the divisor not being a negative zero. -/
def F64.div (a b : ℚ) : F64 :=
  if b = 0 then
    if a = 0 then .nan else .inf (a < 0)
  else .rat (a / b)

/-- `a < b`. -/
def F64.lt : F64 → F64 → Bool
  | .rat a, .rat b => a < b
  | .inf true, .inf b => !b
  | .inf true, .rat _ => true
  | .rat _, .inf b => !b
  | _, _ => false

/-- A finite number. -/
def F64.value : F64 → ℚ
  | .rat q => q
  | _ => 0

/-- Truncation towards zero. -/
def trunc (q : ℚ) : ℤ := q.num.tdiv q.den

/-- `q as i64`: truncated, and kept inside the range. -/
def toI64 (q : ℚ) : Int64 := Int64.ofInt (max (-2 ^ 63) (min (2 ^ 63 - 1) (trunc q)))

/-- `q as i32`. -/
def toI32 (q : ℚ) : Int32 := Int32.ofInt (max (-2 ^ 31) (min (2 ^ 31 - 1) (trunc q)))

theorem F64.div_of_ne_zero {a b : ℚ} (h : b ≠ 0) : F64.div a b = .rat (a / b) := if_neg h

/-- A quotient of natural numbers is truncated to the quotient without remainder. -/
theorem trunc_natCast_div (a b : ℕ) : trunc ((a : ℚ) / b) = (a / b : ℕ) := by
  have h0 : 0 ≤ ((a : ℚ) / b).num :=
    Rat.num_nonneg.mpr (div_nonneg (Nat.cast_nonneg a) (Nat.cast_nonneg b))
  unfold trunc
  rw [Int.tdiv_eq_ediv_of_nonneg h0]
  exact (Rat.floor_def _).symm.trans (Rat.floor_natCast_div_natCast a b)

theorem toInt_toI32 {q : ℚ} {n : ℕ} (h : trunc q = n) (hn : n < 2 ^ 31) : (toI32 q).toInt = n := by
  unfold toI32
  rw [h, min_eq_right (by omega), max_eq_right (by omega)]
  exact Int32.toInt_ofInt_of_le (by omega) (by omega)

end Laqista.Lib
