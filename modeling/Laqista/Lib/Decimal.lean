import Mathlib.Algebra.Order.Ring.Int
import Mathlib.Data.List.Induction
import Mathlib.Tactic.Common
import Mathlib.Tactic.IntervalCases
import Mathlib.Tactic.Ring

/-! # Decimal numerals

Digits denote a number (`decimal`), also with zeros in front. `natText` and `intText` print a number
without such zeros, and reading undoes printing (`decimal_natText`, `parseInt_intText`). Printing
undoes reading where no zeros are in front (`natText_decimal`). -/

namespace Laqista.Lib

/-- The value of decimal digits. -/
def decimal (ds : List Char) : ℕ := Nat.ofDigitChars 10 ds 0

/-- A number in decimal digits. -/
def natText (n : ℕ) : List Char := Nat.toDigits 10 n

/-- A number with its sign, if that is a minus. -/
def intText (n : ℤ) : List Char :=
  if n < 0 then '-' :: natText n.natAbs else natText n.natAbs

/-- Digits below the bound. -/
def parseNat (bound : ℕ) (ds : List Char) : Option ℕ :=
  if ds ≠ [] ∧ ds.all Char.isDigit ∧ decimal ds < bound then some (decimal ds) else none

/-- An optional sign and digits, with `-bound ≤ n < bound`. -/
def parseInt (bound : ℕ) (cs : List Char) : Option ℤ :=
  match cs with
  | '-' :: ds => (parseNat (bound + 1) ds).map fun n => -(n : ℤ)
  | '+' :: ds => (parseNat bound ds).map Nat.cast
  | ds => (parseNat bound ds).map Nat.cast

/-- Digits denote a number with at most as many digits. -/
theorem decimal_lt {ds : List Char} (h : ∀ c ∈ ds, Char.isDigit c) :
    decimal ds < 10 ^ ds.length := by
  induction ds with
  | nil => decide
  | cons c ds ih =>
    have hc : c.toNat - '0'.toNat ≤ 9 := by
      have h0 : '0'.toNat = 48 := rfl
      have h9 : '9'.toNat = 57 := rfl
      have hdigit := Char.isDigit_iff_toNat.mp (h c (by simp))
      omega
    have hds := ih fun d hd => h d (List.mem_cons_of_mem c hd)
    unfold decimal at hds ⊢
    rw [Nat.ofDigitChars_cons, Nat.ofDigitChars_eq_ofDigitChars_zero, List.length_cons, pow_succ,
      Nat.mul_zero, Nat.zero_add]
    calc 10 ^ ds.length * (c.toNat - '0'.toNat) + Nat.ofDigitChars 10 ds 0
        < 10 ^ ds.length * 9 + 10 ^ ds.length :=
          Nat.add_lt_add_of_le_of_lt (Nat.mul_le_mul_left _ hc) hds
      _ = 10 ^ ds.length * 10 := by ring

@[simp] theorem decimal_natText (n : ℕ) : decimal (natText n) = n := Nat.ofDigitChars_ten_toDigits

theorem natText_ne_nil (n : ℕ) : natText n ≠ [] := Nat.toDigits_ne_nil

theorem isDigit_natText {n : ℕ} {c : Char} (h : c ∈ natText n) : Char.isDigit c :=
  Nat.isDigit_of_mem_toDigits (by decide) (by decide) h

theorem parseNat_natText {bound n : ℕ} (h : n < bound) : parseNat bound (natText n) = some n := by
  have hdigits : (natText n).all Char.isDigit := List.all_eq_true.mpr fun c hc => isDigit_natText hc
  unfold parseNat
  rw [decimal_natText, if_pos ⟨natText_ne_nil n, hdigits, h⟩]

/-- A sign is not a digit. -/
theorem natText_cons (n : ℕ) : ∃ c cs, natText n = c :: cs ∧ c ≠ '-' ∧ c ≠ '+' := by
  rcases h : natText n with _ | ⟨c, cs⟩
  · exact absurd h (natText_ne_nil n)
  · have hc : Char.isDigit c := isDigit_natText (by rw [h]; exact List.mem_cons_self ..)
    refine ⟨c, cs, rfl, ?_, ?_⟩
    · rintro rfl
      exact absurd hc (by decide)
    · rintro rfl
      exact absurd hc (by decide)

/-- **Reading an integer undoes printing it.** -/
theorem parseInt_intText {bound : ℕ} {n : ℤ} (h0 : -bound ≤ n) (h1 : n < bound) :
    parseInt bound (intText n) = some n := by
  unfold intText
  by_cases hn : n < 0
  · have hread := parseNat_natText (n := n.natAbs) (show n.natAbs < bound + 1 by omega)
    rw [if_pos hn]
    show (parseNat (bound + 1) (natText n.natAbs)).map (fun n => -(n : ℤ)) = _
    rw [hread]
    exact congrArg some (show -(n.natAbs : ℤ) = n by omega)
  · have hread := parseNat_natText (n := n.natAbs) (show n.natAbs < bound by omega)
    obtain ⟨c, cs, hcs, hminus, hplus⟩ := natText_cons n.natAbs
    rw [if_neg hn]
    unfold parseInt
    rw [hcs] at hread ⊢
    split
    · next ds heq => exact absurd (List.cons.inj heq).1 hminus
    · next ds heq => exact absurd (List.cons.inj heq).1 hplus
    · rw [hread]
      exact congrArg some (show (n.natAbs : ℤ) = n by omega)

/-! ### What is printed again -/

/-- The digits are those that are printed. -/
theorem exists_digitChar {c : Char} (h : Char.isDigit c) : ∃ n < 10, c = Nat.digitChar n := by
  have h0 : '0'.toNat = 48 := rfl
  have h9 : '9'.toNat = 57 := rfl
  obtain ⟨hle, hge⟩ := Char.isDigit_iff_toNat.mp h
  have hlt : c.toNat - 48 < 10 := by omega
  have hchar := Nat.toNat_digitChar_of_lt_ten hlt
  exact ⟨c.toNat - 48, hlt, Char.toNat_inj.mp (by omega)⟩

theorem decimal_append_singleton {ds : List Char} {n : ℕ} (h : n < 10) :
    decimal (ds ++ [Nat.digitChar n]) = 10 * decimal ds + n := by
  have hvalue : (Nat.digitChar n).toNat - '0'.toNat = n := Nat.toNat_digitChar_sub_48_of_lt_ten h
  unfold decimal
  rw [Nat.ofDigitChars_append, Nat.ofDigitChars_cons, Nat.ofDigitChars_nil, hvalue]

theorem natText_append {n d : ℕ} (h : 0 < n) (hd : d < 10) :
    natText (10 * n + d) = natText n ++ [Nat.digitChar d] := by
  unfold natText
  rw [Nat.toDigits_eq_if (by decide), if_neg (by omega), show (10 * n + d) / 10 = n by omega,
    show (10 * n + d) % 10 = d by omega]

/-- A number is printed without zeros in front. -/
theorem natText_zero_head {n : ℕ} (h : (natText n).head? = some '0') : n = 0 := by
  induction n using Nat.strongRecOn with
  | ind n ih =>
    by_cases hn : n < 10
    · unfold natText at h
      rw [Nat.toDigits_of_lt_base hn] at h
      interval_cases n <;> first | rfl | exact absurd h (by decide)
    · rw [show n = 10 * (n / 10) + n % 10 by omega, natText_append (by omega) (by omega),
        List.head?_append] at h
      obtain ⟨c, cs, hcs⟩ := List.exists_cons_of_ne_nil (natText_ne_nil (n / 10))
      have hzero := ih (n / 10) (by omega) (by rw [hcs] at h ⊢; exact h)
      omega

/-- **Printing undoes reading**, of digits without zeros in front. -/
theorem natText_decimal {ds : List Char} (hne : ds ≠ []) (hdigits : ∀ c ∈ ds, Char.isDigit c)
    (hzero : ds.head? = some '0' → ds = ['0']) : natText (decimal ds) = ds := by
  induction ds using List.reverseRecOn with
  | nil => exact absurd rfl hne
  | append_singleton ds c ih =>
    obtain ⟨d, hd, rfl⟩ := exists_digitChar (hdigits c (by simp))
    rw [decimal_append_singleton hd]
    rcases ds with _ | ⟨e, es⟩
    · unfold natText
      rw [show 10 * decimal [] + d = d from Nat.zero_add d, Nat.toDigits_of_lt_base hd]
      rfl
    · have hlead : e ≠ '0' := by
        rintro rfl
        have := hzero rfl
        simp at this
      have hrest := ih (by simp) (fun c hc => hdigits c (List.mem_append_left _ hc))
        (fun h => absurd (Option.some.inj h) hlead)
      have hpos : 0 < decimal (e :: es) := by
        by_contra h0
        rw [show decimal (e :: es) = 0 by omega] at hrest
        exact hlead (List.cons.inj hrest).1.symm
      rw [natText_append hpos hd, hrest]

end Laqista.Lib
