import Mathlib.Data.List.Induction
import Mathlib.Data.Nat.Basic
import Mathlib.Tactic.Common
import Mathlib.Tactic.IntervalCases
import Mathlib.Tactic.Ring

/-! # Hexadecimal numerals of a fixed width

`hexDigits k n` writes `n` with `k` lower-case digits, the most significant first; `hexValue` reads
digits of either case. `hexValue_hexDigits` is the round trip, and `hexDigits_hexValue` the other
one for digits in lower case. `grouped` puts a separator after groups of given sizes and `ungrouped`
takes it out again. -/

namespace Laqista.Lib.Hex

/-- The lower-case digit of a value below `16`. -/
def hexChar (n : ℕ) : Char := "0123456789abcdef".toList.getD n '0'

/-- The value of a digit, of either case. -/
def charValue (c : Char) : Option ℕ :=
  if '0' ≤ c ∧ c ≤ '9' then some (c.toNat - '0'.toNat)
  else if 'a' ≤ c ∧ c ≤ 'f' then some (c.toNat - 'a'.toNat + 10)
  else if 'A' ≤ c ∧ c ≤ 'F' then some (c.toNat - 'A'.toNat + 10)
  else none

/-- `n` with `k` digits. -/
def hexDigits : ℕ → ℕ → List Char
  | 0, _ => []
  | k + 1, n => hexDigits k (n / 16) ++ [hexChar (n % 16)]

/-- One more digit is read. -/
def readDigit (n : ℕ) (c : Char) : Option ℕ := (charValue c).map (16 * n + ·)

/-- The number that the digits denote. -/
def hexValue (cs : List Char) : Option ℕ := cs.foldlM readDigit 0

@[simp] theorem length_hexDigits (k n : ℕ) : (hexDigits k n).length = k := by
  induction k generalizing n with
  | zero => rfl
  | succ k ih => simp [hexDigits, ih]

theorem charValue_hexChar {n : ℕ} (h : n < 16) : charValue (hexChar n) = some n := by
  interval_cases n <;> decide

theorem hexValue_hexDigits (k n : ℕ) : hexValue (hexDigits k n) = some (n % 16 ^ k) := by
  induction k generalizing n with
  | zero => simp [hexDigits, hexValue, Nat.mod_one]
  | succ k ih =>
    have hih : (hexDigits k (n / 16)).foldlM readDigit 0 = some (n / 16 % 16 ^ k) := ih (n / 16)
    have hmod : 16 * (n / 16 % 16 ^ k) + n % 16 = n % 16 ^ (k + 1) := by
      have hpow : 16 ^ (k + 1) = 16 * 16 ^ k := by ring
      rw [hpow, Nat.mod_mul]
      omega
    rw [hexValue, hexDigits, List.foldlM_append, hih]
    simp [readDigit, charValue_hexChar (Nat.mod_lt n (by norm_num : 16 > 0)), hmod]

theorem hexChar_mem (n : ℕ) : hexChar n ∈ "0123456789abcdef".toList := by
  unfold hexChar
  rw [List.getD_eq_getElem?_getD]
  rcases h : "0123456789abcdef".toList[n]? with _ | c
  · decide
  · exact List.mem_of_getElem? h

theorem exists_hexChar {c : Char} {k n : ℕ} (h : c ∈ hexDigits k n) : ∃ d < 16, c = hexChar d := by
  induction k generalizing n with
  | zero => simp [hexDigits] at h
  | succ k ih =>
    rcases List.mem_append.mp h with h | h
    · exact ih h
    · exact ⟨n % 16, Nat.mod_lt n (by omega), List.mem_singleton.mp h⟩

theorem mem_hexDigits {c : Char} {k n : ℕ} (h : c ∈ hexDigits k n) :
    c ∈ "0123456789abcdef".toList := by
  obtain ⟨d, -, rfl⟩ := exists_hexChar h
  exact hexChar_mem d

theorem hexValue_append_singleton {cs : List Char} {c : Char} {n : ℕ}
    (h : hexValue (cs ++ [c]) = some n) :
    ∃ m d, hexValue cs = some m ∧ charValue c = some d ∧ n = 16 * m + d := by
  unfold hexValue at h
  rw [List.foldlM_append] at h
  obtain ⟨m, hm, h⟩ := Option.bind_eq_some_iff.mp h
  obtain ⟨n', hn, h⟩ := Option.bind_eq_some_iff.mp h
  obtain ⟨d, hd, rfl⟩ := Option.map_eq_some_iff.mp hn
  exact ⟨m, d, hm, hd, (Option.some.inj h).symm⟩

/-- An upper-case digit. -/
def isUpper (c : Char) : Prop := 'A' ≤ c ∧ c ≤ 'F'

theorem not_isUpper_hexChar {n : ℕ} (h : n < 16) : ¬ isUpper (hexChar n) := by
  unfold isUpper
  interval_cases n <;> decide

theorem not_isUpper_hexDigits {c : Char} {k n : ℕ} (h : c ∈ hexDigits k n) : ¬ isUpper c := by
  obtain ⟨d, hd, rfl⟩ := exists_hexChar h
  exact not_isUpper_hexChar hd

theorem toNat_hexChar {d : ℕ} (h : d < 16) :
    (hexChar d).toNat = if d < 10 then 48 + d else 87 + d := by
  interval_cases d <;> rfl

/-- **A digit that is not in upper case is printed as it was read.** -/
theorem hexChar_charValue {c : Char} {d : ℕ} (h : charValue c = some d) (hc : ¬ isUpper c) :
    d < 16 ∧ hexChar d = c := by
  have hle : ∀ a b : Char, a ≤ b ↔ a.toNat ≤ b.toNat := fun a b => by
    rw [Char.le_def, UInt32.le_iff_toNat_le]
    rfl
  have h0 : '0'.toNat = 48 := rfl
  have h9 : '9'.toNat = 57 := rfl
  have ha : 'a'.toNat = 97 := rfl
  have hf : 'f'.toNat = 102 := rfl
  unfold charValue at h
  split_ifs at h with h1 h2 h3
  · obtain rfl := Option.some.inj h
    rw [hle, hle] at h1
    have hd : c.toNat - '0'.toNat < 10 := by omega
    have hchar := toNat_hexChar (show c.toNat - '0'.toNat < 16 by omega)
    rw [if_pos hd] at hchar
    exact ⟨by omega, Char.toNat_inj.mp (by omega)⟩
  · obtain rfl := Option.some.inj h
    rw [hle, hle] at h2
    have hd : ¬ c.toNat - 'a'.toNat + 10 < 10 := by omega
    have hchar := toNat_hexChar (show c.toNat - 'a'.toNat + 10 < 16 by omega)
    rw [if_neg hd] at hchar
    exact ⟨by omega, Char.toNat_inj.mp (by omega)⟩
  · exact absurd h3 hc

/-- **Printing undoes reading**, of digits in lower case. -/
theorem hexDigits_hexValue {cs : List Char} {n : ℕ} (h : hexValue cs = some n)
    (hlower : ∀ c ∈ cs, ¬ isUpper c) : hexDigits cs.length n = cs := by
  induction cs using List.reverseRecOn generalizing n with
  | nil => rfl
  | append_singleton cs c ih =>
    obtain ⟨m, d, hm, hd, rfl⟩ := hexValue_append_singleton h
    obtain ⟨hlt, hchar⟩ := hexChar_charValue hd (hlower c (by simp))
    have hrest := ih hm fun c hc => hlower c (List.mem_append_left _ hc)
    rw [List.length_append, List.length_singleton, hexDigits,
      show (16 * m + d) / 16 = m by omega, show (16 * m + d) % 16 = d by omega, hrest, hchar]

/-- A separator after groups of the given sizes. -/
def grouped (sep : Char) : List ℕ → List Char → List Char
  | [], cs => cs
  | n :: ns, cs => cs.take n ++ sep :: grouped sep ns (cs.drop n)

/-- The characters between the separators, if these are where the sizes say. -/
def ungrouped (sep : Char) : List ℕ → List Char → Option (List Char)
  | [], cs => some cs
  | n :: ns, cs =>
    match cs.drop n with
    | c :: rest => if c = sep then (ungrouped sep ns rest).map (cs.take n ++ ·) else none
    | [] => none

theorem ungrouped_grouped (sep : Char) (ns : List ℕ) (cs : List Char) (h : ns.sum ≤ cs.length) :
    ungrouped sep ns (grouped sep ns cs) = some cs := by
  induction ns generalizing cs with
  | nil => rfl
  | cons n ns ih =>
    rw [List.sum_cons] at h
    have hl : (cs.take n).length = n := by simp; omega
    rw [grouped, ungrouped, List.drop_left' hl, List.take_left' hl]
    simp only [if_true]
    rw [ih (cs.drop n) (by simp; omega)]
    simp

theorem length_grouped (sep : Char) (ns : List ℕ) (cs : List Char) (h : ns.sum ≤ cs.length) :
    (grouped sep ns cs).length = cs.length + ns.length := by
  induction ns generalizing cs with
  | nil => rfl
  | cons n ns ih =>
    rw [List.sum_cons] at h
    rw [grouped, List.length_append, List.length_cons, ih (cs.drop n) (by simp; omega)]
    simp
    omega

end Laqista.Lib.Hex
