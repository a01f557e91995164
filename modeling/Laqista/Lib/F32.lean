import Mathlib.Algebra.Order.Ring.Int
import Mathlib.Data.Nat.Log
import Mathlib.Tactic.Common

/-! # Single-precision numbers and their order

An `f32` by its bits. Numbers compare as the integers that `key` gives, the two zeros being the
same; a comparison with what is not a number has no answer. A sort takes a comparison that answers
always; it gives a sorted permutation if that comparison is a total order on the elements, and
otherwise some permutation, or it panics. -/

namespace Laqista.Lib

structure F32 where
  bits : UInt32
  deriving DecidableEq, Repr

namespace F32

/-- The place in the order, nothing for what is not a number. -/
def key (x : F32) : Option ℤ :=
  let magnitude : ℕ := x.bits.toNat % 2 ^ 31
  if 0x7f800000 < magnitude then none
  else if x.bits.toNat < 2 ^ 31 then some magnitude
  else some (-magnitude)

/-- `partial_cmp`. -/
def partialCmp (a b : F32) : Option Ordering := do
  let x ← a.key
  let y ← b.key
  return compare x y

/-- The number nearest to `a / b`, for `0 < b`, `a ≤ b` and a quotient that is a normal number; `b`
is odd, which excludes ties. -/
def ofRatio (a b : ℕ) : F32 :=
  if a = 0 then ⟨0⟩
  else
    -- the significand has 24 bits, of which the first is not stored
    let shift := 24 + Nat.log 2 (b / a)
    let shift := if a * 2 ^ (shift - 1) < b * 2 ^ 23 then shift else shift - 1
    let significand := (2 * (a * 2 ^ shift) + b) / (2 * b)
    ⟨UInt32.ofNat ((127 + 23 - shift) * 2 ^ 23 + significand - 2 ^ 23)⟩

/-- The values of a channel grow with it. -/
theorem ofRatio_lt {a b : ℕ} (h : a < b) (hb : b < 2 ^ 8) :
    (ofRatio a 255).bits.toNat < (ofRatio b 255).bits.toNat := by
  have hstep : ∀ n < 2 ^ 8 - 1,
      (ofRatio n 255).bits.toNat < (ofRatio (n + 1) 255).bits.toNat := by decide +kernel
  induction b with
  | zero => omega
  | succ n ih =>
    have hlast := hstep n (by omega)
    rcases Nat.lt_succ_iff_lt_or_eq.mp h with hlt | rfl
    · have hn := ih hlt (by omega)
      omega
    · exact hlast

/-- So they are different numbers. -/
theorem ofRatio_inj {a b : ℕ} (ha : a < 2 ^ 8) (hb : b < 2 ^ 8)
    (h : ofRatio a 255 = ofRatio b 255) : a = b := by
  rcases lt_trichotomy a b with hlt | heq | hlt
  · have hbits := ofRatio_lt hlt hb
    rw [h] at hbits
    omega
  · exact heq
  · have hbits := ofRatio_lt hlt ha
    rw [h] at hbits
    omega

/-- `a` is at most `b`. -/
def Le (a b : F32) : Prop := ∃ x y, a.key = some x ∧ b.key = some y ∧ x ≤ y

instance (a b : F32) : Decidable (a.Le b) :=
  match ha : a.key, hb : b.key with
  | some x, some y =>
    decidable_of_iff (x ≤ y) ⟨fun h => ⟨x, y, ha, hb, h⟩, by
      rintro ⟨x', y', hx, hy, h⟩
      rw [ha] at hx
      rw [hb] at hy
      cases hx
      cases hy
      exact h⟩
  | none, _ => isFalse (by
      rintro ⟨x, y, hx, -⟩
      rw [ha] at hx
      cases hx)
  | some _, none => isFalse (by
      rintro ⟨x, y, -, hy, -⟩
      rw [hb] at hy
      cases hy)

theorem partialCmp_of_key {a b : F32} {x y : ℤ} (ha : a.key = some x) (hb : b.key = some y) :
    a.partialCmp b = some (compare x y) := by
  unfold partialCmp
  rw [ha, hb]
  rfl

end F32

/-! ### Sorting -/

section Sorting

variable {α : Type}

/-- The comparison is a total order on the elements of the list, up to elements that it does not
tell apart. -/
structure TotalOn (cmp : α → α → Ordering) (l : List α) : Prop where
  swap : ∀ a ∈ l, ∀ b ∈ l, (cmp a b).swap = cmp b a
  trans : ∀ a ∈ l, ∀ b ∈ l, ∀ c ∈ l, (cmp a b).isLE → (cmp b c).isLE → (cmp a c).isLE

/-- What `sort_unstable_by` promises. -/
structure SortsUnstable {ε : Type} (sort : (α → α → Ordering) → List α → Except ε (List α)) :
    Prop where
  perm : ∀ cmp l l', sort cmp l = .ok l' → l'.Perm l
  sorted : ∀ cmp l, TotalOn cmp l →
    ∃ l', sort cmp l = .ok l' ∧ l'.Pairwise fun a b => (cmp a b).isLE

/-- Comparing keys in the opposite order is a total order. -/
theorem totalOn_of_key {cmp : α → α → Ordering} {l : List α} (key : α → ℤ)
    (h : ∀ a ∈ l, ∀ b ∈ l, cmp a b = compare (key b) (key a)) : TotalOn cmp l := by
  refine ⟨fun a ha b hb => ?_, fun a ha b hb c hc hab hbc => ?_⟩
  · rw [h a ha b hb, h b hb a ha]
    exact Int.compare_swap _ _
  · rw [h a ha b hb, Int.isLE_compare] at hab
    rw [h b hb c hc, Int.isLE_compare] at hbc
    rw [h a ha c hc, Int.isLE_compare]
    exact hbc.trans hab

/-- The first element of what is sorted by decreasing keys has a greatest key. -/
theorem head_of_sorted {cmp : α → α → Ordering} {a : α} {l : List α} (key : α → ℤ)
    (h : ∀ x ∈ a :: l, ∀ y ∈ a :: l, cmp x y = compare (key y) (key x))
    (hs : (a :: l).Pairwise fun x y => (cmp x y).isLE) : ∀ x ∈ a :: l, key x ≤ key a := by
  intro x hx
  rcases List.mem_cons.mp hx with rfl | hmem
  · exact le_rfl
  · have hle := List.rel_of_pairwise_cons hs hmem
    rw [h a (by simp) x hx, Int.isLE_compare] at hle
    exact hle

/-- A sort by merging, which looks at elements of the list only. -/
def sortBy (cmp : α → α → Ordering) (l : List α) : List α :=
  (l.attach.mergeSort fun a b => (cmp a b).isLE).map Subtype.val

theorem sortBy_sortsUnstable {ε : Type} :
    SortsUnstable (ε := ε) fun cmp (l : List α) => .ok (sortBy cmp l) := by
  refine ⟨fun cmp l l' h => ?_, fun cmp l hl => ⟨_, rfl, ?_⟩⟩
  · obtain rfl := Except.ok.inj h
    have hperm := (List.mergeSort_perm l.attach fun a b => (cmp a b).isLE).map Subtype.val
    rwa [List.attach_map_subtype_val] at hperm
  · refine List.pairwise_map.mpr (List.pairwise_mergeSort (fun a b c => ?_) (fun a b => ?_) _)
    · exact hl.trans a a.2 b b.2 c c.2
    · have hswap := hl.swap a a.2 b b.2
      rw [← hswap]
      cases cmp a b <;> rfl

end Sorting

end Laqista.Lib
