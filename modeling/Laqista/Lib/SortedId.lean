import Mathlib.Data.Prod.Lex
import Mathlib.Order.Fin.Basic
import Mathlib.Algebra.Order.Ring.Int

/-! # Identifiers that are sorted by time

The layout of a UUID of version 6: the count of 100 ns intervals since 1582 from its high bits to
its low ones, around the bits of the version, and behind the variant a counter and the address of a
node. As numbers, such identifiers are ordered by their time first, then by the counter and the
node (`toNat_le_iff`). -/

namespace Laqista.Lib

structure SortedId where
  ticks : Fin (2 ^ 60)
  counter : Fin (2 ^ 14)
  node : Fin (2 ^ 48)
  deriving DecidableEq, Repr

namespace SortedId

/-- The higher 48 bits of the time, in fields of 32 and 16 bits. -/
def timeHigh (v : SortedId) : ℕ := v.ticks / 2 ^ 28

def timeMid (v : SortedId) : ℕ := v.ticks / 2 ^ 12 % 2 ^ 16

/-- The lower bits of the time, behind the version. -/
def timeLowAndVersion (v : SortedId) : ℕ := 6 * 2 ^ 12 + v.ticks % 2 ^ 12

/-- The counter behind the variant. -/
def counterAndVariant (v : SortedId) : ℕ := 2 ^ 15 + v.counter

def toNat (v : SortedId) : ℕ :=
  (((v.timeHigh * 2 ^ 16 + v.timeMid) * 2 ^ 16 + v.timeLowAndVersion) * 2 ^ 16 +
    v.counterAndVariant) * 2 ^ 48 + v.node

/-- The time, then the counter, then the node. -/
def key (v : SortedId) : ℕ ×ₗ ℕ ×ₗ ℕ := toLex (v.ticks.val, toLex (v.counter.val, v.node.val))

theorem toNat_lt (v : SortedId) : v.toNat < 2 ^ 128 := by
  have hticks := v.ticks.isLt
  have hcounter := v.counter.isLt
  have hnode := v.node.isLt
  have hhigh : v.timeHigh < 2 ^ 32 := by
    unfold timeHigh
    omega
  have hmid : v.timeMid < 2 ^ 16 := Nat.mod_lt _ (by omega)
  have hlow : v.timeLowAndVersion < 2 ^ 16 := by
    unfold timeLowAndVersion
    omega
  have hvariant : v.counterAndVariant < 2 ^ 16 := by
    unfold counterAndVariant
    omega
  unfold toNat
  omega

/-- The fields of the time make up the time. -/
theorem ticks_eq (v : SortedId) :
    v.ticks.val + 6 * 2 ^ 12 =
      (v.timeHigh * 2 ^ 16 + v.timeMid) * 2 ^ 12 + v.timeLowAndVersion := by
  unfold timeHigh timeMid timeLowAndVersion
  omega

/-- The time and the version, in front of the counter and the node. -/
def front (v : SortedId) : ℕ := (v.timeHigh * 2 ^ 16 + v.timeMid) * 2 ^ 16 + v.timeLowAndVersion

theorem front_lt_iff {v w : SortedId} : v.front < w.front ↔ v.ticks.val < w.ticks.val := by
  have hv := v.ticks_eq
  have hw := w.ticks_eq
  have hlow : ∀ u : SortedId, 6 * 2 ^ 12 ≤ u.timeLowAndVersion ∧
      u.timeLowAndVersion < 7 * 2 ^ 12 := by
    intro u
    unfold timeLowAndVersion
    omega
  obtain ⟨hv₁, hv₂⟩ := hlow v
  obtain ⟨hw₁, hw₂⟩ := hlow w
  unfold front
  omega

theorem front_eq_iff {v w : SortedId} : v.front = w.front ↔ v.ticks.val = w.ticks.val := by
  have hlt := front_lt_iff (v := v) (w := w)
  have hgt := front_lt_iff (v := w) (w := v)
  omega

/-- **The order of the numbers** is by the time, the counter and the node. -/
theorem toNat_le_iff {v w : SortedId} : v.toNat ≤ w.toNat ↔ v.key ≤ w.key := by
  have hlt := front_lt_iff (v := v) (w := w)
  have heq := front_eq_iff (v := v) (w := w)
  have hv : v.toNat = (v.front * 2 ^ 16 + v.counterAndVariant) * 2 ^ 48 + v.node := rfl
  have hw : w.toNat = (w.front * 2 ^ 16 + w.counterAndVariant) * 2 ^ 48 + w.node := rfl
  have hvariant : ∀ u : SortedId, u.counterAndVariant = 2 ^ 15 + u.counter := fun _ => rfl
  have hcounter := v.counter.isLt
  have hcounter' := w.counter.isLt
  have hnode := v.node.isLt
  have hnode' := w.node.isLt
  rw [hvariant] at hv hw
  unfold key
  rw [Prod.Lex.toLex_le_toLex, Prod.Lex.toLex_le_toLex]
  omega

/-- The example of the specification: `1EC9414C-232A-6B00-B3C8-9F6BDECED846`. -/
example : toNat ⟨0x1EC9414C232AB00, 0x33C8, 0x9F6BDECED846⟩ =
    0x1EC9414C232A6B00B3C89F6BDECED846 := by decide

end SortedId

end Laqista.Lib
