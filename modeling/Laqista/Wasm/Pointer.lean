import Mathlib.Order.Interval.Set.Disjoint
import Mathlib.Tactic.Common
import Mathlib.Algebra.Order.Ring.Int
import Mathlib.Order.CompletePartialOrder

/-! # Pointers into the memory of a guest

A `WasmPointer` is a region of a guest's memory by its first address and its length, both of which
are `i32`. The host's own pointer is the area it has used so far: `next` is the first free address,
`consume` takes more of it and `join` adds a region of the guest.

`toInt_join`: past the end of the area, `join` gives the distance of the two ends as the new length,
and not the end of the region. -/

namespace Laqista.Wasm

structure WasmPointer where
  start : Int32
  len : Int32
  deriving DecidableEq, Repr

/-- `host.MemorySlice`. -/
structure MemorySlice where
  start : UInt64
  len : UInt64
  deriving DecidableEq, Repr

namespace WasmPointer

def last (p : WasmPointer) : Int32 := p.start + p.len - 1

def next (p : WasmPointer) : Int32 := p.last + 1

def consume (p : WasmPointer) (consumed : Int32) : Int32 × WasmPointer :=
  let len := p.len + consumed
  (len, { p with len := len })

def join (p other : WasmPointer) : WasmPointer :=
  if p.last ≥ other.last then p else { p with len := other.last - p.last }

/-- `From<i64>`: the address is in the upper half. -/
def ofI64 (value : Int64) : WasmPointer := ⟨(value >>> 32).toInt32, (value &&& 0xffffffff).toInt32⟩

/-- `From<MemorySlice>`. -/
def ofMemorySlice (value : MemorySlice) : WasmPointer :=
  ⟨value.start.toInt64.toInt32, value.len.toInt64.toInt32⟩

/-- The address after the region. -/
def stop (p : WasmPointer) : ℤ := p.start.toInt + p.len.toInt

/-- The addresses of the region. -/
def bytes (p : WasmPointer) : Set ℤ := {a | p.start.toInt ≤ a ∧ a < p.stop}

/-- The region lies in a memory of the given size. -/
structure Within (p : WasmPointer) (size : ℕ) : Prop where
  start : 0 ≤ p.start.toInt
  len : 0 ≤ p.len.toInt
  stop : p.stop ≤ size

end WasmPointer

/-! ### Exact arithmetic -/

theorem toInt_add_exact {a b : Int32} (h : -2 ^ 31 ≤ a.toInt + b.toInt)
    (h' : a.toInt + b.toInt < 2 ^ 31) : (a + b).toInt = a.toInt + b.toInt := by
  rw [Int32.toInt_add]
  apply Int.bmod_eq_of_le
  · omega
  · omega

theorem toInt_sub_exact {a b : Int32} (h : -2 ^ 31 ≤ a.toInt - b.toInt)
    (h' : a.toInt - b.toInt < 2 ^ 31) : (a - b).toInt = a.toInt - b.toInt := by
  rw [Int32.toInt_sub]
  apply Int.bmod_eq_of_le
  · omega
  · omega

theorem toInt_one : (1 : Int32).toInt = 1 := rfl

namespace WasmPointer

variable {p q : WasmPointer} {size : ℕ}

theorem toInt_last (h : p.Within size) (hsize : size < 2 ^ 31) : p.last.toInt = p.stop - 1 := by
  obtain ⟨h1, h2, h3⟩ := h
  unfold stop at h3 ⊢
  have hsum : (p.start + p.len).toInt = p.start.toInt + p.len.toInt :=
    toInt_add_exact (by omega) (by omega)
  unfold last
  rw [toInt_sub_exact (by rw [hsum, toInt_one]; omega) (by rw [hsum, toInt_one]; omega), hsum,
    toInt_one]

theorem toInt_next (h : p.Within size) (hsize : size < 2 ^ 31) : p.next.toInt = p.stop := by
  have hlast := toInt_last h hsize
  obtain ⟨h1, h2, h3⟩ := h
  have hstop : p.stop = p.start.toInt + p.len.toInt := rfl
  unfold next
  rw [toInt_add_exact (by rw [hlast, toInt_one]; omega) (by rw [hlast, toInt_one]; omega), hlast,
    toInt_one]
  omega

/-- **What `join` makes of the length.** -/
theorem toInt_join (hp : p.Within size) (hq : q.Within size) (hsize : size < 2 ^ 31) :
    (p.join q).start = p.start ∧
      (p.join q).len.toInt = if q.stop ≤ p.stop then p.len.toInt else q.stop - p.stop := by
  have hlp := toInt_last hp hsize
  have hlq := toInt_last hq hsize
  have hstop : 0 ≤ p.stop := by
    have := hp.start
    have := hp.len
    unfold stop
    omega
  have hqs := hq.stop
  have hge : p.last ≥ q.last ↔ q.stop ≤ p.stop := by
    rw [ge_iff_le, Int32.le_iff_toInt_le, hlp, hlq]
    omega
  unfold join
  by_cases hle : q.stop ≤ p.stop
  · rw [if_pos (hge.mpr hle), if_pos hle]
    exact ⟨rfl, rfl⟩
  · rw [if_neg (fun h => hle (hge.mp h)), if_neg hle]
    refine ⟨rfl, ?_⟩
    dsimp only
    rw [toInt_sub_exact (by rw [hlp, hlq]; omega) (by rw [hlp, hlq]; omega), hlp, hlq]
    omega

theorem stop_eq_len (h : p.start = 0) : p.stop = p.len.toInt := by
  unfold stop
  rw [h]
  exact zero_add _

theorem disjoint_bytes : Disjoint p.bytes q.bytes ↔
    min p.stop q.stop ≤ max p.start.toInt q.start.toInt := Set.Ico_disjoint_Ico

end WasmPointer

end Laqista.Wasm
