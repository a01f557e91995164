import Laqista.Wasm.Host

/-! # The guest side of the memory

A guest has its linear memory and a `Memory`, the area from the first byte of its input to the last
byte in use. It writes behind the area (`writeBytes`) and hands slices to the host in two encodings:
packed into an `i64` (`sliceToI64`), and as a `MemorySlice` inside a message (`wrapMemslice`).

Pointers and sizes of the guest are 32 bits wide, and its arithmetic wraps, as in the release build
that the host's benches load. On the host both encodings become `i32`s.

* `ofI64_sliceToI64`, `ofMemorySlice_wrapMemslice`: both encodings decode to the same `WasmPointer`.
* `readsAs_iff`: the host reads at the guest's address and as many bytes as the slice has exactly
  when both are below 2^31. -/

namespace Laqista.Wasm.Guest

open Laqista.Lib Laqista.Wasm

/-- `PAGE_SIZE`. -/
def pageSize : UInt32 := 65536

/-- The memory of a guest: it can grow by pages, and what was written is read back. -/
class GrowingMemory (Mem : Type) extends LinearMemory Mem where
  /-- `memory.size`. -/
  pages : Mem → ℕ
  /-- `memory.grow`, which may be refused. -/
  grow : Mem → ℕ → Option Mem
  size_pages : ∀ m, size m = pages m * 65536
  /-- There are at most 65536 pages. -/
  grow_le : ∀ m n m', grow m n = some m' → pages m' = pages m + n ∧ pages m' ≤ 65536
  read_back : ∀ m off bs m', write m off bs = .ok m' → read m' off bs.length = .ok bs

/-- `&[u8]`, by its address and length. -/
structure Slice where
  ptr : UInt32
  len : UInt32
  deriving DecidableEq, Repr

/-- `Memory`: the area in use, from `head` to `last`. -/
structure Memory where
  head : UInt32
  last : UInt32
  deriving DecidableEq, Repr

namespace Memory

def withUsedLen (ptr : UInt32) (len : Int64) : Memory := ⟨ptr, ptr + len.toUInt64.toUInt32⟩

def len (m : Memory) : UInt32 := m.last - m.head

variable {Mem : Type} [GrowingMemory Mem]

/-- `grow_to`. The result of `memory.grow` is not looked at. -/
def growTo (m : Memory) (mem : Mem) (dataLen : UInt32) : Except Panic Mem :=
  let currentSize := UInt32.ofNat (GrowingMemory.pages mem)
  let cap := currentSize * pageSize
  if m.len ≤ cap then
    let start := m.len + 1
    let available := cap - start
    let missing := dataLen - available
    if 0 < missing then
      .ok ((GrowingMemory.grow mem (missing / pageSize + 1).toNat).getD mem)
    else .ok mem
  else .error ⟨"assertion failed: len <= cap"⟩

/-- `write_bytes`. A copy that leaves the memory traps. -/
def writeBytes (m : Memory) (mem : Mem) (data : List UInt8) :
    Except Panic (Slice × Memory × Mem) := do
  let len := UInt32.ofNat data.length
  let mem ← growTo m mem len
  let start := m.last + 1
  match LinearMemory.write mem start.toUInt64 data with
  | .ok mem => return (⟨start, len⟩, { m with last := m.last + len }, mem)
  | .error _ => .error ⟨"out of bounds memory access"⟩

end Memory

/-- `setup`. -/
def setup (ptr len : Int32) : Memory := .withUsedLen ptr.toUInt32 len.toInt64

/-- `slice_to_i64`. -/
def sliceToI64 (s : Slice) : Int64 :=
  let ptr := s.ptr.toUInt64.toInt64 <<< 32
  let len := s.len.toUInt64.toInt64
  ptr ||| len

/-- `wrap_memslice`. -/
def wrapMemslice (slic : Slice) : Option MemorySlice :=
  some ⟨slic.ptr.toUInt64, slic.len.toUInt64⟩

/-! ### The encodings on the host -/

theorem high_pack (p n : BitVec 32) :
    ((p.setWidth 64 <<< 32 ||| n.setWidth 64).sshiftRight 32).setWidth 32 = p := by
  apply BitVec.eq_of_getLsbD_eq
  intro i hi
  have h1 : 32 + i < 64 := by omega
  have h2 : i < 64 := by omega
  rw [BitVec.getLsbD_setWidth, BitVec.getLsbD_sshiftRight]
  simp [hi, h1, h2]

theorem low_pack (p n : BitVec 32) :
    ((p.setWidth 64 <<< 32 ||| n.setWidth 64) &&& 0xffffffff#64).setWidth 32 = n := by
  have hmask : (0xffffffff#64).setWidth 32 = BitVec.allOnes 32 := rfl
  rw [BitVec.setWidth_and, hmask, BitVec.and_allOnes]
  apply BitVec.eq_of_getLsbD_eq
  intro i hi
  simp [hi]

theorem toBitVec_sliceToI64 (s : Slice) :
    (sliceToI64 s).toBitVec = s.ptr.toBitVec.setWidth 64 <<< 32 ||| s.len.toBitVec.setWidth 64 := by
  simp [sliceToI64]

/-- **The packed encoding** decodes to the address and the length. -/
theorem ofI64_sliceToI64 (s : Slice) :
    WasmPointer.ofI64 (sliceToI64 s) = ⟨s.ptr.toInt32, s.len.toInt32⟩ := by
  have hnarrow : ∀ x : BitVec 64, x.signExtend 32 = x.setWidth 32 := fun x =>
    BitVec.signExtend_eq_setWidth_of_le x (by omega)
  have hstart : ((sliceToI64 s) >>> 32).toInt32.toBitVec = s.ptr.toBitVec := by
    rw [Int64.toBitVec_toInt32, hnarrow]
    simp only [Int64.toBitVec_shiftRight, toBitVec_sliceToI64]
    exact high_pack _ _
  have hlen : ((sliceToI64 s) &&& 0xffffffff).toInt32.toBitVec = s.len.toBitVec := by
    rw [Int64.toBitVec_toInt32, hnarrow, Int64.toBitVec_and, toBitVec_sliceToI64]
    exact low_pack _ _
  unfold WasmPointer.ofI64
  rw [WasmPointer.mk.injEq]
  exact ⟨Int32.toBitVec_inj.mp hstart, Int32.toBitVec_inj.mp hlen⟩

/-- So does the other one. -/
theorem ofMemorySlice_wrapMemslice {s : Slice} {slice : MemorySlice}
    (h : wrapMemslice s = some slice) :
    WasmPointer.ofMemorySlice slice = ⟨s.ptr.toInt32, s.len.toInt32⟩ := by
  obtain rfl := Option.some.inj h
  have hnarrow : ∀ x : UInt32, x.toUInt64.toInt64.toInt32 = x.toInt32 := by
    intro x
    apply Int32.toBitVec_inj.mp
    rw [Int64.toBitVec_toInt32, BitVec.signExtend_eq_setWidth_of_le _ (by omega)]
    show (x.toBitVec.setWidth 64).setWidth 32 = x.toBitVec
    simp
  unfold WasmPointer.ofMemorySlice
  rw [hnarrow, hnarrow]

/-- The host's pointer reads `n` bytes at the address `p`. -/
def ReadsAs (ptr : WasmPointer) (p n : ℕ) : Prop :=
  (offset ptr.start).toNat = p ∧ bufferLength ptr.len = .ok n

/-- The address and the length as signed numbers. -/
theorem toInt_toInt32 (x : UInt32) :
    x.toInt32.toInt = if x.toNat < 2 ^ 31 then (x.toNat : ℤ) else x.toNat - 2 ^ 32 := by
  show x.toBitVec.toInt = _
  rw [BitVec.toInt_eq_toNat_cond]
  have hx : x.toBitVec.toNat = x.toNat := rfl
  rw [hx]
  by_cases h : x.toNat < 2 ^ 31
  · rw [if_pos h, if_pos (by omega)]
  · rw [if_neg h, if_neg (by omega)]
    rfl

theorem offset_iff (x : UInt32) : (offset x.toInt32).toNat = x.toNat ↔ x.toNat < 2 ^ 31 := by
  have hint := toInt_toInt32 x
  have hx : x.toNat < 2 ^ 32 := x.toNat_lt
  by_cases h : x.toNat < 2 ^ 31
  · rw [if_pos h] at hint
    have hoff := offset_toNat x.toInt32 (by omega)
    refine iff_of_true ?_ h
    omega
  · rw [if_neg h] at hint
    have hoff := offset_of_neg x.toInt32 (by omega)
    refine iff_of_false ?_ h
    omega

theorem bufferLength_iff (x : UInt32) :
    bufferLength x.toInt32 = .ok x.toNat ↔ x.toNat < 2 ^ 31 := by
  have hint := toInt_toInt32 x
  have hx : x.toNat < 2 ^ 32 := x.toNat_lt
  unfold bufferLength
  by_cases h : x.toNat < 2 ^ 31
  · rw [if_pos h] at hint
    have h0 : (0 : Int32) ≤ x.toInt32 := by
      rw [Int32.le_iff_toInt_le, hint]
      exact Int.natCast_nonneg _
    have hcast := Int32.cast_toNatClampNeg _ h0
    rw [if_pos h0]
    refine iff_of_true (congrArg Except.ok ?_) h
    omega
  · rw [if_neg h] at hint
    have h0 : ¬ (0 : Int32) ≤ x.toInt32 := by
      have hz : (0 : Int32).toInt = 0 := rfl
      rw [Int32.le_iff_toInt_le, hint, hz]
      omega
    rw [if_neg h0]
    exact iff_of_false (by simp) h

/-- **Both encodings decode to the same pointer, and the host reads the slice exactly when its
address and its length are below 2^31.** -/
theorem readsAs_iff (s : Slice) :
    (∀ slice, wrapMemslice s = some slice →
      WasmPointer.ofMemorySlice slice = WasmPointer.ofI64 (sliceToI64 s) ∧
      ReadsAs (.ofI64 (sliceToI64 s)) s.ptr.toNat s.len.toNat ∧
      ReadsAs (.ofMemorySlice slice) s.ptr.toNat s.len.toNat) ↔
    s.ptr.toNat < 2 ^ 31 ∧ s.len.toNat < 2 ^ 31 := by
  have hreads : ReadsAs ⟨s.ptr.toInt32, s.len.toInt32⟩ s.ptr.toNat s.len.toNat ↔
      s.ptr.toNat < 2 ^ 31 ∧ s.len.toNat < 2 ^ 31 := by
    unfold ReadsAs
    rw [offset_iff, bufferLength_iff]
  rw [← hreads, ofI64_sliceToI64]
  constructor
  · intro h
    exact (h _ rfl).2.1
  · intro h slice hs
    rw [ofMemorySlice_wrapMemslice hs]
    exact ⟨rfl, h, h⟩

/-- A slice of one byte in the middle of the address space is not read. -/
theorem topHalf_misread : ¬ ∀ s : Slice, s.ptr.toNat + s.len.toNat ≤ 2 ^ 32 →
    ∀ slice, wrapMemslice s = some slice →
      WasmPointer.ofMemorySlice slice = WasmPointer.ofI64 (sliceToI64 s) ∧
      ReadsAs (.ofI64 (sliceToI64 s)) s.ptr.toNat s.len.toNat ∧
      ReadsAs (.ofMemorySlice slice) s.ptr.toNat s.len.toNat := by
  intro h
  have hreads := (h ⟨0x80000000, 1⟩ (by decide) _ rfl).2.1.1
  have hoff : (offset (WasmPointer.ofI64 (sliceToI64 ⟨0x80000000, 1⟩)).start).toNat =
      0xffffffff80000000 := by decide
  rw [hoff] at hreads
  exact absurd hreads (by decide)

end Laqista.Wasm.Guest
