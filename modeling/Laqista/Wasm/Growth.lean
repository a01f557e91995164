import Laqista.Wasm.Exit

/-! # Growing the memory of a guest

Before a write, `growTo` subtracts the room behind the area from the length of the data. It measures
the area from its head, but compares with the size of the whole memory, and it subtracts even where
the room is enough.

`growsEnough_iff`: no subtraction goes below zero and a memory that grows has room for the data
exactly where the data does not fit, or fits to the last byte of an area at address zero, and the
last page that is asked for makes up for the head. -/

namespace Laqista.Wasm.Guest

open Laqista.Lib Laqista.Wasm

/-- A memory of so many pages with an area in use, and the length of data that can be addressed
behind it. -/
structure Growth where
  pages : ℕ
  memory : Memory
  dataLen : UInt32
  pages_le : pages ≤ 65536
  head_le : memory.head.toNat ≤ memory.last.toNat
  last_le : memory.last.toNat ≤ pages * 65536
  addressable : memory.last.toNat + 1 + dataLen.toNat ≤ 2 ^ 32

namespace Growth

variable (g : Growth)

/-- `cap` of `grow_to`. -/
def cap : UInt32 := UInt32.ofNat g.pages * pageSize

/-- `missing` of `grow_to`. -/
def missing : UInt32 := g.dataLen - (g.cap - (g.memory.len + 1))

/-- `to_grow` of `grow_to`. -/
def toGrow : ℕ := (g.missing / pageSize + 1).toNat

/-- The assertion of `grow_to` holds, and none of its subtractions goes below zero. -/
structure Exact : Prop where
  len : g.memory.len ≤ g.cap
  available : (g.memory.len + 1).toNat ≤ g.cap.toNat
  missing : (g.cap - (g.memory.len + 1)).toNat ≤ g.dataLen.toNat

/-- If what is asked for is granted, the data fits behind the area. -/
def Fits : Prop :=
  ∀ (Mem : Type) (_ : GrowingMemory Mem) (mem mem' : Mem), GrowingMemory.pages mem = g.pages →
    g.memory.growTo mem g.dataLen = .ok mem' →
    (0 < g.missing → GrowingMemory.grow mem g.toGrow = some mem') →
    g.memory.last.toNat + 1 + g.dataLen.toNat ≤ LinearMemory.size mem'

structure GrowsEnough : Prop where
  exact : g.Exact
  fits : g.Fits

/-- The bytes that do not fit behind an area of the same length at address zero. -/
def excess : ℕ := g.memory.last.toNat - g.memory.head.toNat + 1 + g.dataLen.toNat - g.pages * 65536

/-- The data does not fit, or only just, and the last page has room for the head. -/
structure Sufficient : Prop where
  pages : g.pages < 65536
  within : g.memory.last.toNat - g.memory.head.toNat < g.pages * 65536
  full : g.pages * 65536 ≤ g.memory.last.toNat - g.memory.head.toNat + 1 + g.dataLen.toNat
  head : (g.excess = 0 ∧ g.memory.head = 0) ∨ (0 < g.excess ∧
    (65536 < g.pages + g.excess / 65536 + 1 ∨ g.memory.head.toNat + g.excess % 65536 ≤ 65536))

variable {g}

theorem len_eq : g.memory.len.toNat = g.memory.last.toNat - g.memory.head.toNat :=
  toNat_sub_of_le g.head_le

theorem cap_eq (h : g.pages < 65536) : g.cap.toNat = g.pages * 65536 := by
  have hpage : pageSize.toNat = 65536 := rfl
  unfold cap
  rw [UInt32.toNat_mul, UInt32.toNat_ofNat', hpage]
  omega

/-- `start` of `grow_to`. -/
theorem start_eq (h : g.pages < 65536) :
    (g.memory.len + 1).toNat = g.memory.last.toNat - g.memory.head.toNat + 1 := by
  have hone : (1 : UInt32).toNat = 1 := rfl
  have hlen := g.len_eq
  have hlast := g.last_le
  rw [toNat_add_of_lt (by omega), hlen, hone]

/-- With all pages, the product wraps around. -/
theorem cap_eq_zero (h : g.pages = 65536) : g.cap = 0 := by
  unfold cap
  rw [h]
  rfl

/-- **The subtractions are exact where the data does not fit**, or fits to the last byte. -/
theorem exact_iff : g.Exact ↔ g.pages < 65536 ∧
    g.memory.last.toNat - g.memory.head.toNat < g.pages * 65536 ∧
    g.pages * 65536 ≤ g.memory.last.toNat - g.memory.head.toNat + 1 + g.dataLen.toNat := by
  have hlen := g.len_eq
  constructor
  · rintro ⟨hle, havail, hmissing⟩
    have hpages : g.pages < 65536 := by
      by_contra hfull
      have hcap := cap_eq_zero (show g.pages = 65536 by have := g.pages_le; omega)
      rw [hcap] at hle havail
      rw [UInt32.le_zero_iff.mp hle] at havail
      exact absurd havail (by decide)
    have hcap := cap_eq hpages
    have hstart := start_eq hpages
    have hsub := toNat_sub_of_le havail
    omega
  · rintro ⟨hpages, hwithin, hfull⟩
    have hcap := cap_eq hpages
    have hstart := start_eq hpages
    have havail : (g.memory.len + 1).toNat ≤ g.cap.toNat := by omega
    have hsub := toNat_sub_of_le havail
    exact ⟨UInt32.le_iff_toNat_le.mpr (by omega), havail, by omega⟩

/-- What is missing is what does not fit behind an area at address zero. -/
theorem missing_eq (h : g.Exact) : g.missing.toNat = g.excess := by
  obtain ⟨hpages, hwithin, hfull⟩ := exact_iff.mp h
  have hcap := cap_eq hpages
  have hstart := start_eq hpages
  have hsub := toNat_sub_of_le h.available
  have hmissing := toNat_sub_of_le h.missing
  unfold missing excess
  omega

theorem toGrow_eq (h : g.Exact) : g.toGrow = g.excess / 65536 + 1 := by
  have hone : (1 : UInt32).toNat = 1 := rfl
  have hdiv : (g.missing / pageSize).toNat = g.missing.toNat / 65536 := UInt32.toNat_div _ _
  have hlt := g.missing.toNat_lt
  unfold toGrow
  rw [toNat_add_of_lt (by omega), hdiv, missing_eq h, hone]

variable {Mem : Type} [GrowingMemory Mem] {mem mem' : Mem}

theorem growTo_of_exact (h : g.Exact) (hmem : GrowingMemory.pages mem = g.pages) :
    g.memory.growTo mem g.dataLen =
      .ok (if 0 < g.missing then (GrowingMemory.grow mem g.toGrow).getD mem else mem) := by
  have hlen : g.memory.len ≤ UInt32.ofNat (GrowingMemory.pages mem) * pageSize := by
    rw [hmem]
    exact h.len
  unfold Memory.growTo
  dsimp only
  rw [if_pos hlen, hmem]
  show (if 0 < g.missing then
    Except.ok ((GrowingMemory.grow mem g.toGrow).getD mem) else Except.ok mem) = _
  split_ifs
  · rfl
  · rfl

theorem missing_pos (h : g.Exact) : 0 < g.missing ↔ g.excess ≠ 0 := by
  rw [UInt32.lt_iff_toNat_lt, missing_eq h]
  exact Nat.pos_iff_ne_zero

/-- Where nothing is missing, the memory stays. -/
theorem growTo_of_excess_zero (h : g.Exact) (hmem : GrowingMemory.pages mem = g.pages)
    (hexcess : g.excess = 0) : g.memory.growTo mem g.dataLen = .ok mem := by
  rw [growTo_of_exact h hmem, if_neg (by rw [missing_pos h]; omega)]

/-- A memory that is granted what is missing has as many more pages. -/
theorem growTo_of_grow (h : g.Exact) (hmem : GrowingMemory.pages mem = g.pages)
    (hexcess : g.excess ≠ 0) (hgrow : GrowingMemory.grow mem g.toGrow = some mem') :
    g.memory.growTo mem g.dataLen = .ok mem' ∧
      GrowingMemory.pages mem' = g.pages + (g.excess / 65536 + 1) ∧
      GrowingMemory.pages mem' ≤ 65536 := by
  obtain ⟨hpages, hmax⟩ := GrowingMemory.grow_le _ _ _ hgrow
  rw [growTo_of_exact h hmem, if_pos ((missing_pos h).mpr hexcess), hgrow]
  rw [hmem, toGrow_eq h] at hpages
  exact ⟨rfl, hpages, hmax⟩

/-- **The data fits behind the area, if the last page that is asked for has room for the head.** -/
theorem fits_iff (h : g.Exact) : g.Fits ↔ (g.excess = 0 ∧ g.memory.head = 0) ∨ (0 < g.excess ∧
    (65536 < g.pages + g.excess / 65536 + 1 ∨ g.memory.head.toNat + g.excess % 65536 ≤ 65536)) := by
  obtain ⟨hpages, hwithin, hfull⟩ := exact_iff.mp h
  have hhead := g.head_le
  have hzero : g.memory.head = 0 ↔ g.memory.head.toNat = 0 := UInt32.toNat_inj.symm
  have hexcess : g.excess = g.memory.last.toNat - g.memory.head.toNat + 1 + g.dataLen.toNat -
      g.pages * 65536 := rfl
  rw [hzero]
  constructor
  · intro hfits
    by_cases h0 : g.excess = 0
    · have hgrow : g.memory.growTo (⟨g.pages, fun _ => 0⟩ : Pages) g.dataLen =
          .ok ⟨g.pages, fun _ => 0⟩ := growTo_of_excess_zero h rfl h0
      have hsize := hfits Pages pagesMemory _ _ rfl hgrow
        fun hpos => absurd h0 ((missing_pos h).mp hpos)
      have hpagesSize : LinearMemory.size (⟨g.pages, fun _ => 0⟩ : Pages) = g.pages * 65536 := rfl
      omega
    · by_cases hlimit : 65536 < g.pages + g.excess / 65536 + 1
      · exact .inr ⟨by omega, .inl hlimit⟩
      · have hgrant : GrowingMemory.grow (⟨g.pages, fun _ => 0⟩ : Pages) g.toGrow =
            some ⟨g.pages + g.toGrow, fun _ => 0⟩ := if_pos (by
          show g.pages + g.toGrow ≤ 65536
          rw [toGrow_eq h]
          omega)
        obtain ⟨hgrow, hcount, -⟩ := growTo_of_grow h rfl h0 hgrant
        have hsize := hfits Pages pagesMemory _ _ rfl hgrow fun _ => hgrant
        rw [GrowingMemory.size_pages, hcount] at hsize
        exact .inr ⟨by omega, .inr (by omega)⟩
  · intro hcond Mem _ mem mem' hmem hgrow hgranted
    by_cases h0 : g.excess = 0
    · rw [growTo_of_excess_zero h hmem h0] at hgrow
      obtain rfl := Except.ok.inj hgrow
      rw [GrowingMemory.size_pages, hmem]
      omega
    · obtain ⟨-, hcount, hmax⟩ :=
        growTo_of_grow h hmem h0 (hgranted ((missing_pos h).mpr h0))
      rw [GrowingMemory.size_pages]
      omega

end Growth

/-- **The guest grows its memory enough exactly where** the subtractions are exact and the last page
makes up for the head. -/
theorem growsEnough_iff (g : Growth) : g.GrowsEnough ↔ g.Sufficient := by
  constructor
  · rintro ⟨hexact, hfits⟩
    obtain ⟨hpages, hwithin, hfull⟩ := Growth.exact_iff.mp hexact
    exact ⟨hpages, hwithin, hfull, (Growth.fits_iff hexact).mp hfits⟩
  · rintro ⟨hpages, hwithin, hfull, hhead⟩
    have hexact := Growth.exact_iff.mpr ⟨hpages, hwithin, hfull⟩
    exact ⟨hexact, (Growth.fits_iff hexact).mpr hhead⟩

/-- Ten bytes behind a hundred, in a memory of the size that the host gives. -/
def ordinary : Growth where
  pages := 21
  memory := ⟨0, 100⟩
  dataLen := 10
  pages_le := by decide
  head_le := by decide
  last_le := by decide
  addressable := by decide

/-- An area at the end of a page, and data that needs another one and a part. -/
def farHead : Growth where
  pages := 1
  memory := ⟨60000, 65000⟩
  dataLen := 70535
  pages_le := by decide
  head_le := by decide
  last_le := by decide
  addressable := by decide

/-- The room is subtracted from less, and the head is forgotten. -/
theorem not_growsEnough : ¬ ordinary.Exact ∧ farHead.Exact ∧ ¬ farHead.Fits := by
  have hfar : farHead.Exact := Growth.exact_iff.mpr (by decide)
  refine ⟨fun h => ?_, hfar, fun h => ?_⟩
  · exact absurd (Growth.exact_iff.mp h).2.2 (by decide)
  · exact absurd ((Growth.fits_iff hfar).mp h) (by decide)

end Laqista.Wasm.Guest
