import Laqista.Crates
import Laqista.Lib.Fallible
import Laqista.Lib.Runs
import Laqista.Wasm.Pointer

/-! # The host side of the memory of a guest

A `WasmRunner` has the memory of its guest and the pointer to the area that the host has used. It
writes behind that area (`writeBytes`) and reads regions that the guest has named (`readBytes`),
which then join the area. A session is a sequence of successful writes and reads between which the
guest does with its memory what it likes, with all regions the two sides have exchanged.

* `nextFresh_always_iff`: throughout a session, whatever is written next is disjoint from all
  regions exchanged before, exactly when every read is of a region inside the used area or finds
  that area empty (or is of an empty region behind all others).
* `exchanged_survives`: then a write changes no byte that was exchanged.
* `call_run`: a call of the guest, also one that fails, is such a sequence. -/

namespace Laqista.Wasm

open Laqista.Lib Laqista.Lib.Runs

/-- `wasmer::MemoryAccessError`. -/
inductive MemoryAccessError where
  | heapOutOfBounds | overflow | nonUtf8String
  deriving DecidableEq, Repr

/-- The linear memory of the wasmer crate. Reading and writing succeed exactly within the memory. -/
class LinearMemory (Mem : Type) where
  /-- A memory with the given number of pages. -/
  new : ℕ → Mem
  size : Mem → ℕ
  read : Mem → UInt64 → ℕ → Except MemoryAccessError (List UInt8)
  write : Mem → UInt64 → List UInt8 → Except MemoryAccessError Mem
  size_new : ∀ pages, size (new pages) = pages * 65536
  read_ok : ∀ m off n, (∃ bs, read m off n = .ok bs) ↔ off.toNat + n ≤ size m
  write_ok : ∀ m off bs, (∃ m', write m off bs = .ok m') ↔ off.toNat + bs.length ≤ size m
  size_write : ∀ m off bs m', write m off bs = .ok m' → size m' = size m
  /-- Bytes outside of the written region stay. -/
  read_write : ∀ m off bs m' off' n, write m off bs = .ok m' →
    off'.toNat + n ≤ off.toNat ∨ off.toNat + bs.length ≤ off'.toNat → read m' off' n = read m off' n

structure WasmRunner (Mem : Type) where
  memory : Mem
  ptr : WasmPointer

/-- `i32 as u64`: the sign is extended. -/
def offset (start : Int32) : UInt64 := start.toInt64.toUInt64

/-- The length of `vec![0; len as usize]`. -/
def bufferLength (len : Int32) : Except Panic ℕ :=
  if 0 ≤ len then .ok len.toNatClampNeg else .error ⟨"capacity overflow"⟩

namespace WasmRunner

variable {Mem : Type} [LinearMemory Mem]

/-- The memory and the pointer of `compile`. -/
def compile : WasmRunner Mem := ⟨LinearMemory.new 21, ⟨0, 0⟩⟩

def writeBytes (r : WasmRunner Mem) (bytes : List UInt8) :
    Except MemoryAccessError (WasmPointer × WasmRunner Mem) := do
  let start := r.ptr.next
  let len := bytes.length
  let memory ← LinearMemory.write r.memory (offset start) bytes
  let ptr := (r.ptr.consume (Int32.ofNat len)).2
  return (⟨start, Int32.ofNat len⟩, ⟨memory, ptr⟩)

def readBytes (r : WasmRunner Mem) (ptr : WasmPointer) :
    Except Panic (Except MemoryAccessError (List UInt8 × WasmRunner Mem)) := do
  let n ← bufferLength ptr.len
  return do
    let buffer ← LinearMemory.read r.memory (offset ptr.start) n
    return (buffer, { r with ptr := r.ptr.join ptr })

end WasmRunner

/-! ### Sessions -/

/-- A runner with the regions that its successful writes have returned and its successful reads have
been passed. -/
structure Session (Mem : Type) where
  runner : WasmRunner Mem
  regions : List WasmPointer

inductive HostStep (Mem : Type) where
  | write (bytes : List UInt8)
  | read (ptr : WasmPointer)
  /-- The guest leaves its memory as it is given here. -/
  | guest (memory : Mem)

namespace Session

variable {Mem : Type} [LinearMemory Mem]

/-- One successful call, or a run of the guest, which can only grow its memory and stays below 2^31
bytes. -/
def step (s : Session Mem) : HostStep Mem → Option (Session Mem)
  | .write bytes =>
    match s.runner.writeBytes bytes with
    | .ok (ptr, runner) => some ⟨runner, ptr :: s.regions⟩
    | .error _ => none
  | .read ptr =>
    match s.runner.readBytes ptr with
    | .ok (.ok (_, runner)) => some ⟨runner, ptr :: s.regions⟩
    | _ => none
  | .guest memory =>
    if LinearMemory.size s.runner.memory ≤ LinearMemory.size memory ∧
        LinearMemory.size memory < 2 ^ 31 then
      some ⟨{ s.runner with memory := memory }, s.regions⟩
    else none

def compiled : Session Mem := ⟨WasmRunner.compile, []⟩

/-- Whatever is written next is disjoint from all regions exchanged before. -/
def NextFresh (s : Session Mem) : Prop :=
  ∀ bytes ptr runner, s.runner.writeBytes bytes = .ok (ptr, runner) →
    ∀ q ∈ s.regions, Disjoint ptr.bytes q.bytes

/-- The used area, or a region that it cannot miss: what is read ends inside the used area, or there
is no used area yet, or nothing is read so far behind the area that the area still covers the rest.
-/
def Covered (s : Session Mem) : HostStep Mem → Prop
  | .read ptr => ptr.stop ≤ s.runner.ptr.stop ∨ s.runner.ptr.stop = 0 ∨
      (ptr.len = 0 ∧ ∀ q ∈ s.regions, 0 < q.len.toInt → q.stop + s.runner.ptr.stop ≤ ptr.stop)
  | _ => True

/-- The used area starts at address zero, and all regions are in the memory. -/
structure Sound (s : Session Mem) : Prop where
  start : s.runner.ptr.start = 0
  within : s.runner.ptr.Within (LinearMemory.size s.runner.memory)
  size : LinearMemory.size s.runner.memory < 2 ^ 31
  regions : ∀ q ∈ s.regions, q.Within (LinearMemory.size s.runner.memory)

/-- No byte that was exchanged is behind the used area. -/
def Contains (s : Session Mem) : Prop :=
  ∀ q ∈ s.regions, 0 < q.len.toInt → q.stop ≤ s.runner.ptr.stop

end Session

/-! ### What a write and a read do -/

theorem offset_toNat (start : Int32) (h : 0 ≤ start.toInt) :
    ((offset start).toNat : ℤ) = start.toInt := by
  have h0 : (0 : Int64) ≤ start.toInt64 := by
    rw [Int64.le_iff_toInt_le, Int32.toInt_toInt64]
    exact h
  unfold offset
  rw [Int64.toNat_toUInt64_of_le h0, Int64.cast_toNatClampNeg _ h0, Int32.toInt_toInt64]

/-- A negative address is behind every memory. -/
theorem offset_of_neg (start : Int32) (h : start.toInt < 0) : 2 ^ 63 ≤ (offset start).toNat := by
  have hint : start.toInt64.toBitVec.toInt = start.toInt := Int32.toInt_toInt64 start
  have hnat : (offset start).toNat = start.toInt64.toBitVec.toNat := rfl
  have hcond := BitVec.toInt_eq_toNat_cond start.toInt64.toBitVec
  have hlt := start.toInt64.toBitVec.isLt
  rw [hint] at hcond
  rw [hnat]
  split_ifs at hcond
  · omega
  · omega

variable {Mem : Type} [LinearMemory Mem]

/-- The pointer of a sound session ends where its length says. -/
theorem Session.Sound.stop_eq {s : Session Mem} (hs : s.Sound) :
    s.runner.ptr.stop = s.runner.ptr.len.toInt := WasmPointer.stop_eq_len hs.start

/-- **A write** goes to the end of the used area, which grows by it. -/
theorem writeBytes_ok {s : Session Mem} (hs : s.Sound) {bytes : List UInt8} {ptr : WasmPointer}
    {runner : WasmRunner Mem} (h : s.runner.writeBytes bytes = .ok (ptr, runner)) :
    ptr.start.toInt = s.runner.ptr.stop ∧ ptr.len.toInt = bytes.length ∧
      LinearMemory.write s.runner.memory (offset ptr.start) bytes = .ok runner.memory ∧
      ptr.Within (LinearMemory.size s.runner.memory) ∧
      runner.ptr.start = 0 ∧ runner.ptr.stop = ptr.stop := by
  obtain ⟨memory, hw, h⟩ := bind_eq_ok.mp h
  cases h
  have hnext := WasmPointer.toInt_next hs.within hs.size
  have hstop := hs.stop_eq
  have hlen := hs.within.len
  have hsize := hs.size
  have hfit := (LinearMemory.write_ok _ _ _).mp ⟨memory, hw⟩
  have hoff := offset_toNat s.runner.ptr.next (by omega)
  have hn : (Int32.ofNat bytes.length).toInt = bytes.length :=
    Int32.toInt_ofNat_of_lt (by omega)
  have hsum : (s.runner.ptr.len + Int32.ofNat bytes.length).toInt =
      s.runner.ptr.len.toInt + bytes.length := by
    rw [toInt_add_exact (by rw [hn]; omega) (by rw [hn]; omega), hn]
  refine ⟨hnext, hn, hw, ⟨by dsimp only; omega, by dsimp only; omega, ?_⟩, hs.start, ?_⟩
  · unfold WasmPointer.stop
    dsimp only
    omega
  · have h0 : (0 : Int32).toInt = 0 := rfl
    unfold WasmPointer.stop WasmPointer.consume
    dsimp only
    rw [hs.start, hsum, hn, h0]
    omega

/-- A write succeeds if there is room behind the used area. -/
theorem writeBytes_isOk {s : Session Mem} (hs : s.Sound) (bytes : List UInt8)
    (h : s.runner.ptr.stop + bytes.length ≤ LinearMemory.size s.runner.memory) :
    ∃ r, s.runner.writeBytes bytes = .ok r := by
  have hnext := WasmPointer.toInt_next hs.within hs.size
  have hstop := hs.stop_eq
  have hlen := hs.within.len
  have hoff := offset_toNat s.runner.ptr.next (by omega)
  obtain ⟨memory, hm⟩ :=
    (LinearMemory.write_ok s.runner.memory (offset s.runner.ptr.next) bytes).mpr (by omega)
  exact ⟨_, bind_eq_ok.mpr ⟨memory, hm, rfl⟩⟩

/-- **A read** is of a region in the memory, which joins the used area. -/
theorem readBytes_ok {s : Session Mem} (hs : s.Sound) {ptr : WasmPointer} {buffer : List UInt8}
    {runner : WasmRunner Mem} (h : s.runner.readBytes ptr = .ok (.ok (buffer, runner))) :
    ptr.Within (LinearMemory.size s.runner.memory) ∧
      LinearMemory.read s.runner.memory (offset ptr.start) ptr.len.toNatClampNeg = .ok buffer ∧
      runner = { s.runner with ptr := s.runner.ptr.join ptr } := by
  obtain ⟨n, hn, h⟩ := bind_eq_ok.mp h
  obtain ⟨bs, hr, h⟩ := bind_eq_ok.mp (Except.ok.inj h)
  cases h
  unfold bufferLength at hn
  split_ifs at hn with h0
  obtain rfl := Except.ok.inj hn
  have hlen : (ptr.len.toNatClampNeg : ℤ) = ptr.len.toInt := Int32.cast_toNatClampNeg _ h0
  have hfit := (LinearMemory.read_ok _ _ _).mp ⟨_, hr⟩
  have hsize := hs.size
  have hstart : 0 ≤ ptr.start.toInt := by
    by_contra hneg
    have := offset_of_neg ptr.start (by omega)
    omega
  have hoff := offset_toNat _ hstart
  refine ⟨⟨hstart, by omega, ?_⟩, hr, rfl⟩
  unfold WasmPointer.stop
  omega

/-- A region that ends behind a used area leaves the distance of the two ends. -/
theorem stop_readBytes {s : Session Mem} (hs : s.Sound) {ptr : WasmPointer} {buffer : List UInt8}
    {runner : WasmRunner Mem} (h : s.runner.readBytes ptr = .ok (.ok (buffer, runner))) :
    runner.ptr.start = 0 ∧ runner.ptr.stop =
      if ptr.stop ≤ s.runner.ptr.stop then s.runner.ptr.stop
      else ptr.stop - s.runner.ptr.stop := by
  obtain ⟨hptr, -, rfl⟩ := readBytes_ok hs h
  obtain ⟨hstart, hlen⟩ := WasmPointer.toInt_join hs.within hptr hs.size
  have hstop := WasmPointer.stop_eq_len (hstart.trans hs.start)
  dsimp only
  rw [hstart, hstop, hlen, ← hs.stop_eq]
  exact ⟨hs.start, rfl⟩

namespace Session

/-- **What a step of a session can do.** -/
theorem step_cases {s s' : Session Mem} {a : HostStep Mem} (h : s.step a = some s') :
    (∃ bytes ptr, a = .write bytes ∧ s.runner.writeBytes bytes = .ok (ptr, s'.runner) ∧
      s'.regions = ptr :: s.regions) ∨
    (∃ ptr buffer, a = .read ptr ∧ s.runner.readBytes ptr = .ok (.ok (buffer, s'.runner)) ∧
      s'.regions = ptr :: s.regions) ∨
    (∃ memory, a = .guest memory ∧
      LinearMemory.size s.runner.memory ≤ LinearMemory.size memory ∧
      LinearMemory.size memory < 2 ^ 31 ∧
      s' = ⟨{ s.runner with memory := memory }, s.regions⟩) := by
  rcases a with bytes | ptr | memory
  · left
    simp only [step] at h
    split at h
    · next ptr runner hw =>
      obtain rfl := Option.some.inj h
      exact ⟨bytes, ptr, rfl, hw, rfl⟩
    · simp at h
  · right; left
    simp only [step] at h
    split at h
    · next buffer runner hr =>
      obtain rfl := Option.some.inj h
      exact ⟨ptr, buffer, rfl, hr, rfl⟩
    · simp at h
  · right; right
    simp only [step] at h
    split_ifs at h with hm
    obtain rfl := Option.some.inj h
    exact ⟨memory, rfl, hm.1, hm.2, rfl⟩

theorem sound_compiled : (compiled : Session Mem).Sound := by
  have hsize : LinearMemory.size (compiled : Session Mem).runner.memory = 21 * 65536 :=
    LinearMemory.size_new 21
  have h0 : (0 : Int32).toInt = 0 := rfl
  refine ⟨rfl, ⟨le_of_eq h0.symm, le_of_eq h0.symm, ?_⟩, ?_, ?_⟩
  · exact (zero_add (0 : ℤ)).le.trans (Int.natCast_nonneg _)
  · omega
  · intro q hq
    cases hq

theorem sound_step {s s' : Session Mem} {a : HostStep Mem} (hs : s.Sound)
    (h : s.step a = some s') : s'.Sound := by
  rcases step_cases h with ⟨bytes, ptr, rfl, hw, hreg⟩ | ⟨ptr, buffer, rfl, hr, hreg⟩ |
    ⟨memory, rfl, hle, hlt, rfl⟩
  · obtain ⟨hstart, hlen, hmem, hptr, hs0, hstop⟩ := writeBytes_ok hs hw
    have hsize := LinearMemory.size_write _ _ _ _ hmem
    have hst := WasmPointer.stop_eq_len hs0
    have hp := hptr.stop
    have hl : ptr.stop = ptr.start.toInt + ptr.len.toInt := rfl
    have hu := hs.stop_eq
    have hul := hs.within.len
    refine ⟨hs0, ⟨by rw [hs0]; exact le_rfl, by omega, by omega⟩, by rw [hsize]; exact hs.size, ?_⟩
    intro q hq
    rw [hreg] at hq
    rw [hsize]
    rcases List.mem_cons.mp hq with rfl | hq
    · exact hptr
    · exact hs.regions q hq
  · obtain ⟨hptr, -, hrun⟩ := readBytes_ok hs hr
    obtain ⟨hs0, hstop⟩ := stop_readBytes hs hr
    have hst := WasmPointer.stop_eq_len hs0
    have hmem : s'.runner.memory = s.runner.memory := by rw [hrun]
    have hp := hptr.stop
    have hu := hs.stop_eq
    have hul := hs.within.len
    have hus := hs.within.stop
    have hbound : 0 ≤ s'.runner.ptr.stop ∧
        s'.runner.ptr.stop ≤ LinearMemory.size s.runner.memory := by
      rw [hstop]
      split_ifs
      · omega
      · omega
    refine ⟨hs0, ⟨by rw [hs0]; exact le_rfl, by omega, by rw [hmem]; exact hbound.2⟩,
      by rw [hmem]; exact hs.size, ?_⟩
    intro q hq
    rw [hreg] at hq
    rw [hmem]
    rcases List.mem_cons.mp hq with rfl | hq
    · exact hptr
    · exact hs.regions q hq
  · refine ⟨hs.start, ⟨hs.within.start, hs.within.len, ?_⟩, hlt, fun q hq => ?_⟩
    · have := hs.within.stop
      dsimp only
      omega
    · have hq := hs.regions q hq
      exact ⟨hq.start, hq.len, by have := hq.stop; dsimp only; omega⟩

/-- **The next write is fresh exactly when the used area contains what was exchanged**: behind the
area, a write that is long enough comes to a byte that was. -/
theorem nextFresh_iff {s : Session Mem} (hs : s.Sound) : s.NextFresh ↔ s.Contains := by
  constructor
  · intro hf q hq hlen
    by_contra hstop
    have hqw := hs.regions q hq
    have hqs : q.stop = q.start.toInt + q.len.toInt := rfl
    have hu := hs.stop_eq
    have hul := hs.within.len
    have hq1 := hqw.stop
    -- the write ends with the first byte of the region that is behind the area
    obtain ⟨n, hn⟩ : ∃ n : ℕ, (n : ℤ) = max q.start.toInt s.runner.ptr.stop + 1 -
        s.runner.ptr.stop := ⟨(max q.start.toInt s.runner.ptr.stop + 1 -
          s.runner.ptr.stop).toNat, by omega⟩
    obtain ⟨⟨ptr, runner⟩, hw⟩ := writeBytes_isOk hs (List.replicate n 0)
      (by rw [List.length_replicate]; omega)
    obtain ⟨hstart, hl, -⟩ := writeBytes_ok hs hw
    have hd := WasmPointer.disjoint_bytes.mp (hf _ _ _ hw q hq)
    rw [List.length_replicate] at hl
    have hps : ptr.stop = ptr.start.toInt + ptr.len.toInt := rfl
    omega
  · intro hc bytes ptr runner hw q hq
    obtain ⟨hstart, -⟩ := writeBytes_ok hs hw
    rw [WasmPointer.disjoint_bytes]
    have hqs : q.stop = q.start.toInt + q.len.toInt := rfl
    have hql := (hs.regions q hq).len
    by_cases hlen : 0 < q.len.toInt
    · have := hc q hq hlen
      omega
    · omega

/-- A step keeps what was exchanged inside the used area exactly when it is covered. -/
theorem contains_step {s s' : Session Mem} {a : HostStep Mem} (hs : s.Sound) (hc : s.Contains)
    (h : s.step a = some s') : s'.Contains ↔ s.Covered a := by
  rcases step_cases h with ⟨bytes, ptr, rfl, hw, hreg⟩ | ⟨ptr, buffer, rfl, hr, hreg⟩ |
    ⟨memory, rfl, -, -, rfl⟩
  · obtain ⟨hstart, hlen, -, hptr, -, hstop⟩ := writeBytes_ok hs hw
    refine iff_of_true ?_ trivial
    intro q hq hql
    rw [hreg] at hq
    rw [hstop]
    rcases List.mem_cons.mp hq with rfl | hq
    · exact le_rfl
    · have := hc q hq hql
      have hl : ptr.stop = ptr.start.toInt + ptr.len.toInt := rfl
      omega
  · obtain ⟨hptr, -, hrun⟩ := readBytes_ok hs hr
    obtain ⟨-, hst⟩ := stop_readBytes hs hr
    have hu := hs.stop_eq
    have hul := hs.within.len
    have hpl := hptr.len
    unfold Contains Covered
    rw [hreg, List.forall_mem_cons, hst]
    dsimp only
    by_cases hin : ptr.stop ≤ s.runner.ptr.stop
    · rw [if_pos hin]
      exact iff_of_true ⟨fun _ => hin, hc⟩ (Or.inl hin)
    · rw [if_neg hin]
      by_cases hempty : s.runner.ptr.stop = 0
      · refine iff_of_true ⟨fun _ => by omega, fun q hq hql => ?_⟩ (Or.inr (Or.inl hempty))
        have := hc q hq hql
        omega
      · have hz : ptr.len = 0 ↔ ¬ 0 < ptr.len.toInt := by
          rw [← Int32.toInt_inj, show (0 : Int32).toInt = 0 from rfl]
          omega
        rw [hz]
        constructor
        · rintro ⟨hp, hq⟩
          refine Or.inr (Or.inr ⟨fun hpos => ?_, fun q hmem hql => ?_⟩)
          · have := hp hpos
            omega
          · have := hq q hmem hql
            omega
        · rintro (hle | h0 | ⟨hp, hq⟩)
          · exact absurd hle hin
          · exact absurd h0 hempty
          · refine ⟨fun hpos => absurd hpos hp, fun q hmem hql => ?_⟩
            have := hq q hmem hql
            omega
  · exact iff_of_true hc trivial

end Session

/-- **What is written next is fresh throughout a session, exactly when every read is covered.** -/
theorem nextFresh_always_iff (as : List (HostStep Mem)) :
    Always Session.step Session.NextFresh (Session.compiled : Session Mem) as ↔
      EachStep Session.step Session.Covered (Session.compiled : Session Mem) as := by
  have hP : (Session.compiled : Session Mem).NextFresh := by
    intro bytes ptr runner _ q hq
    cases hq
  refine always_iff_eachStep (I := Session.Sound) (fun s a s' hs _ h _ => Session.sound_step hs h)
    (fun s a s' hs hf h => ?_) Session.sound_compiled hP
  rw [Session.nextFresh_iff (Session.sound_step hs h)]
  exact Session.contains_step hs ((Session.nextFresh_iff hs).mp hf) h

/-- **A write changes no byte that was exchanged**, in a session whose reads are covered. -/
theorem exchanged_survives {as pre : List (HostStep Mem)} {s s' : Session Mem} {bytes : List UInt8}
    (h : EachStep Session.step Session.Covered (Session.compiled : Session Mem) as)
    (hpre : pre <+: as) (hrun : run Session.step Session.compiled pre = some s)
    (hw : s.step (.write bytes) = some s') {q : WasmPointer} (hq : q ∈ s.regions)
    (hlen : 0 < q.len.toInt) :
    LinearMemory.read s'.runner.memory (offset q.start) q.len.toNatClampNeg =
      LinearMemory.read s.runner.memory (offset q.start) q.len.toNatClampNeg := by
  have hcompiled : (Session.compiled : Session Mem).Contains := by
    intro q hq
    cases hq
  have hsafe : Always Session.step Session.Contains (Session.compiled : Session Mem) as := by
    refine (always_iff_eachStep (I := Session.Sound)
      (fun s a s' hs _ h _ => Session.sound_step hs h)
      (fun s a s' hs hc h => Session.contains_step hs hc h) Session.sound_compiled hcompiled).mpr h
  have hs : s.Sound := run_invariant (fun _ _ _ => Session.sound_step) Session.sound_compiled hrun
  have hstop := hsafe pre s hpre hrun q hq hlen
  rcases Session.step_cases hw with ⟨bs, ptr, hb, hok, -⟩ | ⟨ptr, buffer, hb, -⟩ | ⟨m, hb, -⟩
  · obtain ⟨hstart, -, hmem, hptr, -⟩ := writeBytes_ok hs hok
    have hqw := hs.regions q hq
    have hqoff := offset_toNat _ hqw.start
    have hoff := offset_toNat _ hptr.start
    have hn : (q.len.toNatClampNeg : ℤ) = q.len.toInt := Int32.cast_toNatClampNeg _ (by
      rw [Int32.le_iff_toInt_le]
      exact hqw.len)
    have hqs : q.stop = q.start.toInt + q.len.toInt := rfl
    exact LinearMemory.read_write _ _ _ _ _ _ hmem (Or.inl (by omega))
  · simp at hb
  · simp at hb

/-! ### Calling the guest -/

/-- `host.HostCall`, with the name of its continuation. -/
structure HostCall where
  name : String
  cont : Option String
  parameters : Option MemorySlice
  deriving DecidableEq, Repr

/-- The `oneof` of `host.InvokeResult`, with the message of an error. -/
inductive InvokeResult where
  | finished (ptr : Option MemorySlice)
  | hostCall (call : HostCall)
  | error (message : String)
  deriving DecidableEq, Repr

inductive ExecState (M : Type) where
  | finished (m : M)
  | continue (call : HostCall)

/-- The errors of a call, which are boxed in the source. -/
inductive CallError where
  | memory (err : MemoryAccessError)
  | text (err : String)
  deriving DecidableEq, Repr

namespace WasmRunner

variable {M : Type}

/-- `read_message`, with the decoder of the message. -/
def readMessage (decode : List UInt8 → Except String M) (r : WasmRunner Mem) (ptr : WasmPointer) :
    Except Panic (Except CallError M × WasmRunner Mem) :=
  match r.readBytes ptr with
  | .error p => .error p
  | .ok (.error e) => .ok (.error (.memory e), r)
  | .ok (.ok (buffer, r)) => .ok ((decode buffer).mapError .text, r)

/-- `call`, given the memory and the value that the guest's function leaves, or why it failed. -/
def call (decodeResult : List UInt8 → Except String (Option InvokeResult))
    (decode : List UInt8 → Except String M) (r : WasmRunner Mem) (memory : Mem)
    (value : Except String Int64) :
    Except Panic (Except CallError (ExecState M) × WasmRunner Mem) :=
  let r := { r with memory := memory }
  match value with
  | .error trap => .ok (.error (.text trap), r)
  | .ok value =>
    match r.readMessage decodeResult (.ofI64 value) with
    | .error p => .error p
    | .ok (.error e, r) => .ok (.error e, r)
    | .ok (.ok none, r) => .ok (.error (.text "Failed to read invoke result"), r)
    | .ok (.ok (some (.finished none)), r) =>
      .ok (.error (.text "Failed to read finished result"), r)
    | .ok (.ok (some (.finished (some ptr))), r) =>
      match r.readMessage decode (.ofMemorySlice ptr) with
      | .error p => .error p
      | .ok (out, r) => .ok (out.map .finished, r)
    | .ok (.ok (some (.hostCall call)), r) => .ok (.ok (.continue call), r)
    | .ok (.ok (some (.error message)), r) =>
      .ok (.error (.text ("Error in WASM function: " ++ message)), r)

end WasmRunner

section Calls

variable {M : Type}

theorem readMessage_run {decode : List UInt8 → Except String M} {s : Session Mem}
    {ptr : WasmPointer} {result : Except CallError M} {r : WasmRunner Mem}
    (h : s.runner.readMessage decode ptr = .ok (result, r)) :
    ∃ as s', run Session.step s as = some s' ∧ s'.runner = r := by
  unfold WasmRunner.readMessage at h
  split at h
  · simp at h
  · cases h
    exact ⟨[], s, rfl, rfl⟩
  · next buffer r' hr =>
    cases h
    refine ⟨[.read ptr], ⟨_, ptr :: s.regions⟩, ?_, rfl⟩
    rw [run_cons]
    simp only [Session.step, hr]
    rfl

/-- A call that returns to the host has read a result, and then at most one message. -/
theorem call_reads {decodeResult : List UInt8 → Except String (Option InvokeResult)}
    {decode : List UInt8 → Except String M} {r r₂ : WasmRunner Mem} {memory : Mem} {value : Int64}
    {result : Except CallError (ExecState M)}
    (h : r.call decodeResult decode memory (.ok value) = .ok (result, r₂)) :
    ∃ first r₁, WasmRunner.readMessage decodeResult { r with memory := memory } (.ofI64 value) =
        .ok (first, r₁) ∧
      (r₁ = r₂ ∨ ∃ ptr second, r₁.readMessage decode ptr = .ok (second, r₂)) := by
  simp only [WasmRunner.call] at h
  split at h
  · simp at h
  · next hr => cases h; exact ⟨_, _, hr, Or.inl rfl⟩
  · next hr => cases h; exact ⟨_, _, hr, Or.inl rfl⟩
  · next hr => cases h; exact ⟨_, _, hr, Or.inl rfl⟩
  · next hr =>
    split at h
    · simp at h
    · next hr₂ => cases h; exact ⟨_, _, hr, Or.inr ⟨_, _, hr₂⟩⟩
  · next hr => cases h; exact ⟨_, _, hr, Or.inl rfl⟩
  · next hr => cases h; exact ⟨_, _, hr, Or.inl rfl⟩

/-- **A call is a session**, whatever its result: the guest runs, and what is read has joined the
used area. -/
theorem call_run {decodeResult : List UInt8 → Except String (Option InvokeResult)}
    {decode : List UInt8 → Except String M} {s : Session Mem} {memory : Mem}
    {value : Except String Int64} {result : Except CallError (ExecState M)} {r : WasmRunner Mem}
    (hle : LinearMemory.size s.runner.memory ≤ LinearMemory.size memory)
    (hlt : LinearMemory.size memory < 2 ^ 31)
    (h : s.runner.call decodeResult decode memory value = .ok (result, r)) :
    ∃ as s', run Session.step s as = some s' ∧ s'.runner = r := by
  have hguest : run Session.step s [.guest memory] =
      some ⟨{ s.runner with memory := memory }, s.regions⟩ := by
    rw [run_cons, Session.step, if_pos ⟨hle, hlt⟩]
    rfl
  rcases value with trap | value
  · cases h
    exact ⟨_, _, hguest, rfl⟩
  · obtain ⟨first, r₁, h₁, hrest⟩ := call_reads h
    obtain ⟨as, s₁, hrun₁, hr₁⟩ := readMessage_run (s := ⟨_, s.regions⟩) h₁
    have hto : run Session.step s ([.guest memory] ++ as) = some s₁ := by
      rw [run_append, hguest]
      exact hrun₁
    rcases hrest with rfl | ⟨ptr, second, h₂⟩
    · exact ⟨_, s₁, hto, hr₁⟩
    · rw [← hr₁] at h₂
      obtain ⟨bs, s₂, hrun₂, hr₂⟩ := readMessage_run h₂
      refine ⟨([.guest memory] ++ as) ++ bs, s₂, ?_, hr₂⟩
      rw [run_append, hto]
      exact hrun₂

end Calls

/-! ### A read behind the used area -/

/-- A memory by its size and its bytes. -/
structure Bytes where
  size : ℕ
  byte : ℕ → UInt8

instance : LinearMemory Bytes where
  new pages := ⟨pages * 65536, fun _ => 0⟩
  size := Bytes.size
  read m off n :=
    if off.toNat + n ≤ m.size then .ok ((List.range n).map fun i => m.byte (off.toNat + i))
    else .error .heapOutOfBounds
  write m off bs :=
    if off.toNat + bs.length ≤ m.size then
      .ok
        { m with
          byte := fun i =>
            if off.toNat ≤ i then bs.getD (i - off.toNat) (m.byte i) else m.byte i }
    else .error .heapOutOfBounds
  size_new _ := rfl
  read_ok m off n := by
    split_ifs with h
    · simp [h]
    · simp [h]
  write_ok m off bs := by
    split_ifs with h
    · simp [h]
    · simp [h]
  size_write m off bs m' h := by
    split_ifs at h
    obtain rfl := Except.ok.inj h
    rfl
  read_write m off bs m' off' n h hd := by
    split_ifs at h
    obtain rfl := Except.ok.inj h
    have hbyte : ∀ i < n, (if off.toNat ≤ off'.toNat + i then
        bs.getD (off'.toNat + i - off.toNat) (m.byte (off'.toNat + i))
        else m.byte (off'.toNat + i)) = m.byte (off'.toNat + i) := by
      intro i hi
      split_ifs
      · have hlen : bs.length ≤ off'.toNat + i - off.toNat := by omega
        rw [List.getD_eq_getElem?_getD, List.getElem?_eq_none hlen]
        rfl
      · rfl
    dsimp only
    split_ifs
    · congr 1
      refine List.map_congr_left fun i hi => ?_
      exact hbyte i (List.mem_range.mp hi)
    · rfl

/-- The host writes ten bytes, and the guest's answer of five bytes is at address twenty. -/
def answerBehind : List (HostStep Bytes) := [.write (List.replicate 10 0), .read ⟨20, 5⟩]

theorem answerBehind_overwritten :
    ¬ ∀ (Mem : Type) [LinearMemory Mem] (as : List (HostStep Mem)),
      Always Session.step Session.NextFresh (Session.compiled : Session Mem) as := by
  intro h
  have hrun : (run Session.step (Session.compiled : Session Bytes) answerBehind).map
      (fun s => (s.runner.ptr, s.regions)) = some (⟨0, 15⟩, [⟨20, 5⟩, ⟨0, 10⟩]) := by
    decide +kernel
  obtain ⟨s, hs, he⟩ := Option.map_eq_some_iff.mp hrun
  simp only [Prod.mk.injEq] at he
  have hsound : s.Sound := run_invariant (fun _ _ _ => Session.sound_step) Session.sound_compiled hs
  have hc := (Session.nextFresh_iff hsound).mp
    (h Bytes answerBehind answerBehind s List.prefix_rfl hs)
  have hstop := hc ⟨20, 5⟩ (by rw [he.2]; simp) (by decide)
  rw [he.1] at hstop
  exact absurd hstop (by decide)

end Laqista.Wasm
