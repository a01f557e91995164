import Laqista.Face.App
import Laqista.Wasm.Detection
import Laqista.Wasm.Exit

/-! # The exports of the face module

`main` reads the request, and asks the host for an inference or gives up; `get_probability` reads
the host's reply and gives the detection's. Both read the area that they are given and leave an
exit behind it. What the compiled code has in the memory otherwise (its stack, its statics and its
heap) is assumed to lie apart from the bytes that are exchanged and is not in the model, and a panic
is a trap.

`exit_says`: after an exit the host finds the result at the returned place, and the payload where
the result says. -/

namespace Laqista.Wasm.Guest.Memory

open Laqista.Lib

variable {Mem : Type} [GrowingMemory Mem]

/-- `get_whole`. A read that leaves the memory traps. -/
def getWhole (m : Memory) (mem : Mem) : Except Panic (List UInt8) :=
  (LinearMemory.read mem m.head.toUInt64 m.len.toNat).mapError fun _ =>
    ⟨"out of bounds memory access"⟩

/-- **The guest reads what the host has written.** -/
theorem getWhole_setup {ptr len : Int32} {mem : Mem} {bytes : List UInt8} (hptr : 0 ≤ ptr.toInt)
    (hlen : len.toInt = bytes.length) (h : ptr.toInt + len.toInt < 2 ^ 31)
    (hread : LinearMemory.read mem (offset ptr) bytes.length = .ok bytes) :
    (setup ptr len).getWhole mem = .ok bytes := by
  obtain ⟨hhead, hlast⟩ := toNat_setup hptr (by omega) h
  have hoff := offset_toNat ptr hptr
  have haddr : (setup ptr len).head.toUInt64 = offset ptr := by
    apply UInt64.toNat_inj.mp
    rw [UInt32.toNat_toUInt64]
    omega
  have hn : (setup ptr len).len.toNat = bytes.length := by
    unfold Memory.len
    rw [toNat_sub_of_le (by omega)]
    omega
  unfold getWhole
  rw [haddr, hn, hread]
  rfl

end Laqista.Wasm.Guest.Memory

namespace Laqista.Face

open Laqista.Lib Laqista.Wasm Laqista.Wasm.Guest

/-- How the messages are encoded and decoded. -/
structure Messages where
  encodeResult : Guest.Result → List UInt8
  decodeResult : List UInt8 → Except String (Option InvokeResult)
  encodeUnit : Unit → List UInt8
  decodeUnit : List UInt8 → Except String Unit
  encodeRequest : DetectionRequest → List UInt8
  decodeRequest : List UInt8 → Except String DetectionRequest
  encodeInfer : InferRequest → List UInt8
  decodeInfer : List UInt8 → Except String InferRequest
  encodeInferReply : InferReply → List UInt8
  decodeInferReply : List UInt8 → Except String InferReply
  encodeReply : DetectionReply → List UInt8
  decodeReply : List UInt8 → Except String DetectionReply

/-- The texts of the errors of `wasmer`: an export that cannot be called, and a trap. -/
structure Traps where
  refused : String → List Value → String
  trapped : Panic → String

section Exports

variable {Image Mem : Type} [GrowingMemory Mem] (w : FaceWasm Image) (m : Messages)

/-- `read_message`. -/
def readMessage {M : Type} (decode : List UInt8 → Except String M) (buffer : List UInt8) :
    Except String M :=
  (decode buffer).mapError ("ERR: Failed to decode request: " ++ ·)

def run (memory : Memory) (mem : Mem) : Except Panic (Except String InferRequest) := do
  let buffer ← memory.getWhole mem
  return do
    let request ← readMessage m.decodeRequest buffer
    w.input request

def main (ptr len : Int32) (mem : Mem) : Except Panic (Int64 × Mem) := do
  let memory := setup ptr len
  match ← run w m memory mem with
  | .ok req => exitHostcall m.encodeResult m.encodeInfer memory mem "infer" "get_probability" req
  | .error e => exitError m.encodeResult m.encodeUnit memory mem e ()

def getProbRun (memory : Memory) (mem : Mem) : Except Panic (Except String DetectionReply) := do
  let buffer ← memory.getWhole mem
  match (m.decodeInferReply buffer).mapError ("Failed to parse InferReply: " ++ ·) with
  | .ok resp => w.label resp
  | .error e => return .error e

def getProbability (ptr len : Int32) (mem : Mem) : Except Panic (Int64 × Mem) := do
  let memory := setup ptr len
  match ← getProbRun w m memory mem with
  | .ok resp => exitFinish m.encodeResult m.encodeReply memory mem resp
  | .error e => exitError m.encodeResult m.encodeUnit memory mem e ()

/-- What a call of an export gives the host. The memory after a trap is not looked at. -/
def answer (t : Traps) (mem : Mem) : Except Panic (Int64 × Mem) → Except String (List Value) × Mem
  | .ok (value, mem') => (.ok [.i64 value], mem')
  | .error p => (.error (t.trapped p), mem)

/-- The compiled module, with the memory of a new instance: its exports, without what they have of
their own in the memory. -/
def module (t : Traps) (memory : Mem) : WasmModule Mem where
  instantiate := .ok memory
  run name params mem :=
    match name, params with
    | "main", [.i32 ptr, .i32 len] => answer t mem (main w m ptr len mem)
    | "get_probability", [.i32 ptr, .i32 len] => answer t mem (getProbability w m ptr len mem)
    | _, _ => (.error (t.refused name params), mem)

end Exports

/-! ### Exits -/

/-- How an export ends: a payload, and the result that names it. -/
structure Exit where
  payload : List UInt8
  result : Option MemorySlice → Guest.Result

/-- The place of the payload behind an input. -/
def Exit.slice (x : Exit) (ptr len : Int32) : MemorySlice :=
  let slic := (setup ptr len).next x.payload
  ⟨slic.ptr.toUInt64, slic.len.toUInt64⟩

/-- The host decodes the result as the guest has encoded it. -/
def Exit.Decoded (x : Exit) (m : Messages) : Prop :=
  ∀ slic, m.decodeResult (m.encodeResult (x.result slic)) = .ok (some (x.result slic).host)

/-- There is room for the exit behind an input that ends at `stop`, its result having at most `r`
bytes. -/
structure Exit.Fits (x : Exit) (m : Messages) (stop : ℤ) (r size : ℕ) : Prop where
  result : ∀ slic, (m.encodeResult (x.result slic)).length ≤ r
  room : stop + 1 + x.payload.length + r ≤ size

theorem Exit.Fits.mono {x : Exit} {m : Messages} {stop stop' : ℤ} {r size : ℕ}
    (h : x.Fits m stop r size) (hle : stop' ≤ stop) : x.Fits m stop' r size :=
  ⟨h.result, by have := h.room; omega⟩

section

variable {Mem : Type} [GrowingMemory Mem] {m : Messages} {x : Exit} {ptr len : Int32} {mem : Mem}
  {r : ℕ}

/-- A region of the memory that holds bytes stands for what they decode to. -/
theorem says_of_read {M : Type} {decode : List UInt8 → Except String M} {s : Slice}
    {data : List UInt8} {msg : M} (hp : s.ptr.toNat < 2 ^ 31) (hlen : s.len.toNat = data.length)
    (hn : data.length < 2 ^ 31)
    (hread : LinearMemory.read mem s.ptr.toUInt64 data.length = .ok data)
    (hmsg : decode data = .ok msg) : Says decode mem ⟨s.ptr.toInt32, s.len.toInt32⟩ msg := by
  have hok : (⟨mem, ⟨0, 0⟩⟩ : WasmRunner Mem).readMessage decode
      ⟨s.ptr.toInt32, s.len.toInt32⟩ = .ok ((decode data).mapError .text, _) :=
    readMessage_slice hp hlen hn hread
  rw [hmsg] at hok
  exact (readMessage_ok_iff.mp hok).1

theorem toInt_toInt32_of_lt {n : UInt32} (h : n.toNat < 2 ^ 31) : n.toInt32.toInt = n.toNat := by
  have hint := toInt_toInt32 n
  rwa [if_pos h] at hint

/-- An exit that fits grows nothing. -/
theorem size_exitWith {m : Memory} {encodeResult : Guest.Result → List UInt8} {payload : List UInt8}
    {result : Option MemorySlice → Guest.Result} {value : Int64} {mem' : Mem}
    (h : Room m mem (payload.length + (encodeResult (written m payload result)).length))
    (hexit : exitWith encodeResult m mem payload result = .ok (value, mem')) :
    LinearMemory.size mem' = LinearMemory.size mem := by
  have hfirst : Room m mem payload.length := ⟨h.ordered, by have := h.fits; omega, h.size⟩
  obtain ⟨mem₁, hok₁, hw₁⟩ := writeBytes_ok hfirst
  have hsize₁ := LinearMemory.size_write _ _ _ _ hw₁
  obtain ⟨mem₂, hok₂, hw₂⟩ := writeBytes_ok (room_used h hsize₁)
  have hsize₂ := LinearMemory.size_write _ _ _ _ hw₂
  unfold exitWith at hexit
  rw [hok₁, ok_bind] at hexit
  dsimp only at hexit
  unfold exit at hexit
  dsimp only at hexit
  rw [show result (wrapMemslice (m.next payload)) = written m payload result from rfl, hok₂,
    ok_bind] at hexit
  cases hexit
  exact hsize₂.trans hsize₁

/-- **What an exit leaves to the host**: the result behind the payload, the payload behind the
input. -/
theorem exit_says (hx : x.Decoded m) (hptr : 0 ≤ ptr.toInt) (hlen : 0 ≤ len.toInt)
    (hsize : LinearMemory.size mem < 2 ^ 31)
    (hfit : x.Fits m (ptr.toInt + len.toInt) r (LinearMemory.size mem)) :
    ∃ value mem', exitWith m.encodeResult (setup ptr len) mem x.payload x.result =
        .ok (value, mem') ∧
      Says m.decodeResult mem' (.ofI64 value) (some (x.result (some (x.slice ptr len))).host) ∧
      (∀ (M : Type) (decode : List UInt8 → Except String M) msg, decode x.payload = .ok msg →
        Says decode mem' (.ofMemorySlice (x.slice ptr len)) msg) ∧
      (WasmPointer.ofMemorySlice (x.slice ptr len)).stop =
        ptr.toInt + len.toInt + 1 + x.payload.length ∧
      (WasmPointer.ofI64 value).stop ≤ ptr.toInt + len.toInt + 1 + x.payload.length + r ∧
      LinearMemory.size mem' = LinearMemory.size mem := by
  obtain ⟨hresult, hroom⟩ := hfit
  obtain ⟨hhead, hlast⟩ := toNat_setup hptr hlen (by omega)
  have hbound := hresult (some (x.slice ptr len))
  have hwritten : written (setup ptr len) x.payload x.result =
      x.result (some (x.slice ptr len)) := rfl
  have hroom' : Room (setup ptr len) mem (x.payload.length +
      (m.encodeResult (written (setup ptr len) x.payload x.result)).length) := by
    rw [hwritten]
    exact ⟨by omega, by omega, hsize⟩
  obtain ⟨mem', hexit, hpay, hres, -⟩ := exitWith_ok hroom'
  have hsame := size_exitWith hroom' hexit
  rw [hwritten] at hexit hres
  have hdec := hx (some (x.slice ptr len))
  have hfirst := toNat_next hroom' x.payload
  have hlast' : ((setup ptr len).used x.payload).last.toNat =
      (setup ptr len).last.toNat + x.payload.length := toNat_used (by omega) (by omega)
  have hsecond := toNat_next (room_used hroom' rfl)
    (m.encodeResult (x.result (some (x.slice ptr len))))
  generalize m.encodeResult (x.result (some (x.slice ptr len))) = data at *
  rw [UInt32.toNat_toUInt64] at hfirst hsecond
  have hn₁ : ((setup ptr len).next x.payload).len.toNat = x.payload.length :=
    toNat_nextLen (by omega)
  have hn₂ : (((setup ptr len).used x.payload).next data).len.toNat = data.length :=
    toNat_nextLen (by omega)
  have hslice : WasmPointer.ofMemorySlice (x.slice ptr len) =
      ⟨((setup ptr len).next x.payload).ptr.toInt32,
        ((setup ptr len).next x.payload).len.toInt32⟩ := ofMemorySlice_wrapMemslice rfl
  refine ⟨_, mem', hexit, ?_, fun M decode msg hmsg => ?_, ?_, ?_, hsame⟩
  · rw [ofI64_sliceToI64]
    exact says_of_read (by omega) hn₂ (by omega) hres hdec
  · rw [hslice]
    exact says_of_read (by omega) hn₁ (by omega) hpay hmsg
  · rw [hslice]
    unfold WasmPointer.stop
    rw [toInt_toInt32_of_lt (by omega), toInt_toInt32_of_lt (by omega)]
    omega
  · rw [ofI64_sliceToI64]
    unfold WasmPointer.stop
    rw [toInt_toInt32_of_lt (by omega), toInt_toInt32_of_lt (by omega)]
    omega

end

end Laqista.Face
