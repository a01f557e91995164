import Laqista.Wasm.Host

/-! # What a guest can do to its host

`runDetection` is the protocol of the face server: it calls `main` of the deployed module, which has
to answer with a host call, and then the continuation, which has to answer with a finished message.
The values that the guest returns, its memory and the message in it are the guest's own.

`host_survives_iff`: reading a region panics exactly where its length is negative, a call exactly
where the guest does not return a 64-bit integer or a length that it gives is negative, and a
detection exactly where a call does, or the wrong one of the two answers is given. -/

namespace Laqista.Wasm

open Laqista.Lib

/-- `wasmer::Value`: floats by their bits, references by their places in a table. -/
inductive Value where
  | i32 (value : Int32)
  | i64 (value : Int64)
  | f32 (bits : UInt32)
  | f64 (bits : UInt64)
  | externRef (ref : Option ℕ)
  | funcRef (ref : Option ℕ)
  | v128 (bits : BitVec 128)
  deriving DecidableEq, Repr

def Value.unwrapI64 : Value → Except Panic Int64
  | i64 value => .ok value
  | _ => .error ⟨"expected i64"⟩

/-- `Into<[Value; 2]>`. -/
def WasmPointer.values (p : WasmPointer) : List Value := [.i32 p.start, .i32 p.len]

/-- A deployed module: the memory after its instantiation, and what a call of an export returns and
leaves in the memory. The call fails where there is no such export, or in a trap. -/
structure WasmModule (Mem : Type) where
  instantiate : Except String Mem
  run : String → List Value → Mem → Except String (List Value) × Mem

namespace ExecState

variable {M : Type}

def unwrapFinished : ExecState M → Except Panic M
  | finished m => .ok m
  | .continue _ => .error ⟨"`ExecState::unwrap_finished()` on non-Finished value"⟩

def unwrapContinue : ExecState M → Except Panic HostCall
  | .continue c => .ok c
  | finished _ => .error ⟨"`ExecState::unwrap_continue()` on non-Continue value"⟩

end ExecState

section

variable {Mem M I D : Type} [LinearMemory Mem]

namespace WasmRunner

variable (decodeResult : List UInt8 → Except String (Option InvokeResult))
  (decode : List UInt8 → Except String M)

/-- `call`, given the values that the guest's function returns and the memory that it leaves. -/
def callValues (r : WasmRunner Mem) (answer : Except String (List Value) × Mem) :
    Except Panic (Except CallError (ExecState M) × WasmRunner Mem) :=
  match answer.1 with
  | .error trap => r.call decodeResult decode answer.2 (.error trap)
  | .ok [] => .error ⟨"index out of bounds: the len is 0 but the index is 0"⟩
  | .ok (value :: _) =>
    match value.unwrapI64 with
    | .error p => .error p
    | .ok value => r.call decodeResult decode answer.2 (.ok value)

def callExport (module : WasmModule Mem) (r : WasmRunner Mem) (name : String)
    (params : List Value) : Except Panic (Except CallError (ExecState M) × WasmRunner Mem) :=
  r.callValues decodeResult decode (module.run name params r.memory)

end WasmRunner

/-- The decoders of the messages, the texts of the errors, and the server that infers: it replies
with an encoded message. -/
structure FaceServer (I D : Type) where
  decodeResult : List UInt8 → Except String (Option InvokeResult)
  decodeUnit : List UInt8 → Except String Unit
  decodeInfer : List UInt8 → Except String I
  decodeReply : List UInt8 → Except String D
  display : CallError → String
  inner : I → Except String (List UInt8)

namespace FaceServer

variable (s : FaceServer I D) (module : WasmModule Mem)

def infer (request : I) : Except Status (List UInt8) :=
  (s.inner request).mapError fun e => .aborted ("could not run inference: " ++ e)

/-- The end of `run_detection`, with the answer of the continuation. -/
def finishAnswer (answer : Except Panic (Except CallError (ExecState D) × WasmRunner Mem)) :
    Except Panic (Except Status D) :=
  match answer with
  | .error p => .error p
  | .ok (.error e, _) =>
    .ok (.error (.aborted ("Failed to call WebAssembly function (2): " ++ s.display e)))
  | .ok (.ok state, _) => state.unwrapFinished.map .ok

/-- The reply goes to the continuation. -/
def finishDetection (wasm : WasmRunner Mem) (call : HostCall) (resp : List UInt8) :
    Except Panic (Except Status D) :=
  match wasm.writeBytes resp with
  | .error e =>
    .ok (.error (.aborted
      ("Failed to write infer reply to wasm memory: " ++ s.display (.memory e))))
  | .ok (ptr, wasm) =>
    match call.cont with
    | none => .ok (.error (.aborted "Failed to read HostCall: cont is null"))
    | some name =>
      s.finishAnswer (wasm.callExport s.decodeResult s.decodeReply module name ptr.values)

/-- The guest asks for an inference. -/
def inferDetection (wasm : WasmRunner Mem) (call : HostCall) : Except Panic (Except Status D) :=
  match call.parameters with
  | none => .ok (.error (.aborted "Failed to read HostCall: cont is null"))
  | some param =>
    match wasm.readMessage s.decodeInfer (.ofMemorySlice param) with
    | .error p => .error p
    | .ok (.error e, _) =>
      .ok (.error (.aborted
        ("Failed to read infer parameters from wasm memory: " ++ s.display e)))
    | .ok (.ok params, wasm) =>
      match s.infer params with
      | .error status => .ok (.error status)
      | .ok resp => s.finishDetection module wasm call resp

/-- `run_detection` from the answer of `main`. -/
def mainAnswer (answer : Except Panic (Except CallError (ExecState Unit) × WasmRunner Mem)) :
    Except Panic (Except Status D) :=
  match answer with
  | .error p => .error p
  | .ok (.error e, _) =>
    .ok (.error (.aborted ("Failed to call WebAssembly function: " ++ s.display e)))
  | .ok (.ok state, wasm) =>
    match state.unwrapContinue with
    | .error p => .error p
    | .ok call => s.inferDetection module wasm call

/-- `run_detection`, of an encoded request. -/
def runDetection (msg : List UInt8) : Except Panic (Except Status D) :=
  match module.instantiate with
  | .error e => .ok (.error (.aborted ("Failed to compile and setup wasm module: " ++ e)))
  | .ok memory =>
    match WasmRunner.writeBytes ⟨memory, ⟨0, 0⟩⟩ msg with
    | .error e =>
      .ok (.error (.aborted
        ("Failed to write request data to wasm memory: " ++ s.display (.memory e))))
    | .ok (ptr, wasm) =>
      s.mainAnswer module (wasm.callExport s.decodeResult s.decodeUnit module "main" ptr.values)

end FaceServer

/-! ### Messages in the memory -/

/-- The region stands for a message. -/
def Says (decode : List UInt8 → Except String M) (mem : Mem) (ptr : WasmPointer) (m : M) : Prop :=
  0 ≤ ptr.len ∧ ∃ bytes,
    LinearMemory.read mem (offset ptr.start) ptr.len.toNatClampNeg = .ok bytes ∧
    decode bytes = .ok m

/-- The function returns an integer. -/
def Returns (answer : Except String (List Value) × Mem) (x : Int64) : Prop :=
  ∃ vs, answer.1 = .ok (.i64 x :: vs)

/-- The function returns the place of a result. -/
def Presents (decodeResult : List UInt8 → Except String (Option InvokeResult))
    (answer : Except String (List Value) × Mem) (x : Int64) (result : InvokeResult) : Prop :=
  Returns answer x ∧ Says decodeResult answer.2 (.ofI64 x) (some result)

/-- The answers at which a call panics. -/
inductive CallPanics (decodeResult : List UInt8 → Except String (Option InvokeResult))
    (answer : Except String (List Value) × Mem) : Prop where
  | noValue (h : answer.1 = .ok [])
  | notI64 {v : Value} {vs : List Value} (h : answer.1 = .ok (v :: vs)) (hv : ∀ x, v ≠ .i64 x)
  | resultLen {x : Int64} (h : Returns answer x) (hlen : (WasmPointer.ofI64 x).len < 0)
  | finishedLen {x : Int64} {ptr : MemorySlice}
      (h : Presents decodeResult answer x (.finished (some ptr)))
      (hlen : (WasmPointer.ofMemorySlice ptr).len < 0)

section Messages

variable {decode : List UInt8 → Except String M} {r r' : WasmRunner Mem} {ptr : WasmPointer}

theorem bufferLength_ok_iff {len : Int32} : (∃ n, bufferLength len = .ok n) ↔ 0 ≤ len := by
  unfold bufferLength
  split_ifs with h
  · simp [h]
  · simp [h]

/-- **Reading a region panics exactly where its length is negative.** -/
theorem readBytes_isOk_iff : (∃ out, r.readBytes ptr = .ok out) ↔ 0 ≤ ptr.len := by
  rw [← bufferLength_ok_iff]
  unfold WasmRunner.readBytes
  rcases bufferLength ptr.len with p | n
  · simp
  · simp

theorem readMessage_isOk_iff : (∃ out, r.readMessage decode ptr = .ok out) ↔ 0 ≤ ptr.len := by
  rw [← readBytes_isOk_iff (r := r)]
  unfold WasmRunner.readMessage
  rcases r.readBytes ptr with p | e | ⟨buffer, r'⟩
  · simp
  · simp
  · simp

/-- **A message is read exactly where the region stands for it.** -/
theorem readMessage_ok_iff {m : M} : r.readMessage decode ptr = .ok (.ok m, r') ↔
    Says decode r.memory ptr m ∧ r' = { r with ptr := r.ptr.join ptr } := by
  unfold Says WasmRunner.readMessage WasmRunner.readBytes bufferLength
  by_cases hlen : 0 ≤ ptr.len
  · rw [if_pos hlen, ok_bind]
    rcases LinearMemory.read r.memory (offset ptr.start) ptr.len.toNatClampNeg with e | bytes
    · simp
    · rcases hd : decode bytes with e | m'
      · simp [hd, Except.mapError]
      · simp [hd, Except.mapError, hlen, eq_comm]
  · rw [if_neg hlen]
    simp [hlen]

/-- A region stands for one message. -/
theorem Says.iff_eq {mem : Mem} {m m' : M} (h : Says decode mem ptr m) :
    Says decode mem ptr m' ↔ m' = m := by
  constructor
  · intro h'
    obtain ⟨-, bytes, hbytes, hm⟩ := h
    obtain ⟨-, bytes', hbytes', hm'⟩ := h'
    rw [hbytes] at hbytes'
    obtain rfl := Except.ok.inj hbytes'
    rw [hm] at hm'
    exact (Except.ok.inj hm').symm
  · rintro rfl
    exact h

/-- How reading a message ends. -/
theorem readMessage_cases (decode : List UInt8 → Except String M) (r : WasmRunner Mem)
    (ptr : WasmPointer) :
    (¬ 0 ≤ ptr.len ∧ ∃ p, r.readMessage decode ptr = .error p) ∨
    (0 ≤ ptr.len ∧ (∀ m, ¬ Says decode r.memory ptr m) ∧
      ∃ e r', r.readMessage decode ptr = .ok (.error e, r')) ∨
    ∃ m, 0 ≤ ptr.len ∧ Says decode r.memory ptr m ∧
      r.readMessage decode ptr = .ok (.ok m, { r with ptr := r.ptr.join ptr }) := by
  have hok : (∃ out, r.readMessage decode ptr = .ok out) ↔ 0 ≤ ptr.len := readMessage_isOk_iff
  rcases hread : r.readMessage decode ptr with p | ⟨e | m, r'⟩
  · rw [hread] at hok
    exact .inl ⟨fun hlen => by simpa using hok.mpr hlen, p, rfl⟩
  · rw [hread] at hok
    refine .inr (.inl ⟨hok.mp ⟨_, rfl⟩, fun m hm => ?_, e, r', rfl⟩)
    have hm' := readMessage_ok_iff.mpr ⟨hm, rfl⟩
    rw [hread] at hm'
    simp at hm'
  · obtain ⟨hsaid, rfl⟩ := readMessage_ok_iff.mp hread
    exact .inr (.inr ⟨m, hsaid.1, hsaid, rfl⟩)

omit [LinearMemory Mem] in
theorem Returns.unique {answer : Except String (List Value) × Mem} {x y : Int64}
    (h : Returns answer x) (h' : Returns answer y) : x = y := by
  obtain ⟨vs, h⟩ := h
  obtain ⟨vs', h'⟩ := h'
  rw [h] at h'
  simpa using (List.cons.inj (Except.ok.inj h')).1

end Messages

/-! ### Calls -/

section Calls

variable {decodeResult : List UInt8 → Except String (Option InvokeResult)}
  {decode : List UInt8 → Except String M} {r r' : WasmRunner Mem} {mem : Mem}

/-- A call that returns an integer panics where one of the two lengths is negative. -/
theorem call_isOk_iff {x : Int64} :
    (∃ out, r.call decodeResult decode mem (.ok x) = .ok out) ↔ 0 ≤ (WasmPointer.ofI64 x).len ∧
      ∀ ptr, Says decodeResult mem (.ofI64 x) (some (.finished (some ptr))) →
        0 ≤ (WasmPointer.ofMemorySlice ptr).len := by
  unfold WasmRunner.call
  dsimp only
  rcases readMessage_cases decodeResult { r with memory := mem } (.ofI64 x) with
    ⟨hlen, p, hp⟩ | ⟨hlen, hnone, e, r₁, he⟩ | ⟨m, hlen, hsaid, hm⟩
  · rw [hp]
    simp [hlen]
  · rw [he]
    simp [hlen, hnone]
  · rw [hm]
    have hunique : ∀ m', Says decodeResult mem (.ofI64 x) m' ↔ m' = m := fun _ => hsaid.iff_eq
    simp only [hlen, hunique, true_and]
    rcases m with _ | ⟨_ | ptr⟩ | call | message
    · simp
    · simp
    · simp only [Option.some.injEq, InvokeResult.finished.injEq, forall_eq]
      have hok : (∃ out, WasmRunner.readMessage decode ⟨mem, r.ptr.join (.ofI64 x)⟩
          (.ofMemorySlice ptr) = .ok out) ↔ 0 ≤ (WasmPointer.ofMemorySlice ptr).len :=
        readMessage_isOk_iff
      rw [← hok]
      rcases WasmRunner.readMessage decode _ (.ofMemorySlice ptr) with p | ⟨out, r₁⟩
      · simp
      · simp
    · simp
    · simp

/-- A call gives a host call where the guest's answer is one. -/
theorem call_continue_iff {x : Int64} {c : HostCall} :
    r.call decodeResult decode mem (.ok x) = .ok (.ok (.continue c), r') ↔
      Says decodeResult mem (.ofI64 x) (some (.hostCall c)) ∧
        r' = ⟨mem, r.ptr.join (.ofI64 x)⟩ := by
  unfold WasmRunner.call
  dsimp only
  rcases readMessage_cases decodeResult { r with memory := mem } (.ofI64 x) with
    ⟨hlen, p, hp⟩ | ⟨hlen, hnone, e, r₁, he⟩ | ⟨m, hlen, hsaid, hm⟩
  · rw [hp]
    simp only [reduceCtorEq, false_iff]
    exact fun h => hlen h.1.1
  · rw [he]
    simp [hnone]
  · rw [hm]
    have hunique : ∀ m', Says decodeResult mem (.ofI64 x) m' ↔ m' = m := fun _ => hsaid.iff_eq
    simp only [hunique]
    rcases m with _ | ⟨_ | ptr⟩ | call | message
    · simp
    · simp
    · simp only [Option.some.injEq, reduceCtorEq, false_and, iff_false]
      rcases WasmRunner.readMessage decode _ (.ofMemorySlice ptr) with p | ⟨_ | out, r₁⟩
      · simp
      · simp [Except.map]
      · simp [Except.map]
    · simp [eq_comm]
    · simp

/-- A call gives a message where the guest's answer says that it is finished. -/
theorem call_finished_iff {x : Int64} {m : M} :
    r.call decodeResult decode mem (.ok x) = .ok (.ok (.finished m), r') ↔
      ∃ ptr, Says decodeResult mem (.ofI64 x) (some (.finished (some ptr))) ∧
        Says decode mem (.ofMemorySlice ptr) m ∧
        r' = ⟨mem, (r.ptr.join (.ofI64 x)).join (.ofMemorySlice ptr)⟩ := by
  unfold WasmRunner.call
  dsimp only
  rcases readMessage_cases decodeResult { r with memory := mem } (.ofI64 x) with
    ⟨hlen, p, hp⟩ | ⟨hlen, hnone, e, r₁, he⟩ | ⟨m', hlen, hsaid, hm⟩
  · rw [hp]
    simp only [reduceCtorEq, false_iff]
    rintro ⟨ptr, h, -⟩
    exact hlen h.1
  · rw [he]
    simp [hnone]
  · rw [hm]
    have hunique : ∀ m, Says decodeResult mem (.ofI64 x) m ↔ m = m' := fun _ => hsaid.iff_eq
    simp only [hunique]
    rcases m' with _ | ⟨_ | ptr⟩ | call | message
    · simp
    · simp
    · have hread : WasmRunner.readMessage decode ⟨mem, r.ptr.join (.ofI64 x)⟩ (.ofMemorySlice ptr) =
          .ok (.ok m, r') ↔ _ := readMessage_ok_iff
      simp only [Option.some.injEq, InvokeResult.finished.injEq, exists_eq_left]
      rw [← hread]
      rcases WasmRunner.readMessage decode _ (.ofMemorySlice ptr) with p | ⟨_ | out, r₁⟩
      · simp
      · simp [Except.map]
      · simp [Except.map]
    · simp
    · simp

theorem unwrapI64_ok_iff {v : Value} {x : Int64} : v.unwrapI64 = .ok x ↔ v = .i64 x := by
  unfold Value.unwrapI64
  cases v
  all_goals simp

variable {answer : Except String (List Value) × Mem}

/-- A call is one with the integer that is returned. -/
theorem callValues_of_returns {x : Int64} (h : Returns answer x) :
    r.callValues decodeResult decode answer = r.call decodeResult decode answer.2 (.ok x) := by
  obtain ⟨vs, h⟩ := h
  unfold WasmRunner.callValues
  rw [h]
  rfl

/-- Where nothing is returned, a call fails or panics. -/
theorem callValues_of_not_returns (h : ∀ x, ¬ Returns answer x) :
    (∃ trap, answer.1 = .error trap ∧
      r.callValues decodeResult decode answer = .ok (.error (.text trap), ⟨answer.2, r.ptr⟩)) ∨
    ((answer.1 = .ok [] ∨ ∃ v vs, answer.1 = .ok (v :: vs) ∧ ∀ x, v ≠ .i64 x) ∧
      ∃ p, r.callValues decodeResult decode answer = .error p) := by
  unfold WasmRunner.callValues
  rcases hvalues : answer.1 with trap | _ | ⟨v, vs⟩
  · exact .inl ⟨trap, rfl, rfl⟩
  · exact .inr ⟨.inl rfl, _, rfl⟩
  · have hv : ∀ x, v ≠ .i64 x := by
      rintro x rfl
      exact h x ⟨vs, hvalues⟩
    rcases hu : v.unwrapI64 with p | x
    · exact .inr ⟨.inr ⟨v, vs, rfl, hv⟩, p, by simp [hu]⟩
    · exact absurd (unwrapI64_ok_iff.mp hu) (hv x)

/-- **A call panics exactly at these answers.** -/
theorem callValues_isOk_iff : (∃ out, r.callValues decodeResult decode answer = .ok out) ↔
    ¬ CallPanics decodeResult answer := by
  by_cases hret : ∃ x, Returns answer x
  · obtain ⟨x, hx⟩ := hret
    rw [callValues_of_returns hx, call_isOk_iff]
    constructor
    · rintro ⟨hlen, hfin⟩ hp
      cases hp with
      | noValue h =>
        obtain ⟨vs, hvs⟩ := hx
        rw [h] at hvs
        simp at hvs
      | notI64 h hv =>
        obtain ⟨vs, hvs⟩ := hx
        rw [h] at hvs
        exact hv x (List.cons.inj (Except.ok.inj hvs)).1
      | resultLen h hneg =>
        rw [h.unique hx] at hneg
        exact absurd hneg (Int32.not_lt.mpr hlen)
      | finishedLen h hneg =>
        obtain ⟨hy, hsaid⟩ := h
        rw [hy.unique hx] at hsaid
        exact absurd hneg (Int32.not_lt.mpr (hfin _ hsaid))
    · intro hp
      refine ⟨?_, fun ptr hsaid => ?_⟩
      · by_contra hneg
        exact hp (.resultLen hx (Int32.not_le.mp hneg))
      · by_contra hneg
        exact hp (.finishedLen ⟨hx, hsaid⟩ (Int32.not_le.mp hneg))
  · have hno : ∀ x, ¬ Returns answer x := fun x hx => hret ⟨x, hx⟩
    obtain ⟨trap, htrap, hok⟩ | ⟨hvalues, p, hp⟩ :=
      @callValues_of_not_returns _ _ _ decodeResult decode r answer hno
    · refine iff_of_true ⟨_, hok⟩ fun hp => ?_
      cases hp with
      | noValue h => simp [htrap] at h
      | notI64 h hv => simp [htrap] at h
      | resultLen h _ => exact hno _ h
      | finishedLen h _ => exact hno _ h.1
    · refine iff_of_false (by simp [hp]) (not_not_intro ?_)
      rcases hvalues with h | ⟨v, vs, h, hv⟩
      · exact .noValue h
      · exact .notI64 h hv

/-- Only a call of the integer that is returned ends well. -/
theorem callValues_ok_iff {state : ExecState M} :
    r.callValues decodeResult decode answer = .ok (.ok state, r') ↔ ∃ x, Returns answer x ∧
      r.call decodeResult decode answer.2 (.ok x) = .ok (.ok state, r') := by
  constructor
  · intro h
    by_cases hret : ∃ x, Returns answer x
    · obtain ⟨x, hx⟩ := hret
      rw [callValues_of_returns hx] at h
      exact ⟨x, hx, h⟩
    · have hno : ∀ x, ¬ Returns answer x := fun x hx => hret ⟨x, hx⟩
      obtain ⟨trap, -, hok⟩ | ⟨-, p, hp⟩ :=
        @callValues_of_not_returns _ _ _ decodeResult decode r answer hno
      · rw [hok] at h
        simp at h
      · rw [hp] at h
        simp at h
  · rintro ⟨x, hx, h⟩
    rw [callValues_of_returns hx, h]

/-- The guest's answer is a host call. -/
theorem callValues_continue_iff {c : HostCall} :
    r.callValues decodeResult decode answer = .ok (.ok (.continue c), r') ↔
      ∃ x, Presents decodeResult answer x (.hostCall c) ∧
        r' = ⟨answer.2, r.ptr.join (.ofI64 x)⟩ := by
  unfold Presents
  simp only [callValues_ok_iff, call_continue_iff, and_assoc]

/-- The guest's answer says that it is finished. -/
theorem callValues_finished_iff {m : M} :
    r.callValues decodeResult decode answer = .ok (.ok (.finished m), r') ↔
      ∃ x ptr, Presents decodeResult answer x (.finished (some ptr)) ∧
        Says decode answer.2 (.ofMemorySlice ptr) m ∧
        r' = ⟨answer.2, (r.ptr.join (.ofI64 x)).join (.ofMemorySlice ptr)⟩ := by
  unfold Presents
  simp only [callValues_ok_iff, call_finished_iff, and_assoc, exists_and_left]

end Calls

/-! ### The two calls -/

section

variable (s : FaceServer I D) (module : WasmModule Mem)

/-- The continuation answers in a way at which the call panics, or with another host call. -/
def FinishPanics (used : WasmPointer) (mem : Mem) (call : HostCall) (resp : List UInt8) : Prop :=
  ∃ memory name, LinearMemory.write mem (offset used.next) resp = .ok memory ∧
    call.cont = some name ∧
    (CallPanics s.decodeResult (module.run name
        [.i32 used.next, .i32 (Int32.ofNat resp.length)] memory) ∨
      ∃ x c, Presents s.decodeResult (module.run name
        [.i32 used.next, .i32 (Int32.ofNat resp.length)] memory) x (.hostCall c))

/-- The parameters have a negative length, or the continuation goes wrong. -/
def InferPanics (used : WasmPointer) (mem : Mem) (call : HostCall) : Prop :=
  ∃ param, call.parameters = some param ∧ ((WasmPointer.ofMemorySlice param).len < 0 ∨
    ∃ params resp, Says s.decodeInfer mem (.ofMemorySlice param) params ∧
      s.infer params = .ok resp ∧
      FinishPanics s module (used.join (.ofMemorySlice param)) mem call resp)

/-- `main` answers in a way at which the call panics, or is finished, or its host call goes
wrong. -/
def MainPanics (used : WasmPointer) (answer : Except String (List Value) × Mem) : Prop :=
  CallPanics s.decodeResult answer ∨
  (∃ x ptr, Presents s.decodeResult answer x (.finished (some ptr)) ∧
    Says s.decodeUnit answer.2 (.ofMemorySlice ptr) ()) ∨
  ∃ x call, Presents s.decodeResult answer x (.hostCall call) ∧
    InferPanics s module (used.join (.ofI64 x)) answer.2 call

/-- The answer of `main`, if the request could be written, goes wrong. -/
def DetectionPanics (msg : List UInt8) : Prop :=
  ∃ memory memory', module.instantiate = .ok memory ∧
    LinearMemory.write memory 0 msg = .ok memory' ∧
    MainPanics s module ⟨0, Int32.ofNat msg.length⟩
      (module.run "main" [.i32 0, .i32 (Int32.ofNat msg.length)] memory')

variable {s module} {wasm : WasmRunner Mem} {call : HostCall} {resp msg : List UInt8}

theorem writeBytes_eq {bytes : List UInt8} : wasm.writeBytes bytes =
    (LinearMemory.write wasm.memory (offset wasm.ptr.next) bytes).map fun memory =>
      (⟨wasm.ptr.next, Int32.ofNat bytes.length⟩,
        ⟨memory, (wasm.ptr.consume (Int32.ofNat bytes.length)).2⟩) := by
  unfold WasmRunner.writeBytes
  dsimp only
  rcases LinearMemory.write wasm.memory (offset wasm.ptr.next) bytes with e | memory
  · rfl
  · rfl

/-- The request is written to the start of the memory. -/
theorem writeBytes_start {memory : Mem} : WasmRunner.writeBytes ⟨memory, ⟨0, 0⟩⟩ msg =
    (LinearMemory.write memory 0 msg).map fun memory' =>
      (⟨0, Int32.ofNat msg.length⟩, ⟨memory', ⟨0, Int32.ofNat msg.length⟩⟩) := by
  have hnext : WasmPointer.next ⟨0, 0⟩ = 0 := rfl
  have hoffset : offset 0 = 0 := rfl
  have hused : (WasmPointer.consume ⟨0, 0⟩ (Int32.ofNat msg.length)).2 =
      ⟨0, Int32.ofNat msg.length⟩ := by
    unfold WasmPointer.consume
    rw [Int32.zero_add]
  rw [writeBytes_eq, hnext, hoffset, hused]

omit [LinearMemory Mem] in
theorem finishAnswer_isOk_iff
    {answer : Except Panic (Except CallError (ExecState D) × WasmRunner Mem)} :
    (∃ out, s.finishAnswer answer = .ok out) ↔
      (∃ out, answer = .ok out) ∧ ∀ c r', answer ≠ .ok (.ok (.continue c), r') := by
  unfold FaceServer.finishAnswer
  rcases answer with p | ⟨e | m | c, r⟩
  · simp
  · simp
  · simp [ExecState.unwrapFinished, Except.map]
  · simp [ExecState.unwrapFinished, Except.map]

theorem mainAnswer_isOk_iff
    {answer : Except Panic (Except CallError (ExecState Unit) × WasmRunner Mem)} :
    (∃ out, s.mainAnswer module answer = .ok out) ↔
      (∃ out, answer = .ok out) ∧ (∀ m r', answer ≠ .ok (.ok (.finished m), r')) ∧
        ∀ c r', answer = .ok (.ok (.continue c), r') →
          ∃ out, s.inferDetection module r' c = .ok out := by
  unfold FaceServer.mainAnswer
  rcases answer with p | ⟨e | m | c, r⟩
  · simp
  · simp
  · simp [ExecState.unwrapContinue]
  · simp [ExecState.unwrapContinue]

theorem finishDetection_isOk_iff : (∃ out, s.finishDetection module wasm call resp = .ok out) ↔
    ¬ FinishPanics s module wasm.ptr wasm.memory call resp := by
  unfold FaceServer.finishDetection FinishPanics
  rw [writeBytes_eq]
  rcases LinearMemory.write wasm.memory (offset wasm.ptr.next) resp with e | memory
  · simp [Except.map]
  · dsimp only [Except.map]
    rcases hcont : call.cont with _ | name
    · simp
    · dsimp only
      rw [finishAnswer_isOk_iff]
      unfold WasmRunner.callExport
      rw [callValues_isOk_iff]
      simp only [ne_eq, callValues_continue_iff, Except.ok.injEq, Option.some.injEq]
      constructor
      · rintro ⟨hcall, hcontinue⟩ ⟨_, _, rfl, rfl, h | ⟨x, c, h⟩⟩
        · exact hcall h
        · exact hcontinue c _ ⟨x, h, rfl⟩
      · intro h
        refine ⟨fun hcall => h ⟨_, _, rfl, rfl, .inl hcall⟩, ?_⟩
        rintro c r' ⟨x, hx, -⟩
        exact h ⟨_, _, rfl, rfl, .inr ⟨x, c, hx⟩⟩

theorem inferDetection_isOk_iff : (∃ out, s.inferDetection module wasm call = .ok out) ↔
    ¬ InferPanics s module wasm.ptr wasm.memory call := by
  unfold FaceServer.inferDetection InferPanics
  rcases hparam : call.parameters with _ | param
  · simp
  · dsimp only
    simp only [Option.some.injEq, exists_eq_left']
    rcases readMessage_cases s.decodeInfer wasm (.ofMemorySlice param) with
      ⟨hlen, p, hp⟩ | ⟨hlen, hnone, e, r₁, he⟩ | ⟨params, hlen, hsaid, hm⟩
    · rw [hp]
      refine iff_of_false (by simp) (not_not_intro (.inl (Int32.not_le.mp hlen)))
    · rw [he]
      refine iff_of_true ⟨_, rfl⟩ ?_
      rintro (h | ⟨params, resp, h, -⟩)
      · exact absurd h (Int32.not_lt.mpr hlen)
      · exact hnone params h
    · rw [hm]
      dsimp only
      rcases hinfer : s.infer params with status | resp
      · refine iff_of_true ⟨_, rfl⟩ ?_
        rintro (h | ⟨params', resp, h, hresp, -⟩)
        · exact absurd h (Int32.not_lt.mpr hlen)
        · rw [hsaid.iff_eq.mp h, hinfer] at hresp
          simp at hresp
      · dsimp only
        rw [finishDetection_isOk_iff, not_iff_not]
        constructor
        · intro h
          exact .inr ⟨params, resp, hsaid, hinfer, h⟩
        · rintro (h | ⟨params', resp', h, hresp, hfin⟩)
          · exact absurd h (Int32.not_lt.mpr hlen)
          · rw [hsaid.iff_eq.mp h, hinfer] at hresp
            obtain rfl := Except.ok.inj hresp
            exact hfin

theorem mainAnswer_callExport_isOk_iff {name : String} {params : List Value} :
    (∃ out, s.mainAnswer module
        (wasm.callExport s.decodeResult s.decodeUnit module name params) = .ok out) ↔
      ¬ MainPanics s module wasm.ptr (module.run name params wasm.memory) := by
  rw [mainAnswer_isOk_iff]
  unfold WasmRunner.callExport MainPanics
  rw [callValues_isOk_iff]
  simp only [ne_eq, callValues_continue_iff, callValues_finished_iff, inferDetection_isOk_iff]
  constructor
  · rintro ⟨hcall, hfinished, hinfer⟩ (h | ⟨x, ptr, h, hsaid⟩ | ⟨x, call, h, hpanics⟩)
    · exact hcall h
    · exact hfinished () _ ⟨x, ptr, h, hsaid, rfl⟩
    · exact hinfer call _ ⟨x, h, rfl⟩ hpanics
  · intro h
    refine ⟨fun hp => h (.inl hp), ?_, ?_⟩
    · rintro u r' ⟨x, ptr, hx, hsaid, -⟩
      exact h (.inr (.inl ⟨x, ptr, hx, hsaid⟩))
    · rintro call r' ⟨x, hx, rfl⟩ hpanics
      exact h (.inr (.inr ⟨x, call, hx, hpanics⟩))

/-- **`run_detection` panics exactly at these answers.** -/
theorem runDetection_isOk_iff : (∃ out, s.runDetection module msg = .ok out) ↔
    ¬ DetectionPanics s module msg := by
  unfold FaceServer.runDetection DetectionPanics
  rcases hinst : module.instantiate with e | memory
  · simp
  · dsimp only
    rw [writeBytes_start]
    rcases hw : LinearMemory.write memory 0 msg with e | memory'
    · simp [hw, Except.map]
    · dsimp only [Except.map]
      rw [mainAnswer_callExport_isOk_iff, not_iff_not]
      constructor
      · intro hmain
        exact ⟨memory, memory', rfl, hw, hmain⟩
      · rintro ⟨_, _, hm, hw', hmain⟩
        obtain rfl := Except.ok.inj hm
        rw [hw] at hw'
        obtain rfl := Except.ok.inj hw'
        exact hmain

end

/-- **What a guest can do to its host**: reading a region panics exactly where its length is
negative, and a call and a detection exactly at the answers above. -/
theorem host_survives_iff (decodeResult : List UInt8 → Except String (Option InvokeResult))
    (decode : List UInt8 → Except String M) (r : WasmRunner Mem) (ptr : WasmPointer)
    (s : FaceServer I D) (module : WasmModule Mem) (name : String) (params : List Value)
    (msg : List UInt8) :
    ((∃ out, r.readBytes ptr = .ok out) ↔ 0 ≤ ptr.len) ∧
    ((∃ out, r.callExport decodeResult decode module name params = .ok out) ↔
      ¬ CallPanics decodeResult (module.run name params r.memory)) ∧
    ((∃ out, s.runDetection module msg = .ok out) ↔ ¬ DetectionPanics s module msg) :=
  ⟨readBytes_isOk_iff, callValues_isOk_iff, runDetection_isOk_iff⟩

end

/-! ### Guests that end their host -/

/-- A finished message, as prost encodes it: its slice is empty. -/
def finishedBytes : List UInt8 := [10, 2, 10, 0]

/-- A server that reads a finished message. -/
def plainServer : FaceServer Unit Unit where
  decodeResult bytes :=
    if bytes = finishedBytes then .ok (some (.finished (some ⟨0, 0⟩))) else .error "decode error"
  decodeUnit _ := .ok ()
  decodeInfer _ := .ok ()
  decodeReply _ := .ok ()
  display _ := "error"
  inner _ := .ok []

/-- A module that returns the values at once, with a finished message in its memory. -/
def returning (values : List Value) : WasmModule Bytes where
  instantiate := .ok (LinearMemory.new 21)
  run _ _ mem := (.ok values, { mem with byte := fun i => finishedBytes.getD i 0 })

/-- No value, a 32-bit integer, a negative length, and a finished message where a host call is
expected. -/
theorem guest_panics :
    (¬ ∃ out, (WasmRunner.compile : WasmRunner Bytes).readBytes ⟨0, -1⟩ = .ok out) ∧
    (¬ ∃ out, plainServer.runDetection (returning []) [] = .ok out) ∧
    (¬ ∃ out, plainServer.runDetection (returning [.i32 4]) [] = .ok out) ∧
    (¬ ∃ out, plainServer.runDetection (returning [.i64 (-1)]) [] = .ok out) ∧
    (¬ ∃ out, plainServer.runDetection (returning [.i64 4]) [] = .ok out) := by
  refine ⟨?_, ?_, ?_, ?_, ?_⟩
  · rintro ⟨out, ⟨⟩⟩
  · rintro ⟨out, ⟨⟩⟩
  · rintro ⟨out, ⟨⟩⟩
  · rintro ⟨out, ⟨⟩⟩
  · rintro ⟨out, ⟨⟩⟩

end Laqista.Wasm
