import Laqista.Face.Guest
import Laqista.Lib.Wire

/-! # The messages of a detection on the wire

`wire` encodes the messages of `host.proto` and `face.proto`: a field with its default value is left
out, and so is a probability of negative zero. What is encoded is decoded again, the probability up
to the sign of zero. -/

namespace Laqista.Face

open Laqista.Lib Laqista.Lib.Wire Laqista.Wasm Laqista.Wasm.Guest

/-! ### Fields -/

def uint (k n : ℕ) : List Field := if n = 0 then [] else [(k, .varint n)]

def text (k : ℕ) (s : String) : List Field :=
  if s = "" then [] else [(k, .bytes (Protobuf.utf8 s))]

def nested (k : ℕ) (o : Option (List Field)) : List Field :=
  o.elim [] fun fs => [(k, .bytes (message fs))]

/-- `DecodeError`. -/
def invalid : String := "failed to decode Protobuf message"

def fields (bs : List UInt8) : Except String (List Field) :=
  (Wire.readMessage bs).elim (.error invalid) .ok

def getUint (k : ℕ) (fs : List Field) : Except String ℕ :=
  match last k fs with
  | none => .ok 0
  | some (.varint n) => .ok n
  | some _ => .error invalid

def getText (k : ℕ) (fs : List Field) : Except String String :=
  match last k fs with
  | none => .ok ""
  | some (.bytes bs) => (Protobuf.readUtf8 bs).elim (.error invalid) .ok
  | some _ => .error invalid

/-- A message in a field, if there is one. -/
def getNested {M : Type} (k : ℕ) (get : List Field → Except String M) (fs : List Field) :
    Except String (Option M) :=
  match last k fs with
  | none => .ok none
  | some (.bytes bs) => do return some (← get (← fields bs))
  | some _ => .error invalid

theorem fields_message (fs : List Field) : fields (message fs) = .ok fs := by
  unfold fields
  rw [Wire.readMessage_message]
  rfl

theorem last_append (k : ℕ) (fs gs : List Field) :
    last k (fs ++ gs) = (last k gs).or (last k fs) := by
  unfold last
  rw [List.filter_append, List.getLast?_append]
  cases (gs.filter fun f => f.1 = k).getLast? <;> rfl

theorem last_uint (k j n : ℕ) :
    last k (uint j n) = if j = k ∧ n ≠ 0 then some (.varint n) else none := by
  unfold last uint
  by_cases hn : n = 0
  · simp [hn]
  · by_cases hj : j = k
    · simp [hn, hj]
    · simp [hn, hj]

theorem last_text (k j : ℕ) (s : String) :
    last k (text j s) = if j = k ∧ s ≠ "" then some (.bytes (Protobuf.utf8 s)) else none := by
  unfold last text
  by_cases hs : s = ""
  · simp [hs]
  · by_cases hj : j = k
    · simp [hs, hj]
    · simp [hs, hj]

theorem last_nested (k j : ℕ) (o : Option (List Field)) :
    last k (nested j o) = if j = k then o.map fun fs => .bytes (message fs) else none := by
  unfold last nested
  rcases o with _ | fs
  · simp
  · by_cases hj : j = k
    · simp [hj]
    · simp [hj]

/-! ### Slices and results -/

def sliceFields (s : MemorySlice) : List Field := uint 1 s.start.toNat ++ uint 2 s.len.toNat

def getSlice (fs : List Field) : Except String MemorySlice := do
  return ⟨.ofNat (← getUint 1 fs), .ofNat (← getUint 2 fs)⟩

def resultFields : Guest.Result → List Field
  | .finished ptr => [(1, .bytes (message (nested 1 (ptr.map sliceFields))))]
  | .hostCall call => [(2, .bytes (message (text 1 call.name ++
      nested 2 (call.cont.map (text 1)) ++ nested 3 (call.parameters.map sliceFields))))]
  | .error msg details => [(3, .bytes (message (text 1 msg ++
      nested 2 (details.map sliceFields))))]

def getCall (fs : List Field) : Except String HostCall := do
  return ⟨← getText 1 fs, ← getNested 2 (getText 1) fs, ← getNested 3 getSlice fs⟩

/-- The variant of the last field that is one. -/
def getResult (fs : List Field) : Except String (Option InvokeResult) :=
  match (fs.filter fun f => 1 ≤ f.1 ∧ f.1 ≤ 3).getLast? with
  | none => .ok none
  | some (1, .bytes bs) => do return some (.finished (← getNested 1 getSlice (← fields bs)))
  | some (2, .bytes bs) => do return some (.hostCall (← getCall (← fields bs)))
  | some (3, .bytes bs) => do return some (.error (← getText 1 (← fields bs)))
  | some _ => .error invalid

theorem getUint_of_last {k n : ℕ} {fs : List Field}
    (h : last k fs = if n ≠ 0 then some (.varint n) else none) : getUint k fs = .ok n := by
  unfold getUint
  rw [h]
  by_cases hn : n = 0
  · simp [hn]
  · simp [hn]

theorem getText_of_last {k : ℕ} {s : String} {fs : List Field}
    (h : last k fs = if s ≠ "" then some (.bytes (Protobuf.utf8 s)) else none) :
    getText k fs = .ok s := by
  unfold getText
  rw [h]
  by_cases hs : s = ""
  · simp [hs]
  · simp [hs, Protobuf.readUtf8_utf8]

theorem getNested_of_last {M : Type} {k : ℕ} {get : List Field → Except String M}
    {o : Option M} {put : M → List Field} {fs : List Field} (hget : ∀ m, get (put m) = .ok m)
    (h : last k fs = o.map fun m => .bytes (message (put m))) : getNested k get fs = .ok o := by
  unfold getNested
  rw [h]
  rcases o with _ | m
  · rfl
  · simp [fields_message, hget]

theorem getSlice_sliceFields (s : MemorySlice) : getSlice (sliceFields s) = .ok s := by
  have hstart : getUint 1 (sliceFields s) = .ok s.start.toNat := getUint_of_last (by
    simp [sliceFields, last_append, last_uint])
  have hlen : getUint 2 (sliceFields s) = .ok s.len.toNat := getUint_of_last (by
    simp [sliceFields, last_append, last_uint])
  unfold getSlice
  rw [hstart, ok_bind, hlen, ok_bind, UInt64.ofNat_toNat, UInt64.ofNat_toNat]
  rfl

/-- **A result is decoded as the guest has encoded it**, without the details of an error. -/
theorem getResult_resultFields (r : Guest.Result) :
    getResult (resultFields r) = .ok (some r.host) := by
  rcases r with ptr | ⟨name, cont, params⟩ | ⟨msg, details⟩
  · have hptr : getNested 1 getSlice (nested 1 (ptr.map sliceFields)) = .ok ptr :=
      getNested_of_last getSlice_sliceFields (by simp [last_nested, Function.comp_def])
    simp [getResult, resultFields, fields_message, hptr, Guest.Result.host]
  · have hname : getText 1 (text 1 name ++ nested 2 (cont.map (text 1)) ++
        nested 3 (params.map sliceFields)) = .ok name := getText_of_last (by
      simp [last_append, last_nested, last_text])
    have hcont : getNested 2 (getText 1) (text 1 name ++ nested 2 (cont.map (text 1)) ++
        nested 3 (params.map sliceFields)) = .ok cont :=
      getNested_of_last (fun s => (getText_of_last (by simp [last_text]) :
        getText 1 (text 1 s) = .ok s)) (by
        simp [last_append, last_nested, last_text, Function.comp_def])
    have hparams : getNested 3 getSlice (text 1 name ++ nested 2 (cont.map (text 1)) ++
        nested 3 (params.map sliceFields)) = .ok params :=
      getNested_of_last getSlice_sliceFields (by
        simp [last_append, last_nested, last_text, Function.comp_def])
    simp [getResult, resultFields, fields_message, getCall, hname, hcont, hparams,
      Guest.Result.host, -List.append_assoc]
  · have hmsg : getText 1 (text 1 msg ++ nested 2 (details.map sliceFields)) = .ok msg :=
      getText_of_last (by simp [last_append, last_nested, last_text])
    simp [getResult, resultFields, fields_message, hmsg, Guest.Result.host]

/-! ### The messages of the face application -/

/-- A list of numbers, packed. -/
def packed (k : ℕ) (l : List F32) : List Field :=
  if l = [] then [] else [(k, .bytes (l.flatMap fun x => le32 x.bits))]

def unpack : List UInt8 → Except String (List F32)
  | [] => .ok []
  | a :: b :: c :: d :: rest => do return ⟨ofLe32 a b c d⟩ :: (← unpack rest)
  | _ => .error invalid

/-- All numbers under one key. -/
def getPacked (k : ℕ) (fs : List Field) : Except String (List F32) := do
  let parts ← (fs.filter fun f => f.1 = k).mapM fun f =>
    match f.2 with
    | .bytes bs => unpack bs
    | .fixed32 w => .ok [⟨w⟩]
    | .varint _ => .error invalid
  return parts.flatten

def requestFields (r : DetectionRequest) : List Field :=
  if r.imagePng = [] then [] else [(1, .bytes r.imagePng)]

def getRequest (fs : List Field) : Except String DetectionRequest :=
  match last 1 fs with
  | none => .ok ⟨[]⟩
  | some (.bytes bs) => .ok ⟨bs⟩
  | some _ => .error invalid

def replyFields (r : DetectionReply) : List Field :=
  text 1 r.label ++ if r.probability.key = some 0 then [] else [(2, .fixed32 r.probability.bits)]

def getReply (fs : List Field) : Except String DetectionReply := do
  let label ← getText 1 fs
  match last 2 fs with
  | none => return ⟨label, ⟨0⟩⟩
  | some (.fixed32 w) => return ⟨label, ⟨w⟩⟩
  | some _ => .error invalid

/-- The messages on the wire. -/
def wire : Messages where
  encodeResult r := message (resultFields r)
  decodeResult bs := do getResult (← fields bs)
  encodeUnit _ := []
  decodeUnit bs := do
    let _ ← fields bs
    return ()
  encodeRequest r := message (requestFields r)
  decodeRequest bs := do getRequest (← fields bs)
  encodeInfer r := message (packed 1 r.data)
  decodeInfer bs := do return ⟨← getPacked 1 (← fields bs)⟩
  encodeInferReply r := message (packed 1 r.squeezenet0Flatten0Reshape0)
  decodeInferReply bs := do return ⟨← getPacked 1 (← fields bs)⟩
  encodeReply r := message (replyFields r)
  decodeReply bs := do getReply (← fields bs)

theorem unpack_flatMap (l : List F32) : unpack (l.flatMap fun x => le32 x.bits) = .ok l := by
  induction l with
  | nil => rfl
  | cons x l ih =>
    rw [List.flatMap_cons]
    show (unpack (l.flatMap fun x => le32 x.bits) >>= fun rest => pure
      (⟨ofLe32 (.ofNat x.bits.toNat) (.ofNat (x.bits.toNat / 2 ^ 8))
        (.ofNat (x.bits.toNat / 2 ^ 16)) (.ofNat (x.bits.toNat / 2 ^ 24))⟩ :: rest)) = _
    rw [ih, ok_bind, ofLe32_le32]
    rfl

theorem getPacked_packed (k : ℕ) (l : List F32) : getPacked k (packed k l) = .ok l := by
  unfold getPacked packed
  by_cases hl : l = []
  · simp [hl]
  · simp [hl, unpack_flatMap]

theorem getRequest_requestFields (r : DetectionRequest) : getRequest (requestFields r) = .ok r := by
  unfold getRequest requestFields
  by_cases hr : r.imagePng = []
  · simp [hr, last]
    rw [← hr]
  · simp [hr, last]

theorem key_eq_zero_iff (x : F32) : x.key = some 0 ↔ x.bits = 0 ∨ x.bits = 0x80000000 := by
  have hlt := x.bits.toNat_lt
  have hzero : (0 : UInt32).toNat = 0 := rfl
  have hneg : (0x80000000 : UInt32).toNat = 2 ^ 31 := rfl
  rw [← UInt32.toNat_inj, ← UInt32.toNat_inj, hzero, hneg]
  unfold F32.key
  dsimp only
  split_ifs with h₁ h₂
  · refine iff_of_false (by simp) ?_
    omega
  · rw [Option.some.injEq]
    omega
  · rw [Option.some.injEq]
    omega

/-- A reply with another probability than negative zero. -/
theorem getReply_replyFields {r : DetectionReply} (h : r.probability.bits ≠ 0x80000000) :
    getReply (replyFields r) = .ok r := by
  obtain ⟨label, ⟨w⟩⟩ := r
  dsimp only at h
  unfold replyFields
  dsimp only
  by_cases hw : w = 0
  · subst hw
    have hlabel : getText 1 (text 1 label) = .ok label := getText_of_last (by simp [last_text])
    rw [if_pos ((key_eq_zero_iff _).mpr (.inl rfl)), List.append_nil]
    simp [getReply, hlabel, last_text]
  · have hkey : ¬ F32.key ⟨w⟩ = some 0 := by
      rw [key_eq_zero_iff]
      exact fun h' => h'.elim hw h
    have hlast : ∀ k, last k [(2, .fixed32 w)] = if 2 = k then some (.fixed32 w) else none := by
      intro k
      by_cases hk : 2 = k
      · simp [last, hk]
      · simp [last, hk]
    have hlabel : getText 1 (text 1 label ++ [(2, .fixed32 w)]) = .ok label :=
      getText_of_last (by simp [last_append, last_text, hlast])
    rw [if_neg hkey]
    simp [getReply, hlabel, last_append, hlast]

theorem wire_result (r : Guest.Result) :
    wire.decodeResult (wire.encodeResult r) = .ok (some r.host) := by
  show (fields (message (resultFields r)) >>= getResult) = _
  rw [fields_message, ok_bind, getResult_resultFields]

theorem wire_request (r : DetectionRequest) :
    wire.decodeRequest (wire.encodeRequest r) = .ok r := by
  show (fields (message (requestFields r)) >>= getRequest) = _
  rw [fields_message, ok_bind, getRequest_requestFields]

theorem wire_infer (r : InferRequest) : wire.decodeInfer (wire.encodeInfer r) = .ok r := by
  show (fields (message (packed 1 r.data)) >>= fun fs => getPacked 1 fs >>= fun data =>
    pure (InferRequest.mk data)) = _
  rw [fields_message, ok_bind, getPacked_packed]
  rfl

theorem wire_inferReply (r : InferReply) :
    wire.decodeInferReply (wire.encodeInferReply r) = .ok r := by
  show (fields (message (packed 1 r.squeezenet0Flatten0Reshape0)) >>= fun fs =>
    getPacked 1 fs >>= fun data => pure (InferReply.mk data)) = _
  rw [fields_message, ok_bind, getPacked_packed]
  rfl

theorem wire_reply {r : DetectionReply} (h : r.probability.bits ≠ 0x80000000) :
    wire.decodeReply (wire.encodeReply r) = .ok r := by
  show (fields (message (replyFields r)) >>= getReply) = _
  rw [fields_message, ok_bind, getReply_replyFields h]

/-! ### Lengths -/

theorem length_varintWith {fuel n k : ℕ} (h : n < 128 ^ (k + 1)) :
    (Protobuf.varintWith fuel n).length ≤ k + 1 := by
  induction fuel generalizing n k with
  | zero => simp [Protobuf.varintWith]
  | succ fuel ih =>
    by_cases hn : n < 128
    · simp [Protobuf.varintWith, hn]
    · rcases k with _ | k
      · omega
      · have hdiv : n / 128 < 128 ^ (k + 1) := by
          rw [Nat.div_lt_iff_lt_mul (by omega)]
          exact h
        simp only [Protobuf.varintWith, if_neg hn, List.length_cons]
        have hrest := ih hdiv
        omega

/-- A 64-bit number has ten groups of bits at most. -/
theorem length_varint_le {n : ℕ} (h : n < 2 ^ 64) : (Protobuf.varint n).length ≤ 10 :=
  length_varintWith (k := 9) (h.trans_le (by norm_num))

theorem length_encodeField_bytes {k : ℕ} (bs : List UInt8) (hk : 8 * k + 2 < 2 ^ 64)
    (hbs : bs.length < 2 ^ 64) : (encodeField (k, .bytes bs)).length ≤ 20 + bs.length := by
  have htag := length_varint_le hk
  have hlen := length_varint_le hbs
  show (Protobuf.varint (8 * k + 2) ++ (Protobuf.varint bs.length ++ bs)).length ≤ _
  rw [List.length_append, List.length_append]
  omega

theorem length_message_append (fs gs : List Field) :
    (message (fs ++ gs)).length = (message fs).length + (message gs).length := by
  unfold message
  rw [List.flatMap_append, List.length_append]

theorem length_uint {k n : ℕ} (hk : 8 * k < 2 ^ 64) (hn : n < 2 ^ 64) :
    (message (uint k n)).length ≤ 20 := by
  unfold uint
  split_ifs
  · show 0 ≤ 20
    omega
  · have htag := length_varint_le hk
    have hlen := length_varint_le hn
    show (Protobuf.varint (8 * k + 0) ++ Protobuf.varint n ++ []).length ≤ _
    rw [List.append_nil, List.length_append, Nat.add_zero]
    omega

theorem length_slice (s : MemorySlice) : (message (sliceFields s)).length ≤ 40 := by
  have hstart := length_uint (k := 1) (n := s.start.toNat) (by omega) s.start.toNat_lt
  have hlen := length_uint (k := 2) (n := s.len.toNat) (by omega) s.len.toNat_lt
  unfold sliceFields
  rw [length_message_append]
  omega

/-- A slice in a field has sixty bytes at most. -/
theorem length_nested_slice {k : ℕ} (hk : k ≤ 3) (o : Option MemorySlice) :
    (message (nested k (o.map sliceFields))).length ≤ 60 := by
  rcases o with _ | s
  · show 0 ≤ 60
    omega
  · have hslice := length_slice s
    have hfield := length_encodeField_bytes (k := k) (message (sliceFields s)) (by omega)
      (by omega)
    show (encodeField (k, .bytes (message (sliceFields s))) ++ []).length ≤ _
    rw [List.append_nil]
    omega

theorem length_finished (slic : Option MemorySlice) :
    (wire.encodeResult (.finished slic)).length ≤ 80 := by
  have hslice := length_nested_slice (k := 1) (by omega) slic
  have hfield := length_encodeField_bytes (k := 1)
    (message (nested 1 (slic.map sliceFields))) (by omega) (by omega)
  show (encodeField (1, .bytes (message (nested 1 (slic.map sliceFields)))) ++ []).length ≤ _
  rw [List.append_nil]
  omega

theorem length_hostCall {name cont : String} (slic : Option MemorySlice)
    (h : (message (text 1 name ++ nested 2 (some (text 1 cont)))).length ≤ 100) :
    (wire.encodeResult (.hostCall ⟨name, some cont, slic⟩)).length ≤ 180 := by
  have hslice := length_nested_slice (k := 3) (by omega) slic
  have hsum := length_message_append (text 1 name ++ nested 2 (some (text 1 cont)))
    (nested 3 (slic.map sliceFields))
  have hfield := length_encodeField_bytes (k := 2) (message (text 1 name ++
    nested 2 (some (text 1 cont)) ++ nested 3 (slic.map sliceFields))) (by omega) (by omega)
  show (encodeField (2, .bytes (message (text 1 name ++ nested 2 (some (text 1 cont)) ++
    nested 3 (slic.map sliceFields)))) ++ []).length ≤ _
  rw [List.append_nil]
  omega

/-- A packed list has four bytes for each number. -/
theorem length_packed {l : List F32} (h : l.length < 2 ^ 60) :
    (message (packed 1 l)).length ≤ 20 + 4 * l.length := by
  have hbytes : (l.flatMap fun x : F32 => le32 x.bits).length = l.length * 4 :=
    length_flatMap_const fun _ _ => rfl
  unfold packed
  split_ifs
  · exact Nat.zero_le _
  · have hfield := length_encodeField_bytes (k := 1) (l.flatMap fun x => le32 x.bits)
      (by omega) (by omega)
    show (encodeField (1, .bytes (l.flatMap fun x : F32 => le32 x.bits)) ++ []).length ≤ _
    rw [List.append_nil]
    omega

theorem length_infer {r : InferRequest} (h : r.data.length < 2 ^ 60) :
    (wire.encodeInfer r).length ≤ 20 + 4 * r.data.length := length_packed h

end Laqista.Face
