import Laqista.Face.Messages

/-! # A detection, through the memory of the guest

The host writes the request into a new instance of the module, calls `main`, reads what it asks to
infer, writes the network's reply behind what it believes to be in use, and calls
`get_probability`. `detection` says what this is for, and mentions no memory: the guest's input, the
network, the guest's label.

* `runDetection_eq`: where the messages fit into the memory, the protocol computes exactly this,
  with the same errors.
* `detection_greatest`: so a detection of an image that can be loaded, whose inference succeeds with
  numbers for at most as many classes as there are labels, is a label of a greatest number. -/

namespace Laqista.Face

open Laqista.Lib Laqista.Lib.Wire Laqista.Wasm Laqista.Wasm.Guest

/-- A deployed face application. -/
structure Deployed (Image : Type) where
  wasm : FaceWasm Image
  messages : Messages
  server : AbtsractServer InferRequest InferReply
  traps : Traps
  /-- The texts of the errors of a call. -/
  display : CallError → String

namespace Deployed

variable {Image : Type} (d : Deployed Image)

/-- The host's server. -/
def host : FaceServer InferRequest DetectionReply where
  decodeResult := d.messages.decodeResult
  decodeUnit := d.messages.decodeUnit
  decodeInfer := d.messages.decodeInfer
  decodeReply := d.messages.decodeReply
  display := d.display
  inner request := (d.server.infer request).map d.messages.encodeInferReply

/-! ### What a detection is for -/

/-- The error of a guest, as the host shows it. -/
def guestError (prefixed message : String) : Status :=
  .aborted (prefixed ++ d.display (.text ("Error in WASM function: " ++ message)))

/-- The reply for the network's output. -/
def ending (resp : InferReply) : Except Status DetectionReply :=
  match d.wasm.label resp with
  | .error p =>
    .error (.aborted
      ("Failed to call WebAssembly function (2): " ++ d.display (.text (d.traps.trapped p))))
  | .ok answer => answer.mapError (d.guestError "Failed to call WebAssembly function (2): ")

def detection (request : DetectionRequest) : Except Status DetectionReply :=
  match d.wasm.input request with
  | .error e => .error (d.guestError "Failed to call WebAssembly function: " e)
  | .ok req =>
    match d.server.infer req with
    | .error e => .error (.aborted ("could not run inference: " ++ e))
    | .ok resp => d.ending resp

/-! ### The exits of the two exports -/

/-- How `main` ends. -/
def firstExit (request : DetectionRequest) : Exit :=
  match d.wasm.input request with
  | .ok req => ⟨d.messages.encodeInfer req,
      fun slic => .hostCall ⟨"infer", some "get_probability", slic⟩⟩
  | .error e => ⟨d.messages.encodeUnit (), .error e⟩

/-- How `get_probability` ends. -/
def lastExit (answer : Except String DetectionReply) : Exit :=
  match answer with
  | .ok reply => ⟨d.messages.encodeReply reply, .finished⟩
  | .error e => ⟨d.messages.encodeUnit (), .error e⟩

/-- The host's reply, the guest's result and its reply are decoded as they were encoded. -/
structure Replied (resp : InferReply) : Prop where
  inferReply : d.messages.decodeInferReply (d.messages.encodeInferReply resp) = .ok resp
  last : ∀ answer, d.wasm.label resp = .ok answer → (d.lastExit answer).Decoded d.messages
  reply : ∀ reply, d.wasm.label resp = .ok (.ok reply) →
    d.messages.decodeReply (d.messages.encodeReply reply) = .ok reply

/-- Where the host's reply ends at the latest. -/
def replyStop (request : DetectionRequest) (req : InferRequest) (resp : InferReply) (r : ℕ) : ℕ :=
  (d.messages.encodeRequest request).length + 1 + (d.messages.encodeInfer req).length + r +
    (d.messages.encodeInferReply resp).length

/-- The messages of a detection fit into the memory, the guest's results having at most `r` bytes.
-/
structure Fits (request : DetectionRequest) (r size : ℕ) : Prop where
  bound : size < 2 ^ 31
  first : (d.firstExit request).Fits d.messages (d.messages.encodeRequest request).length r size
  reply : ∀ req resp, d.wasm.input request = .ok req → d.server.infer req = .ok resp →
    d.replyStop request req resp r ≤ size
  last : ∀ req resp answer, d.wasm.input request = .ok req → d.server.infer req = .ok resp →
    d.wasm.label resp = .ok answer →
      (d.lastExit answer).Fits d.messages (d.replyStop request req resp r) r size

/-- The messages of a detection are decoded as they were encoded. -/
structure Exchanged (request : DetectionRequest) : Prop where
  sent : d.messages.decodeRequest (d.messages.encodeRequest request) = .ok request
  first : (d.firstExit request).Decoded d.messages
  infer : ∀ req, d.wasm.input request = .ok req →
    d.messages.decodeInfer (d.messages.encodeInfer req) = .ok req
  last : ∀ req resp, d.wasm.input request = .ok req → d.server.infer req = .ok resp →
    d.Replied resp

variable {d} {Mem : Type} [GrowingMemory Mem] {ptr len : Int32} {mem : Mem}
  {request : DetectionRequest} {resp : InferReply}

theorem firstExit_of_ok {req : InferRequest} (h : d.wasm.input request = .ok req) :
    d.firstExit request = ⟨d.messages.encodeInfer req,
      fun slic => .hostCall ⟨"infer", some "get_probability", slic⟩⟩ := by
  unfold firstExit
  rw [h]

theorem firstExit_of_error {e : String} (h : d.wasm.input request = .error e) :
    d.firstExit request = ⟨d.messages.encodeUnit (), .error e⟩ := by
  unfold firstExit
  rw [h]

theorem main_eq
    (hm : d.messages.decodeRequest (d.messages.encodeRequest request) = .ok request)
    (hread : (setup ptr len).getWhole mem = .ok (d.messages.encodeRequest request)) :
    main d.wasm d.messages ptr len mem = exitWith d.messages.encodeResult (setup ptr len) mem
      (d.firstExit request).payload (d.firstExit request).result := by
  have hrun : run d.wasm d.messages (setup ptr len) mem = .ok (d.wasm.input request) := by
    unfold run readMessage
    rw [hread, ok_bind, hm]
    rfl
  unfold main firstExit
  dsimp only
  rw [hrun, ok_bind]
  rcases d.wasm.input request with e | req
  · rfl
  · rfl

theorem getProbRun_eq (hm : d.Replied resp)
    (hread : (setup ptr len).getWhole mem = .ok (d.messages.encodeInferReply resp)) :
    getProbRun d.wasm d.messages (setup ptr len) mem = d.wasm.label resp := by
  unfold getProbRun
  rw [hread, ok_bind, hm.inferReply]
  rfl

theorem getProbability_eq (hm : d.Replied resp) {answer : Except String DetectionReply}
    (hread : (setup ptr len).getWhole mem = .ok (d.messages.encodeInferReply resp))
    (hlabel : d.wasm.label resp = .ok answer) :
    getProbability d.wasm d.messages ptr len mem = exitWith d.messages.encodeResult (setup ptr len)
      mem (d.lastExit answer).payload (d.lastExit answer).result := by
  unfold getProbability lastExit
  dsimp only
  rw [getProbRun_eq hm hread, hlabel, ok_bind]
  rcases answer with e | reply
  · rfl
  · rfl

theorem getProbability_panic (hm : d.Replied resp) {p : Panic}
    (hread : (setup ptr len).getWhole mem = .ok (d.messages.encodeInferReply resp))
    (hlabel : d.wasm.label resp = .error p) :
    getProbability d.wasm d.messages ptr len mem = .error p := by
  unfold getProbability
  dsimp only
  rw [getProbRun_eq hm hread, hlabel]
  rfl

/-! ### The host's side -/

section Calls

variable {M : Type} (decodeResult : List UInt8 → Except String (Option InvokeResult))
  (decode : List UInt8 → Except String M) (r : WasmRunner Mem) (mem : Mem) (t : Traps)
  {value : Int64} {mem' : Mem}

/-- A call of an export that ends with an error. -/
theorem callValues_error {text : String}
    (h : Says decodeResult mem' (.ofI64 value) (some (.error text))) :
    ∃ r', r.callValues decodeResult decode (answer t mem (.ok (value, mem'))) =
      .ok (.error (.text ("Error in WASM function: " ++ text)), r') := by
  have hread : WasmRunner.readMessage decodeResult { r with memory := mem' } (.ofI64 value) =
      .ok (.ok (some (.error text)), ⟨mem', r.ptr.join (.ofI64 value)⟩) :=
    readMessage_ok_iff.mpr ⟨h, rfl⟩
  exact ⟨_, call_error hread⟩

/-- A call of an export that traps. -/
theorem callValues_trap (p : Panic) :
    ∃ r', r.callValues decodeResult decode (answer t mem (.error p)) =
      .ok (.error (.text (t.trapped p)), r') := ⟨_, rfl⟩

/-- A call of an export that is finished. -/
theorem callValues_finished {slice : MemorySlice} {msg : M}
    (h : Says decodeResult mem' (.ofI64 value) (some (.finished (some slice))))
    (hmsg : Says decode mem' (.ofMemorySlice slice) msg) :
    ∃ r', r.callValues decodeResult decode (answer t mem (.ok (value, mem'))) =
      .ok (.ok (.finished msg), r') :=
  ⟨_, callValues_finished_iff.mpr ⟨value, slice, ⟨⟨[], rfl⟩, h⟩, hmsg, rfl⟩⟩

end Calls

/-- A new instance. -/
theorem sound_instance (hsize : LinearMemory.size mem < 2 ^ 31) :
    (⟨⟨mem, ⟨0, 0⟩⟩, []⟩ : Session Mem).Sound := by
  have h0 : (0 : Int32).toInt = 0 := rfl
  refine ⟨rfl, ⟨le_of_eq h0.symm, le_of_eq h0.symm, ?_⟩, hsize, fun q hq => by cases hq⟩
  exact (zero_add (0 : ℤ)).le.trans (Int.natCast_nonneg _)

/-- What a call of `get_probability` gives, its argument being the host's reply. -/
theorem callExport_last (hm : d.Replied resp) {wasm : WasmRunner Mem} (r : ℕ) (memory : Mem)
    (hptr : 0 ≤ ptr.toInt) (hlen : len.toInt = (d.messages.encodeInferReply resp).length)
    (hsize : LinearMemory.size wasm.memory < 2 ^ 31)
    (hin : ptr.toInt + len.toInt ≤ LinearMemory.size wasm.memory)
    (hread : LinearMemory.read wasm.memory (offset ptr) (d.messages.encodeInferReply resp).length =
      .ok (d.messages.encodeInferReply resp))
    (hlast : ∀ answer, d.wasm.label resp = .ok answer →
      (d.lastExit answer).Fits d.messages (ptr.toInt + len.toInt) r
        (LinearMemory.size wasm.memory)) :
    d.host.finishAnswer (wasm.callExport d.messages.decodeResult d.messages.decodeReply
      (module d.wasm d.messages d.traps memory) "get_probability" [.i32 ptr, .i32 len]) =
        .ok (d.ending resp) := by
  have hwhole : (setup ptr len).getWhole wasm.memory = .ok (d.messages.encodeInferReply resp) :=
    Memory.getWhole_setup hptr hlen (by omega) hread
  have hexport : wasm.callExport d.messages.decodeResult d.messages.decodeReply
      (module d.wasm d.messages d.traps memory) "get_probability" [.i32 ptr, .i32 len] =
        wasm.callValues d.messages.decodeResult d.messages.decodeReply
          (answer d.traps wasm.memory
            (getProbability d.wasm d.messages ptr len wasm.memory)) := rfl
  rw [hexport]
  rcases hlabel : d.wasm.label resp with p | out
  · rw [getProbability_panic hm hwhole hlabel]
    obtain ⟨r', hcall⟩ := callValues_trap d.messages.decodeResult d.messages.decodeReply wasm
      wasm.memory d.traps p
    rw [hcall]
    unfold ending
    rw [hlabel]
    rfl
  · obtain ⟨value, mem', hexit, hresult, hpay, -⟩ :=
      exit_says (hm.last out hlabel) hptr (by omega) hsize (hlast out hlabel)
    rw [getProbability_eq hm hwhole hlabel, hexit]
    unfold ending
    rw [hlabel]
    rcases out with e | reply
    · obtain ⟨r', hcall⟩ := callValues_error d.messages.decodeResult d.messages.decodeReply wasm
        wasm.memory d.traps hresult
      rw [hcall]
      rfl
    · obtain ⟨r', hcall⟩ := callValues_finished d.messages.decodeResult d.messages.decodeReply wasm
        wasm.memory d.traps hresult (hpay _ _ _ (hm.reply reply hlabel))
      rw [hcall]
      rfl

/-- **The reply goes to `get_probability`**, from any state of the host that leaves room. -/
theorem finishDetection_eq (hm : d.Replied resp) {s : Session Mem} (hs : s.Sound)
    {call : HostCall} (hcont : call.cont = some "get_probability") {r stop : ℕ} (memory : Mem)
    (hstop : s.runner.ptr.stop + (d.messages.encodeInferReply resp).length ≤ stop)
    (hroom : stop ≤ LinearMemory.size s.runner.memory)
    (hlast : ∀ answer, d.wasm.label resp = .ok answer →
      (d.lastExit answer).Fits d.messages stop r (LinearMemory.size s.runner.memory)) :
    d.host.finishDetection (module d.wasm d.messages d.traps memory) s.runner call
      (d.messages.encodeInferReply resp) = .ok (d.ending resp) := by
  obtain ⟨⟨ptr, wasm⟩, hw⟩ := writeBytes_isOk hs (d.messages.encodeInferReply resp) (by omega)
  obtain ⟨hstart, hlen, hmem, hwithin, -⟩ := Laqista.Wasm.writeBytes_ok hs hw
  have hsame := LinearMemory.size_write _ _ _ _ hmem
  have hbound := hs.size
  unfold FaceServer.finishDetection
  rw [hw]
  dsimp only
  rw [hcont]
  dsimp only
  refine callExport_last hm r memory hwithin.start hlen (by omega) ?_
    (GrowingMemory.read_back _ _ _ _ hmem) fun answer hlabel => ?_
  · omega
  · rw [hsame]
    exact (hlast answer hlabel).mono (by omega)

/-- The host's pointer after a message was read. -/
theorem sound_read {M : Type} {decode : List UInt8 → Except String M} {msg : M} {s : Session Mem}
    (hs : s.Sound) {p : WasmPointer} (h : Says decode s.runner.memory p msg) :
    (⟨{ s.runner with ptr := s.runner.ptr.join p }, p :: s.regions⟩ : Session Mem).Sound ∧
      (s.runner.ptr.join p).stop ≤ max s.runner.ptr.stop p.stop := by
  obtain ⟨hlen, buffer, hread, -⟩ := h
  have hok : s.runner.readBytes p =
      .ok (.ok (buffer, { s.runner with ptr := s.runner.ptr.join p })) := by
    unfold WasmRunner.readBytes bufferLength
    rw [if_pos hlen, ok_bind, hread]
    rfl
  have hstep : s.step (.read p) =
      some ⟨{ s.runner with ptr := s.runner.ptr.join p }, p :: s.regions⟩ := by
    simp only [Session.step, hok]
  obtain ⟨-, hstop⟩ := stop_readBytes hs hok
  have hused : 0 ≤ s.runner.ptr.stop := by
    rw [hs.stop_eq]
    exact hs.within.len
  refine ⟨Session.sound_step hs hstep, ?_⟩
  dsimp only at hstop
  rw [hstop]
  split_ifs
  · omega
  · omega

/-- **The parameters are read and the network is asked.** -/
theorem inferDetection_eq {s : Session Mem} (hs : s.Sound)
    {slice : MemorySlice} {req : InferRequest} {r : ℕ} (stop : InferReply → ℕ) (memory : Mem)
    (hparams : Says d.messages.decodeInfer s.runner.memory (.ofMemorySlice slice) req)
    (hstop : ∀ resp, d.server.infer req = .ok resp → d.Replied resp ∧
      max s.runner.ptr.stop (WasmPointer.ofMemorySlice slice).stop +
        (d.messages.encodeInferReply resp).length ≤ stop resp ∧
      stop resp ≤ LinearMemory.size s.runner.memory ∧
      ∀ answer, d.wasm.label resp = .ok answer →
        (d.lastExit answer).Fits d.messages (stop resp) r (LinearMemory.size s.runner.memory)) :
    d.host.inferDetection (module d.wasm d.messages d.traps memory) s.runner
      ⟨"infer", some "get_probability", some slice⟩ =
        .ok (((d.server.infer req).mapError fun e =>
          Status.aborted ("could not run inference: " ++ e)).bind d.ending) := by
  obtain ⟨hs', hjoin⟩ := sound_read hs hparams
  have hread : s.runner.readMessage d.host.decodeInfer (.ofMemorySlice slice) =
      .ok (.ok req, { s.runner with ptr := s.runner.ptr.join (.ofMemorySlice slice) }) :=
    readMessage_ok_iff.mpr ⟨hparams, rfl⟩
  unfold FaceServer.inferDetection
  dsimp only
  rw [hread]
  dsimp only
  have hinner : d.host.infer req = ((d.server.infer req).map d.messages.encodeInferReply).mapError
      fun e => Status.aborted ("could not run inference: " ++ e) := rfl
  rw [hinner]
  rcases hinfer : d.server.infer req with e | resp
  · rfl
  · obtain ⟨hm, hle, hroom, hlast⟩ := hstop resp hinfer
    exact finishDetection_eq hm hs' rfl memory (by dsimp only; omega) hroom hlast

/-- The guest runs in the memory that the host has written. -/
theorem sound_guest {s : Session Mem} (hs : s.Sound) {mem' : Mem}
    (h : LinearMemory.size mem' = LinearMemory.size s.runner.memory) :
    (⟨{ s.runner with memory := mem' }, s.regions⟩ : Session Mem).Sound := by
  refine Session.sound_step (a := .guest mem') hs ?_
  unfold Session.step
  exact if_pos ⟨h.ge, h.trans_lt hs.size⟩

/-- `run_detection` from the call of `main`. -/
theorem mainAnswer_eq (hm : d.Exchanged request) {s : Session Mem} (hs : s.Sound) {r : ℕ}
    (memory : Mem) (hfit : d.Fits request r (LinearMemory.size s.runner.memory))
    (hptr : 0 ≤ ptr.toInt) (hlen : 0 ≤ len.toInt)
    (hin : ptr.toInt + len.toInt = (d.messages.encodeRequest request).length)
    (hused : s.runner.ptr.stop = (d.messages.encodeRequest request).length)
    (hwhole : (setup ptr len).getWhole s.runner.memory = .ok (d.messages.encodeRequest request)) :
    d.host.mainAnswer (module d.wasm d.messages d.traps memory)
      (s.runner.callExport d.messages.decodeResult d.messages.decodeUnit
        (module d.wasm d.messages d.traps memory) "main" [.i32 ptr, .i32 len]) =
          .ok (d.detection request) := by
  obtain ⟨hbound, hfirst, hreply, hlast⟩ := hfit
  obtain ⟨value, mem', hexit, hresult, hpay, hpaystop, hresstop, hsame⟩ :=
    exit_says hm.first hptr hlen hs.size (hin ▸ hfirst)
  have hexport : s.runner.callExport d.messages.decodeResult d.messages.decodeUnit
      (module d.wasm d.messages d.traps memory) "main" [.i32 ptr, .i32 len] =
        s.runner.callValues d.messages.decodeResult d.messages.decodeUnit
          (answer d.traps s.runner.memory
            (main d.wasm d.messages ptr len s.runner.memory)) := rfl
  rw [hexport, main_eq hm.sent hwhole, hexit]
  unfold detection
  rcases hinput : d.wasm.input request with e | req
  · rw [firstExit_of_error hinput] at hresult
    obtain ⟨r', hcall⟩ := callValues_error d.messages.decodeResult d.messages.decodeUnit s.runner
      s.runner.memory d.traps hresult
    rw [hcall]
    rfl
  · rw [firstExit_of_ok hinput] at hresult hpay hpaystop hresstop
    have hcall : s.runner.callValues d.messages.decodeResult d.messages.decodeUnit
        (answer d.traps s.runner.memory (.ok (value, mem'))) = .ok (.ok (.continue
          ⟨"infer", some "get_probability", some (Exit.slice _ ptr len)⟩),
          ⟨mem', s.runner.ptr.join (.ofI64 value)⟩) :=
      callValues_continue_iff.mpr ⟨value, ⟨⟨[], rfl⟩, hresult⟩, rfl⟩
    obtain ⟨hs', hjoin⟩ := sound_read (sound_guest hs hsame) hresult
    rw [hcall]
    dsimp only at hpaystop hresstop hjoin
    have hinfer := inferDetection_eq (r := r) hs' (d.replyStop request req · r) memory
      (hpay _ _ _ (hm.infer req hinput)) fun resp hresp => by
        have hle := hreply req resp hinput hresp
        unfold replyStop at hle ⊢
        dsimp only
        refine ⟨hm.last req resp hinput hresp, by omega, by omega, fun answer hlabel => ?_⟩
        rw [hsame]
        exact hlast req resp answer hinput hresp hlabel
    refine hinfer.trans (congrArg Except.ok ?_)
    dsimp only
    rcases d.server.infer req with e | resp
    · rfl
    · rfl

/-- **A detection computes what it is for**: through the memory of a new instance, the reply or the
error is that of the guest's input, the network and the guest's label. The guest's stack, statics
and heap are not in the bytes that are exchanged. -/
theorem runDetection_eq (d : Deployed Image) (mem : Mem) (request : DetectionRequest) (r : ℕ)
    (hm : d.Exchanged request) (hfit : d.Fits request r (LinearMemory.size mem)) :
    d.host.runDetection (module d.wasm d.messages d.traps mem) (d.messages.encodeRequest request) =
      .ok (d.detection request) := by
  have hroom := hfit.first.room
  have hs₀ : (⟨⟨mem, ⟨0, 0⟩⟩, []⟩ : Session Mem).Sound := sound_instance hfit.bound
  have hzero : (⟨⟨mem, ⟨0, 0⟩⟩, []⟩ : Session Mem).runner.ptr.stop = 0 := hs₀.stop_eq
  -- the request is at the start of the memory
  obtain ⟨⟨ptr, wasm⟩, hw⟩ := writeBytes_isOk hs₀ (d.messages.encodeRequest request) (by
    rw [hzero]
    dsimp only
    omega)
  have hs₁ : (⟨wasm, [ptr]⟩ : Session Mem).Sound := Session.sound_step
    (a := .write (d.messages.encodeRequest request)) hs₀ (by simp only [Session.step, hw])
  obtain ⟨hstart, hlen, hmem, hwithin, -, hstop⟩ := Laqista.Wasm.writeBytes_ok hs₀ hw
  have hsame := LinearMemory.size_write _ _ _ _ hmem
  have hptr : ptr.stop = ptr.start.toInt + ptr.len.toInt := rfl
  have hsize := hs₁.size
  unfold FaceServer.runDetection
  dsimp only [module]
  rw [hw]
  dsimp only
  refine mainAnswer_eq hm hs₁ mem (by rw [hsame]; exact hfit) hwithin.start (by omega) (by omega)
    (hstop.trans (by omega)) ?_
  refine Memory.getWhole_setup hwithin.start hlen ?_ (GrowingMemory.read_back _ _ _ _ hmem)
  dsimp only at hsame hsize
  omega

/-- **A detection replies with a greatest class**: of an image that can be loaded, with an inference
whose outputs are numbers, at least one, the reply names a class whose output is greatest; if there
is a label for each class, it is its label. -/
theorem detection_greatest (d : Deployed Image) (request : DetectionRequest) (img : Image)
    (scores : List F32) (hsort : SortsUnstable d.wasm.sortUnstableBy)
    (himg : d.wasm.loadFromMemory request.imagePng = .ok img)
    (hinfer : d.server.infer ⟨d.wasm.tensor (d.wasm.resizeToFill img imageWidth imageHeight)⟩ =
      .ok ⟨scores⟩)
    (hne : scores ≠ []) (hnum : ∀ x ∈ scores, x.key ≠ none) :
    ∃ i x, scores[i]? = some x ∧ (∀ y ∈ scores, y.Le x) ∧
      d.detection request = (d.wasm.named i x).mapError
        (d.guestError "Failed to call WebAssembly function (2): ") ∧
      (scores.length ≤ d.wasm.labels.length →
        ∃ label, d.wasm.labels[i]? = some label ∧ d.detection request = .ok ⟨label, x⟩) := by
  have hgreatest : ∃ i x, scores[i]? = some x ∧ (∀ y ∈ scores, y.Le x) ∧
      d.wasm.label ⟨scores⟩ = .ok (d.wasm.named i x) := FaceWasm.label_greatest hsort hne hnum
  obtain ⟨i, x, hx, hmax, hlabel⟩ := hgreatest
  have hinput := FaceWasm.input_of_load himg
  have hdet : d.detection request = (d.wasm.named i x).mapError
      (d.guestError "Failed to call WebAssembly function (2): ") := by
    unfold detection
    rw [hinput]
    dsimp only
    rw [hinfer]
    dsimp only [ending]
    rw [hlabel]
  refine ⟨i, x, hx, hmax, hdet, fun hle => ?_⟩
  have hi : i < d.wasm.labels.length := (List.getElem?_eq_some_iff.mp hx).1.trans_le hle
  refine ⟨_, List.getElem?_eq_getElem hi, ?_⟩
  rw [hdet]
  unfold FaceWasm.named
  rw [List.getElem?_eq_getElem hi]
  rfl

end Deployed

/-! ### A white pixel -/

/-- An image of one white pixel, as text. -/
def whitePixel : List UInt8 := [80, 53, 32, 49, 32, 49, 32, 50, 53, 53, 10, 255]

/-- Two classes, and a network that finds the second one more probable. -/
def twoClasses : Deployed Unit where
  wasm :=
    { loadFromMemory := fun bs =>
        if bs = whitePixel then .ok () else .error "The image format could not be determined"
      resizeToFill := fun img _ _ => img
      getPixel := fun _ _ _ _ => 255
      labels := ["n01440764 tench, Tinca tinca", "n01443537 goldfish, Carassius auratus"]
      sortUnstableBy := fun cmp l => .ok (sortBy cmp l) }
  messages := wire
  server := ⟨fun _ => .ok (Finmap.singleton squeezenetOutput
    (.f32 [⟨0x3e800000⟩, ⟨0x3f400000⟩]))⟩
  traps := ⟨fun name _ => "Missing export " ++ name, fun _ => "unreachable"⟩
  display := fun e =>
    match e with
    | .memory _ => "memory access out of bounds"
    | .text err => err

/-- The messages on the wire are decoded as they were encoded, unless the probability of the reply
is negative zero. -/
theorem wire_exchanged {Image : Type} {d : Deployed Image} (hd : d.messages = wire)
    {request : DetectionRequest} (h : ∀ req resp reply, d.wasm.input request = .ok req →
      d.server.infer req = .ok resp → d.wasm.label resp = .ok (.ok reply) →
        reply.probability.bits ≠ 0x80000000) : d.Exchanged request := by
  have hresult : ∀ x : Exit, x.Decoded d.messages := by
    intro x slic
    rw [hd]
    exact wire_result _
  refine ⟨by rw [hd]; exact wire_request _, hresult _, fun req _ => by rw [hd]; exact wire_infer _,
    fun req resp hreq hresp => ⟨by rw [hd]; exact wire_inferReply _, fun _ _ => hresult _,
      fun reply hreply => ?_⟩⟩
  rw [hd]
  exact wire_reply (h req resp reply hreq hresp hreply)

theorem twoClasses_infer (req : InferRequest) :
    twoClasses.server.infer req = .ok ⟨[⟨0x3e800000⟩, ⟨0x3f400000⟩]⟩ := by
  unfold AbtsractServer.infer TryFromOutputs.tryFrom
  show (do
    let output ← (Except.ok (Finmap.singleton squeezenetOutput _) : Except String Outputs)
    _) = _
  rw [ok_bind]
  dsimp only [instTryFromOutputsInferReply]
  rw [Finmap.lookup_singleton_eq]
  rfl

/-- The class is one of the two. -/
theorem twoClasses_label {answer : Except String DetectionReply}
    (h : twoClasses.wasm.label ⟨[⟨0x3e800000⟩, ⟨0x3f400000⟩]⟩ = .ok answer) :
    answer = .ok ⟨"n01440764 tench, Tinca tinca", ⟨0x3e800000⟩⟩ ∨
      answer = .ok ⟨"n01443537 goldfish, Carassius auratus", ⟨0x3f400000⟩⟩ := by
  obtain ⟨i, x, hx, rfl⟩ := FaceWasm.label_cases sortBy_sortsUnstable h
  rcases i with _ | _ | i
  · obtain rfl := Option.some.inj hx
    exact .inl rfl
  · obtain rfl := Option.some.inj hx
    exact .inr rfl
  · simp at hx

theorem whitePixel_detected :
    ∃ i x, ([⟨0x3e800000⟩, ⟨0x3f400000⟩] : List F32)[i]? = some x ∧
      (∀ y ∈ ([⟨0x3e800000⟩, ⟨0x3f400000⟩] : List F32), y.Le x) ∧
      twoClasses.detection ⟨whitePixel⟩ = (twoClasses.wasm.named i x).mapError
        (twoClasses.guestError "Failed to call WebAssembly function (2): ") ∧
      (2 ≤ twoClasses.wasm.labels.length →
        ∃ label, twoClasses.wasm.labels[i]? = some label ∧
          twoClasses.detection ⟨whitePixel⟩ = .ok ⟨label, x⟩) :=
  twoClasses.detection_greatest ⟨whitePixel⟩ () _ sortBy_sortsUnstable rfl (twoClasses_infer _)
    (by decide) (by decide)

/-- The messages fit into the memory of a new instance. -/
theorem twoClasses_fits : twoClasses.Fits ⟨whitePixel⟩ 200 (21 * 65536) := by
  have hload : twoClasses.wasm.loadFromMemory whitePixel = .ok () := by
    dsimp only [twoClasses]
    exact if_pos rfl
  obtain ⟨req, hinput⟩ : ∃ req, twoClasses.wasm.input ⟨whitePixel⟩ = .ok req :=
    ⟨_, FaceWasm.input_of_load hload⟩
  have hlen := FaceWasm.length_input hinput
  have hpixels : imageWidth * imageHeight = 50176 := rfl
  have hinfer : (twoClasses.messages.encodeInfer req).length ≤ 20 + 4 * req.data.length :=
    length_infer (by omega)
  have hrequest : (twoClasses.messages.encodeRequest ⟨whitePixel⟩).length = 14 := by decide +kernel
  have hreply : (twoClasses.messages.encodeInferReply ⟨[⟨0x3e800000⟩, ⟨0x3f400000⟩]⟩).length = 10 :=
    by decide +kernel
  have hstop : ∀ resp, twoClasses.server.infer req = .ok resp →
      twoClasses.replyStop ⟨whitePixel⟩ req resp 200 ≤ 700225 := by
    intro resp hresp
    rw [twoClasses_infer] at hresp
    obtain rfl := Except.ok.inj hresp
    unfold Deployed.replyStop
    omega
  have hreq : ∀ req', twoClasses.wasm.input ⟨whitePixel⟩ = .ok req' → req' = req := by
    intro req' h
    rw [hinput] at h
    exact (Except.ok.inj h).symm
  refine ⟨by omega, ?_, fun req' resp h hresp => ?_, fun req' resp answer h hresp hanswer => ?_⟩
  · rw [Deployed.firstExit_of_ok hinput, hrequest]
    refine ⟨fun slic => (length_hostCall slic (by decide +kernel)).trans (by omega), ?_⟩
    dsimp only
    omega
  · obtain rfl := hreq req' h
    have hle := hstop resp hresp
    omega
  · obtain rfl := hreq req' h
    have hle := hstop resp hresp
    rw [twoClasses_infer] at hresp
    obtain rfl := Except.ok.inj hresp
    have hpayload : ∀ reply, answer = .ok reply →
        (twoClasses.messages.encodeReply reply).length ≤ 100 →
          (twoClasses.lastExit answer).Fits twoClasses.messages
            (twoClasses.replyStop ⟨whitePixel⟩ req' ⟨[⟨0x3e800000⟩, ⟨0x3f400000⟩]⟩ 200) 200
            (21 * 65536) := by
      rintro reply rfl hsmall
      refine ⟨fun slic => (length_finished slic).trans (by omega), ?_⟩
      unfold Deployed.lastExit
      dsimp only
      omega
    rcases twoClasses_label hanswer with h | h
    · exact hpayload _ h (by decide +kernel)
    · exact hpayload _ h (by decide +kernel)

theorem twoClasses_exchanged : twoClasses.Exchanged ⟨whitePixel⟩ := by
  refine wire_exchanged rfl fun req resp reply _ hresp hreply => ?_
  rw [twoClasses_infer] at hresp
  obtain rfl := Except.ok.inj hresp
  rcases twoClasses_label hreply with h | h
  · obtain rfl := Except.ok.inj h
    decide
  · obtain rfl := Except.ok.inj h
    decide

theorem whitePixel_runDetection :
    twoClasses.host.runDetection (module twoClasses.wasm twoClasses.messages twoClasses.traps
      (LinearMemory.new 21 : Pages)) (twoClasses.messages.encodeRequest ⟨whitePixel⟩) =
        .ok (twoClasses.detection ⟨whitePixel⟩) :=
  twoClasses.runDetection_eq (LinearMemory.new 21 : Pages) ⟨whitePixel⟩ 200 twoClasses_exchanged (by
    rw [LinearMemory.size_new]
    exact twoClasses_fits)

end Laqista.Face
