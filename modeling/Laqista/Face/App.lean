import Laqista.Crates
import Laqista.Lib.F32
import Laqista.Lib.Fallible
import Mathlib.Data.Finmap
import Mathlib.Data.List.FinRange

/-! # The face application

The guest makes the input of the network from an image, and a reply from the network's output: the
label of the class with the greatest probability. The network itself runs on the host. How images
are loaded and resized, how the network computes and which of two classes that compare as equal is
first after the sort are parameters.

* `input_pixels`: the input has each channel of each pixel at its place, and tells images apart by
  nothing but their colours.
* `label_greatest`: if the outputs are numbers and there is one, the reply is of a class whose
  probability is greatest. -/

namespace Laqista.Face

open Laqista.Lib

/-! ### Inference on the host -/

/-- `wonnx::utils::InputTensor`, of the type that is used. -/
inductive InputTensor where
  | f32 (data : List F32)
  deriving DecidableEq, Repr

/-- `wonnx::utils::OutputTensor`: nothing is read of the other types. -/
inductive OutputTensor where
  | f32 (data : List F32)
  | other
  deriving DecidableEq, Repr

abbrev Inputs := Finmap fun _ : String => InputTensor

abbrev Outputs := Finmap fun _ : String => OutputTensor

inductive OutputsParseError where
  | keyNotFound (key : String)
  | invalidDataType
  deriving DecidableEq, Repr

def OutputsParseError.display : OutputsParseError → String
  | keyNotFound key => "Key not found: " ++ key
  | invalidDataType => "Invalid data type of output"

class AsInputs (I : Type) where
  asInputs : I → Inputs

class TryFromOutputs (O : Type) where
  tryFrom : Outputs → Except OutputsParseError O

/-- `AbtsractServer`, by what its session gives for inputs. -/
structure AbtsractServer (I O : Type) where
  detect : Inputs → Except String Outputs

def AbtsractServer.infer {I O : Type} [AsInputs I] [TryFromOutputs O] (s : AbtsractServer I O)
    (input : I) : Except String O := do
  let output ← s.detect (AsInputs.asInputs input)
  (TryFromOutputs.tryFrom output).mapError OutputsParseError.display

structure DetectionRequest where
  imagePng : List UInt8
  deriving DecidableEq, Repr

structure DetectionReply where
  label : String
  probability : F32
  deriving DecidableEq, Repr

structure InferRequest where
  data : List F32
  deriving DecidableEq, Repr

structure InferReply where
  squeezenet0Flatten0Reshape0 : List F32
  deriving DecidableEq, Repr

instance : AsInputs InferRequest where
  asInputs r := Finmap.singleton "data" (.f32 r.data)

/-- `SQUEEZENET_OUTPUT`. -/
def squeezenetOutput : String := "squeezenet0_flatten0_reshape0"

instance : TryFromOutputs InferReply where
  tryFrom outputs :=
    match outputs.lookup squeezenetOutput with
    | none => .error (.keyNotFound squeezenetOutput)
    | some (.f32 coerced) => .ok ⟨coerced⟩
    | some .other => .error .invalidDataType

/-! ### The guest's own computations -/

/-- What the guest uses of other crates, and the lines of `LABELS`. -/
structure FaceWasm (Image : Type) where
  loadFromMemory : List UInt8 → Except String Image
  resizeToFill : Image → ℕ → ℕ → Image
  /-- The channels of a pixel, with the one for opacity. -/
  getPixel : Image → ℕ → ℕ → Fin 4 → UInt8
  labels : List String
  sortUnstableBy : (ℕ × F32 → ℕ × F32 → Ordering) → List (ℕ × F32) → Except Panic (List (ℕ × F32))

/-- `IMAGE_WIDTH`. -/
def imageWidth : ℕ := 224

/-- `IMAGE_HEIGHT`. -/
def imageHeight : ℕ := 224

/-- The comparison of the sort: the greater probability is first. -/
def byProbability (a b : ℕ × F32) : Ordering := (b.2.partialCmp a.2).getD .eq

namespace FaceWasm

variable {Image : Type} (w : FaceWasm Image)

/-- The array of `run`, in the order in which it lies in the memory: channels of rows of pixels. -/
def tensor (img : Image) : List F32 :=
  (List.finRange 3).flatMap fun c => (List.range imageWidth).flatMap fun j =>
    (List.range imageHeight).map fun i => .ofRatio (w.getPixel img i j c.castSucc).toNat 255

/-- `run`, of a decoded request. -/
def input (request : DetectionRequest) : Except String InferRequest := do
  let img ← (w.loadFromMemory request.imagePng).mapError ("ERR: Failed to load image: " ++ ·)
  let img := w.resizeToFill img imageWidth imageHeight
  return ⟨w.tensor img⟩

/-- The reply with the label of a class. -/
def named (i : ℕ) (prob : F32) : Except String DetectionReply :=
  match w.labels[i]? with
  | some label => .ok ⟨label, prob⟩
  | none => .error ("Insufficient length: want " ++ toString i ++ ", got " ++
      toString w.labels.length)

/-- `get_prob_run`, of a decoded reply. -/
def label (resp : InferReply) : Except Panic (Except String DetectionReply) := do
  let probabilities := resp.squeezenet0Flatten0Reshape0.zipIdx.map Prod.swap
  let probabilities ← w.sortUnstableBy byProbability probabilities
  match probabilities with
  | [] => .error ⟨"index out of bounds: the len is 0 but the index is 0"⟩
  | (i, prob) :: _ => return w.named i prob

end FaceWasm

/-! ### The input -/

/-- An element of a concatenation of lists of one length. -/
theorem getElem?_flatMap {α β : Type} {n : ℕ} {f : α → List β} {l : List α}
    (hf : ∀ a ∈ l, (f a).length = n) {k i : ℕ} (hi : i < n) :
    (l.flatMap f)[k * n + i]? = l[k]?.bind fun a => (f a)[i]? := by
  induction l generalizing k with
  | nil => simp
  | cons a l ih =>
    have ha := hf a (by simp)
    have hl : ∀ b ∈ l, (f b).length = n := fun b hb => hf b (List.mem_cons_of_mem _ hb)
    rw [List.flatMap_cons]
    rcases k with _ | k
    · rw [List.getElem?_append_left (by omega), Nat.zero_mul, Nat.zero_add, List.getElem?_cons_zero,
        Option.bind_some]
    · have hle : (f a).length ≤ (k + 1) * n + i := by
        rw [ha, Nat.succ_mul]
        omega
      have hsub : (k + 1) * n + i - (f a).length = k * n + i := by
        rw [ha, Nat.succ_mul]
        omega
      rw [List.getElem?_append_right hle, hsub, ih hl, List.getElem?_cons_succ]

theorem length_flatMap_const {α β : Type} {n : ℕ} {f : α → List β} {l : List α}
    (hf : ∀ a ∈ l, (f a).length = n) : (l.flatMap f).length = l.length * n := by
  rw [List.length_flatMap, List.map_congr_left hf, List.map_const', List.sum_replicate_nat]

namespace FaceWasm

variable {Image : Type} {w : FaceWasm Image} {img : Image}

theorem length_tensor : (w.tensor img).length = 3 * (imageWidth * imageHeight) := by
  unfold tensor
  rw [length_flatMap_const (n := imageWidth * imageHeight), List.length_finRange]
  intro c _
  rw [length_flatMap_const (n := imageHeight), List.length_range]
  simp

/-- **The value of a channel of the pixel in column `i` and row `j`** is at its place. -/
theorem getElem_tensor (c : Fin 3) {i j : ℕ} (hj : j < imageWidth) (hi : i < imageHeight) :
    (w.tensor img)[(c * imageWidth + j) * imageHeight + i]? =
      some (.ofRatio (w.getPixel img i j c.castSucc).toNat 255) := by
  have hrow : ∀ c : Fin 3, ∀ j ∈ List.range imageWidth, ((List.range imageHeight).map fun i =>
      F32.ofRatio (w.getPixel img i j c.castSucc).toNat 255).length = imageHeight := by
    intro c j _
    simp
  have hplane : ∀ c ∈ List.finRange 3, ((List.range imageWidth).flatMap fun j =>
      (List.range imageHeight).map fun i =>
        F32.ofRatio (w.getPixel img i j c.castSucc).toNat 255).length =
          imageWidth * imageHeight := by
    intro c _
    rw [length_flatMap_const (hrow c), List.length_range]
  have hlt : j * imageHeight + i < imageWidth * imageHeight := by
    have hsucc : (j + 1) * imageHeight ≤ imageWidth * imageHeight := Nat.mul_le_mul_right _ hj
    rw [Nat.succ_mul] at hsucc
    omega
  have hplace : (c * imageWidth + j) * imageHeight + i =
      c * (imageWidth * imageHeight) + (j * imageHeight + i) := by
    rw [Nat.add_mul, Nat.mul_assoc, Nat.add_assoc]
  unfold tensor
  rw [hplace, getElem?_flatMap hplane hlt, List.getElem?_eq_getElem (by simp)]
  simp only [List.getElem_finRange, Option.bind_some]
  rw [getElem?_flatMap (hrow _) hi, List.getElem?_range hj]
  simp [hi]

/-- **Two images have one input** if and only if their pixels have the same colours. -/
theorem tensor_eq_iff {img' : Image} : w.tensor img = w.tensor img' ↔
    ∀ (c : Fin 3) (i j : ℕ), i < imageHeight → j < imageWidth →
      w.getPixel img i j c.castSucc = w.getPixel img' i j c.castSucc := by
  constructor
  · intro h c i j hi hj
    have hplace : ∀ img, (w.tensor img)[(c * imageWidth + j) * imageHeight + i]? =
        some (.ofRatio (w.getPixel img i j c.castSucc).toNat 255) :=
      fun img => getElem_tensor c hj hi
    have hsame := hplace img
    rw [h, hplace img'] at hsame
    have hvalue := Option.some.inj hsame
    have hlt := (w.getPixel img i j c.castSucc).toNat_lt
    have hlt' := (w.getPixel img' i j c.castSucc).toNat_lt
    have hnat : (w.getPixel img' i j c.castSucc).toNat = (w.getPixel img i j c.castSucc).toNat :=
      F32.ofRatio_inj hlt' hlt hvalue
    exact (UInt8.toNat_inj.mp hnat).symm
  · intro h
    unfold tensor
    refine List.flatMap_congr fun c _ => List.flatMap_congr fun j hj =>
      List.map_congr_left fun i hi => ?_
    rw [h c i j (List.mem_range.mp hi) (List.mem_range.mp hj)]

/-- An image that can be loaded is the network's input. -/
theorem input_of_load {request : DetectionRequest}
    (h : w.loadFromMemory request.imagePng = .ok img) :
    w.input request = .ok ⟨w.tensor (w.resizeToFill img imageWidth imageHeight)⟩ := by
  unfold input
  rw [h]
  rfl

/-- **The network sees the colours of the pixels**, each channel of each pixel at its place, and
nothing else of the image: two requests have the same input if and only if their images have the
same colours after they were resized. -/
theorem input_pixels {request request' : DetectionRequest} {img' : Image}
    (h : w.loadFromMemory request.imagePng = .ok img)
    (h' : w.loadFromMemory request'.imagePng = .ok img') :
    (∃ req, w.input request = .ok req ∧ req.data.length = 3 * (imageWidth * imageHeight) ∧
      ∀ (c : Fin 3) (i j : ℕ), i < imageHeight → j < imageWidth →
        req.data[(c * imageWidth + j) * imageHeight + i]? = some (.ofRatio
          (w.getPixel (w.resizeToFill img imageWidth imageHeight) i j c.castSucc).toNat 255)) ∧
    (w.input request = w.input request' ↔
      ∀ (c : Fin 3) (i j : ℕ), i < imageHeight → j < imageWidth →
        w.getPixel (w.resizeToFill img imageWidth imageHeight) i j c.castSucc =
          w.getPixel (w.resizeToFill img' imageWidth imageHeight) i j c.castSucc) := by
  refine ⟨⟨_, input_of_load h, length_tensor, fun c i j hi hj => getElem_tensor c hj hi⟩, ?_⟩
  rw [input_of_load h, input_of_load h', Except.ok.injEq, InferRequest.mk.injEq]
  exact tensor_eq_iff

theorem length_input {request : DetectionRequest} {req : InferRequest}
    (h : w.input request = .ok req) : req.data.length = 3 * (imageWidth * imageHeight) := by
  obtain ⟨img, -, h⟩ := bind_eq_ok.mp h
  obtain rfl := Except.ok.inj h
  exact length_tensor

end FaceWasm

/-- Images that already have the size of the input: a gradient of greys, and one pixel of which the
image file says how red it is. -/
def gradients : FaceWasm (ℕ → ℕ → Fin 4 → UInt8) where
  loadFromMemory bs :=
    match bs with
    | [column, row, red] => .ok fun i j c =>
      if c = 3 then 255
      else if c = 0 ∧ i = column.toNat ∧ j = row.toNat then red
      else .ofNat (i + j)
    | _ => .error "The image format could not be determined"
  resizeToFill img _ _ := img
  getPixel img i j c := img i j c
  labels := []
  sortUnstableBy _ l := .ok l

/-- Two images that differ in one channel of one pixel are told apart, and the channel is at its
place. -/
theorem gradients_differ : ∃ req, gradients.input ⟨[3, 200, 7]⟩ = .ok req ∧
    req.data[(0 * imageWidth + 200) * imageHeight + 3]? = some (.ofRatio 7 255) ∧
    gradients.input ⟨[3, 200, 7]⟩ ≠ gradients.input ⟨[3, 200, 8]⟩ := by
  obtain ⟨⟨req, hreq, -, hplace⟩, hsame⟩ :=
    @FaceWasm.input_pixels _ gradients _ ⟨[3, 200, 7]⟩ ⟨[3, 200, 8]⟩ _ rfl rfl
  refine ⟨req, hreq, hplace 0 3 200 (by decide) (by decide), fun h => ?_⟩
  have hred : (7 : UInt8) = 8 := hsame.mp h 0 3 200 (by decide) (by decide)
  exact absurd hred (by decide)

namespace FaceWasm

variable {Image : Type} {w : FaceWasm Image}

/-! ### The reply -/

variable {resp : InferReply}

/-- The pairs that are sorted are the classes with their probabilities. -/
theorem mem_enumerate {l : List F32} {p : ℕ × F32} :
    p ∈ l.zipIdx.map Prod.swap ↔ l[p.1]? = some p.2 := by
  rw [List.mem_map]
  constructor
  · rintro ⟨⟨x, i⟩, hmem, rfl⟩
    exact List.mem_zipIdx_iff_getElem?.mp hmem
  · intro h
    exact ⟨(p.2, p.1), List.mem_zipIdx_iff_getElem?.mpr h, rfl⟩

/-- A reply is of one of the classes. -/
theorem label_cases (hsort : SortsUnstable w.sortUnstableBy) {out : Except String DetectionReply}
    (h : w.label resp = .ok out) :
    ∃ i x, resp.squeezenet0Flatten0Reshape0[i]? = some x ∧ out = w.named i x := by
  obtain ⟨l, hl, h⟩ := bind_eq_ok.mp h
  have hperm := hsort.perm _ _ _ hl
  rcases l with _ | ⟨⟨i, x⟩, l⟩
  · simp at h
  · have hmem : (i, x) ∈ resp.squeezenet0Flatten0Reshape0.zipIdx.map Prod.swap :=
      hperm.mem_iff.mp (by simp)
    exact ⟨i, x, mem_enumerate.mp hmem, (Except.ok.inj h).symm⟩

/-- **The reply is of a class whose probability is greatest.** -/
theorem label_greatest (hsort : SortsUnstable w.sortUnstableBy)
    (hne : resp.squeezenet0Flatten0Reshape0 ≠ [])
    (hnum : ∀ x ∈ resp.squeezenet0Flatten0Reshape0, x.key ≠ none) :
    ∃ i x, resp.squeezenet0Flatten0Reshape0[i]? = some x ∧
      (∀ y ∈ resp.squeezenet0Flatten0Reshape0, y.Le x) ∧ w.label resp = .ok (w.named i x) := by
  obtain ⟨scores⟩ := resp
  dsimp only at hne hnum ⊢
  -- the keys of the classes, all of which are numbers
  let key : ℕ × F32 → ℤ := fun p => p.2.key.getD 0
  have hkey : ∀ y ∈ scores, y.key = some (y.key.getD 0) := by
    intro y hy
    obtain ⟨k, hk⟩ := Option.ne_none_iff_exists'.mp (hnum y hy)
    rw [hk]
    rfl
  have hmem : ∀ p ∈ scores.zipIdx.map Prod.swap, p.2 ∈ scores := by
    intro p hp
    exact List.mem_of_getElem? (mem_enumerate.mp hp)
  have hcmp : ∀ a ∈ scores.zipIdx.map Prod.swap, ∀ b ∈ scores.zipIdx.map Prod.swap,
      byProbability a b = compare (key b) (key a) := by
    intro a ha b hb
    unfold byProbability
    rw [F32.partialCmp_of_key (hkey _ (hmem b hb)) (hkey _ (hmem a ha))]
    rfl
  obtain ⟨l, hl, hs⟩ := hsort.sorted _ _ (totalOn_of_key key hcmp)
  have hperm := hsort.perm _ _ _ hl
  rcases l with _ | ⟨⟨i, x⟩, l⟩
  · have hnil := hperm.length_eq
    simp only [List.length_nil, List.length_map, List.length_zipIdx] at hnil
    exact absurd (List.eq_nil_of_length_eq_zero hnil.symm) hne
  · have hget := mem_enumerate.mp (hperm.mem_iff.mp (by simp : (i, x) ∈ (i, x) :: l))
    have hmax := head_of_sorted key (fun a ha b hb => hcmp a (hperm.mem_iff.mp ha) b
      (hperm.mem_iff.mp hb)) hs
    refine ⟨i, x, hget, fun y hy => ?_, ?_⟩
    · obtain ⟨j, hj⟩ := List.getElem?_of_mem hy
      have hjm : (j, y) ∈ (i, x) :: l := hperm.mem_iff.mpr (mem_enumerate.mpr hj)
      exact ⟨_, _, hkey y hy, hkey x (List.mem_of_getElem? hget), hmax _ hjm⟩
    · unfold label
      dsimp only
      rw [hl]
      rfl

end FaceWasm

end Laqista.Face
