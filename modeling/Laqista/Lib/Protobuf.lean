import Mathlib.Data.List.GetD
import Mathlib.Logic.Function.Basic
import Mathlib.Tactic.Common
import Mathlib.Tactic.Ring

/-! # Protobuf messages of texts

A message whose fields are texts, numbered from one, is the fields that are not empty, in order: the
number of the field, the length and the bytes in UTF-8. A reader takes the last value of each field,
in any order, and nothing for a field that is missing. Reading undoes writing
(`readMessage_message`). -/

namespace Laqista.Lib.Protobuf

/-- A number in groups of seven bits, the lowest first; all but the last have a high bit. The first
argument bounds the groups. -/
def varintWith : ℕ → ℕ → List UInt8
  | 0, n => [UInt8.ofNat n]
  | fuel + 1, n =>
    if n < 128 then [UInt8.ofNat n]
    else UInt8.ofNat (n % 128 + 128) :: varintWith fuel (n / 128)

def varint (n : ℕ) : List UInt8 := varintWith n n

/-- The number at the beginning, and what follows it. -/
def readVarint : List UInt8 → Option (ℕ × List UInt8)
  | [] => none
  | b :: bs =>
    if b.toNat < 128 then some (b.toNat, bs)
    else (readVarint bs).map fun (n, rest) => (b.toNat - 128 + 128 * n, rest)

theorem readVarint_varintWith {fuel n : ℕ} (h : n < 128 * 2 ^ fuel) (rest : List UInt8) :
    readVarint (varintWith fuel n ++ rest) = some (n, rest) := by
  induction fuel generalizing n with
  | zero =>
    have hn : (UInt8.ofNat n).toNat = n := by
      rw [UInt8.toNat_ofNat']
      omega
    simp only [varintWith, List.cons_append, List.nil_append, readVarint, hn]
    rw [if_pos (by omega)]
  | succ fuel ih =>
    by_cases hlt : n < 128
    · have hn : (UInt8.ofNat n).toNat = n := by
        rw [UInt8.toNat_ofNat']
        omega
      simp only [varintWith, if_pos hlt, List.cons_append, List.nil_append, readVarint, hn]
    · have hn : (UInt8.ofNat (n % 128 + 128)).toNat = n % 128 + 128 := by
        rw [UInt8.toNat_ofNat']
        omega
      have hrest : readVarint (varintWith fuel (n / 128) ++ rest) = some (n / 128, rest) :=
        ih (by omega)
      simp only [varintWith, if_neg hlt, List.cons_append, readVarint, hn, hrest]
      rw [if_neg (by omega), Option.map_some, Option.some.injEq, Prod.mk.injEq]
      exact ⟨by omega, rfl⟩

theorem readVarint_varint (n : ℕ) (rest : List UInt8) :
    readVarint (varint n ++ rest) = some (n, rest) :=
  readVarint_varintWith (by have := Nat.lt_two_pow_self (n := n); omega) rest

/-! ### Fields -/

/-- The bytes of a text. -/
def utf8 (s : String) : List UInt8 := s.toUTF8.data.toList

def readUtf8 (bs : List UInt8) : Option String := String.fromUTF8? ⟨bs.toArray⟩

theorem readUtf8_utf8 (s : String) : readUtf8 (utf8 s) = some s := by
  have hbytes : (⟨(utf8 s).toArray⟩ : ByteArray) = s.toByteArray := rfl
  unfold readUtf8 String.fromUTF8?
  rw [hbytes, dif_pos s.isValidUTF8]
  rfl

/-- The fields that are not empty, with their numbers from `k` on. -/
def present (k : ℕ) : List String → List (ℕ × List UInt8)
  | [] => []
  | s :: ss => if s = "" then present (k + 1) ss else (k, utf8 s) :: present (k + 1) ss

/-- One field of the wire type of texts. -/
def field (f : ℕ × List UInt8) : List UInt8 :=
  varint (8 * f.1 + 2) ++ varint f.2.length ++ f.2

def message (texts : List String) : List UInt8 := (present 1 texts).flatMap field

/-- The field at the beginning, and what follows it. -/
def readField (bs : List UInt8) : Option ((ℕ × List UInt8) × List UInt8) := do
  let (tag, bs) ← readVarint bs
  if tag % 8 = 2 then
    let (len, bs) ← readVarint bs
    if len ≤ bs.length then some ((tag / 8, bs.take len), bs.drop len) else none
  else none

/-- All fields. The first argument bounds their number. -/
def readFields : ℕ → List UInt8 → Option (List (ℕ × List UInt8))
  | _, [] => some []
  | 0, _ :: _ => none
  | fuel + 1, bs => do
    let (f, rest) ← readField bs
    let fs ← readFields fuel rest
    return f :: fs

/-- The last value of each field. -/
def values (fields : List (ℕ × List UInt8)) : ℕ → List UInt8 :=
  fields.foldl (fun m f => Function.update m f.1 f.2) fun _ => []

/-- The first `n` fields of a message. -/
def readMessage (n : ℕ) (bs : List UInt8) : Option (List String) := do
  let fields ← readFields bs.length bs
  (List.range n).mapM fun i => readUtf8 (values fields (i + 1))

theorem readField_field (f : ℕ × List UInt8) (rest : List UInt8) :
    readField (field f ++ rest) = some (f, rest) := by
  have htag := readVarint_varint (8 * f.1 + 2) (varint f.2.length ++ (f.2 ++ rest))
  have hlen := readVarint_varint f.2.length (f.2 ++ rest)
  have hdiv : (8 * f.1 + 2) / 8 = f.1 := by omega
  unfold readField field
  simp only [List.append_assoc, htag, hlen, bind, Option.bind_some]
  rw [if_pos (by omega), if_pos (by simp), hdiv]
  simp

theorem field_ne_nil (f : ℕ × List UInt8) : field f ≠ [] := by
  intro h
  have := readField_field f []
  rw [h] at this
  simp [readField, readVarint] at this

theorem readFields_fields {fuel : ℕ} {fs : List (ℕ × List UInt8)} (h : fs.length ≤ fuel) :
    readFields fuel (fs.flatMap field) = some fs := by
  induction fs generalizing fuel with
  | nil => cases fuel <;> rfl
  | cons f fs ih =>
    obtain ⟨fuel, rfl⟩ : ∃ m, fuel = m + 1 := ⟨fuel - 1, by simp at h; omega⟩
    have hread := readField_field f (fs.flatMap field)
    have hrest : readFields fuel (fs.flatMap field) = some fs := ih (by simpa using h)
    rw [List.flatMap_cons]
    rcases hb : field f ++ fs.flatMap field with _ | ⟨b, bs⟩
    · exact absurd (List.append_eq_nil_iff.mp hb).1 (field_ne_nil f)
    · rw [hb] at hread
      simp only [readFields, hread, hrest, bind, Option.bind_some, pure]

theorem length_le_fields (fs : List (ℕ × List UInt8)) : fs.length ≤ (fs.flatMap field).length := by
  induction fs with
  | nil => simp
  | cons f fs ih =>
    have hpos := List.length_pos_iff.mpr (field_ne_nil f)
    rw [List.flatMap_cons, List.length_append, List.length_cons]
    omega

/-- The values of the fields that are not empty, with the empty ones filled in. -/
theorem values_present (k : ℕ) (texts : List String) (m : ℕ → List UInt8)
    (hm : ∀ j, k ≤ j → m j = []) (j : ℕ) :
    ((present k texts).foldl (fun m f => Function.update m f.1 f.2) m) j =
      if j < k then m j else utf8 (texts.getD (j - k) "") := by
  induction texts generalizing k m with
  | nil =>
    have hnil : utf8 "" = [] := rfl
    by_cases hj : j < k
    · simp [present, hj]
    · simp [present, hj, hm j (by omega), hnil]
  | cons s ss ih =>
    have hnil : utf8 "" = [] := rfl
    by_cases hs : s = ""
    · subst hs
      rw [present, if_pos rfl, ih (k + 1) m fun j hj => hm j (by omega)]
      rcases Nat.lt_trichotomy j k with hj | rfl | hj
      · rw [if_pos hj, if_pos (by omega)]
      · rw [if_pos (by omega), if_neg (by omega), hm j (Nat.le_refl j), Nat.sub_self,
          List.getD_cons_zero, hnil]
      · have hsub : j - k = (j - (k + 1)) + 1 := by omega
        rw [if_neg (by omega), if_neg (by omega), hsub, List.getD_cons_succ]
    · rw [present, if_neg hs, List.foldl_cons, ih (k + 1) _ fun j hj => by
        rw [Function.update_of_ne (by omega)]
        exact hm j (by omega)]
      rcases Nat.lt_trichotomy j k with hj | rfl | hj
      · rw [if_pos hj, if_pos (by omega), Function.update_of_ne (by omega)]
      · rw [if_pos (by omega), if_neg (by omega), Function.update_self, Nat.sub_self,
          List.getD_cons_zero]
      · have hsub : j - k = (j - (k + 1)) + 1 := by omega
        rw [if_neg (by omega), if_neg (by omega), hsub, List.getD_cons_succ]

/-- **Reading a message gives its texts.** -/
theorem readMessage_message (texts : List String) :
    readMessage texts.length (message texts) = some texts := by
  have hfields := readFields_fields (length_le_fields (present 1 texts))
  have hvalue : ∀ i, readUtf8 (values (present 1 texts) (i + 1)) = some (texts.getD i "") := by
    intro i
    unfold values
    rw [values_present 1 texts _ (fun _ _ => rfl), if_neg (by omega), Nat.add_sub_cancel,
      readUtf8_utf8]
  unfold readMessage message
  simp only [hfields, bind, Option.bind_some, hvalue]
  have hmap : ∀ l : List ℕ, l.mapM (fun i => some (texts.getD i "")) =
      some (l.map fun i => texts.getD i "") := by
    intro l
    induction l with
    | nil => rfl
    | cons a l ih =>
      rw [List.mapM_cons, ih]
      rfl
  rw [hmap, Option.some.injEq]
  refine List.ext_getElem (by simp) fun i h₁ h₂ => ?_
  rw [List.getElem_map, List.getElem_range, List.getD_eq_getElem _ _ h₂]

end Laqista.Lib.Protobuf
