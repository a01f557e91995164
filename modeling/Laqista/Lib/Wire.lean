import Laqista.Lib.Protobuf

/-! # Protobuf messages of any fields

A message is a sequence of fields with their numbers. A value is a number in groups of seven bits, a
run of bytes after its length, or four bytes. Reading undoes writing (`readMessage_message`). What a
reader makes of the fields is up to it: most often the last value of a number (`last`). -/

namespace Laqista.Lib.Wire

open Laqista.Lib.Protobuf

inductive Value where
  | varint (n : ℕ)
  | bytes (bs : List UInt8)
  | fixed32 (w : UInt32)
  deriving DecidableEq, Repr

abbrev Field := ℕ × Value

/-- Four bytes, the lowest first. -/
def le32 (w : UInt32) : List UInt8 :=
  [.ofNat w.toNat, .ofNat (w.toNat / 2 ^ 8), .ofNat (w.toNat / 2 ^ 16), .ofNat (w.toNat / 2 ^ 24)]

def ofLe32 (a b c d : UInt8) : UInt32 :=
  .ofNat (a.toNat + 2 ^ 8 * b.toNat + 2 ^ 16 * c.toNat + 2 ^ 24 * d.toNat)

/-- A value with the number of its type. -/
def Value.encode : Value → ℕ × List UInt8
  | varint n => (0, Protobuf.varint n)
  | bytes bs => (2, Protobuf.varint bs.length ++ bs)
  | fixed32 w => (5, le32 w)

def encodeField (f : Field) : List UInt8 := Protobuf.varint (8 * f.1 + f.2.encode.1) ++ f.2.encode.2

def message (fs : List Field) : List UInt8 := fs.flatMap encodeField

/-- The value of the given type at the beginning, and what follows it. -/
def readValue (type : ℕ) (bs : List UInt8) : Option (Value × List UInt8) :=
  match type with
  | 0 => (readVarint bs).map fun (n, rest) => (.varint n, rest)
  | 2 => (readVarint bs).bind fun (len, rest) =>
    if len ≤ rest.length then some (.bytes (rest.take len), rest.drop len) else none
  | 5 =>
    match bs with
    | a :: b :: c :: d :: rest => some (.fixed32 (ofLe32 a b c d), rest)
    | _ => none
  | _ => none

def readField (bs : List UInt8) : Option (Field × List UInt8) := do
  let (tag, bs) ← readVarint bs
  let (value, bs) ← readValue (tag % 8) bs
  return ((tag / 8, value), bs)

/-- All fields. The first argument bounds their number. -/
def readFields : ℕ → List UInt8 → Option (List Field)
  | _, [] => some []
  | 0, _ :: _ => none
  | fuel + 1, bs => do
    let (f, rest) ← readField bs
    let fs ← readFields fuel rest
    return f :: fs

def readMessage (bs : List UInt8) : Option (List Field) := readFields bs.length bs

/-- The last value of a number. -/
def last (k : ℕ) (fs : List Field) : Option Value :=
  ((fs.filter fun f => f.1 = k).getLast?).map Prod.snd

theorem ofLe32_le32 (w : UInt32) : ofLe32 (.ofNat w.toNat) (.ofNat (w.toNat / 2 ^ 8))
    (.ofNat (w.toNat / 2 ^ 16)) (.ofNat (w.toNat / 2 ^ 24)) = w := by
  have hlt := w.toNat_lt
  apply UInt32.toNat_inj.mp
  unfold ofLe32
  simp only [UInt8.toNat_ofNat', UInt32.toNat_ofNat']
  omega

theorem readValue_encode (v : Value) (rest : List UInt8) :
    readValue v.encode.1 (v.encode.2 ++ rest) = some (v, rest) := by
  rcases v with n | bs | w
  · show (readVarint (varint n ++ rest)).map _ = _
    rw [readVarint_varint]
    rfl
  · show (readVarint ((varint bs.length ++ bs) ++ rest)).bind _ = _
    rw [List.append_assoc, readVarint_varint]
    simp
  · show some (Value.fixed32 (ofLe32 _ _ _ _), rest) = _
    rw [ofLe32_le32]

theorem readField_encodeField (f : Field) (rest : List UInt8) :
    readField (encodeField f ++ rest) = some (f, rest) := by
  have htype : f.2.encode.1 < 8 := by
    rcases f.2 with n | bs | w
    · show 0 < 8
      omega
    · show 2 < 8
      omega
    · show 5 < 8
      omega
  have htag := readVarint_varint (8 * f.1 + f.2.encode.1) (f.2.encode.2 ++ rest)
  have hmod : (8 * f.1 + f.2.encode.1) % 8 = f.2.encode.1 := by omega
  have hdiv : (8 * f.1 + f.2.encode.1) / 8 = f.1 := by omega
  unfold readField encodeField
  simp only [List.append_assoc, htag, bind, Option.bind_some, hmod, readValue_encode, hdiv, pure]

theorem encodeField_ne_nil (f : Field) : encodeField f ≠ [] := by
  intro h
  have hread := readField_encodeField f []
  rw [h] at hread
  simp [readField, readVarint] at hread

theorem readFields_message {fuel : ℕ} {fs : List Field} (h : fs.length ≤ fuel) :
    readFields fuel (message fs) = some fs := by
  unfold message
  induction fs generalizing fuel with
  | nil => cases fuel <;> rfl
  | cons f fs ih =>
    obtain ⟨fuel, rfl⟩ : ∃ m, fuel = m + 1 := ⟨fuel - 1, by simp at h; omega⟩
    have hread := readField_encodeField f (fs.flatMap encodeField)
    have hrest : readFields fuel (fs.flatMap encodeField) = some fs := ih (by simpa using h)
    rw [List.flatMap_cons]
    rcases hb : encodeField f ++ fs.flatMap encodeField with _ | ⟨b, bs⟩
    · exact absurd (List.append_eq_nil_iff.mp hb).1 (encodeField_ne_nil f)
    · rw [hb] at hread
      simp only [readFields, hread, hrest, bind, Option.bind_some, pure]

/-- **Reading a message gives its fields.** -/
theorem readMessage_message (fs : List Field) : readMessage (message fs) = some fs := by
  refine readFields_message ?_
  unfold message
  induction fs with
  | nil => simp
  | cons f fs ih =>
    have hpos := List.length_pos_iff.mpr (encodeField_ne_nil f)
    rw [List.flatMap_cons, List.length_append, List.length_cons]
    omega

end Laqista.Lib.Wire
