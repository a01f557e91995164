import Laqista.Lib.Hex
import Mathlib.Data.Fin.Basic

/-! # What the program takes from other crates

A `Uuid` is its 128 bits, compared as a number (the crate compares the bytes from the most
significant one). The crates print and parse; the program only relies on the round trip, which is a
field of `Crates`. A `Status` is a gRPC status, a `Panic` the message of a panic.

`Crates.hyphenated` is an instance with the formats of the uuid crate. -/

namespace Laqista

open Laqista.Lib.Hex

abbrev Uuid := Fin (2 ^ 128)

instance neZeroUuid : NeZero (2 ^ 128) := ⟨by decide⟩

/-- The end of a task by `panic!`, `expect`, `unwrap` or an index out of range. -/
structure Panic where
  message : String
  deriving DecidableEq, Repr

/-- The codes of a gRPC status. -/
inductive Code where
  | ok | cancelled | unknown | invalidArgument | deadlineExceeded | notFound | alreadyExists
  | permissionDenied | resourceExhausted | failedPrecondition | aborted | outOfRange
  | unimplemented | internal | unavailable | dataLoss | unauthenticated
  deriving DecidableEq, Repr

structure Status where
  code : Code
  message : String
  deriving DecidableEq, Repr

def Status.aborted (message : String) : Status := ⟨.aborted, message⟩

/-- `tonic::transport::Error`, by its text. -/
structure TransportError where
  text : String
  deriving DecidableEq, Repr

/-- The functions of the uuid and tonic crates that the program calls. Parsing what was printed
gives the id back. -/
class Crates where
  /-- `Uuid::to_string`. -/
  printUuid : Uuid → String
  /-- `Uuid::parse_str`, with the text of the error. -/
  parseUuid : String → Except String Uuid
  /-- `Display` of a `Status`. -/
  showStatus : Status → String
  parse_print : ∀ u, parseUuid (printUuid u) = .ok u

export Crates (printUuid parseUuid showStatus)

@[simp] theorem parseUuid_printUuid [Crates] (u : Uuid) : parseUuid (printUuid u) = .ok u :=
  Crates.parse_print u

/-- `Uuid::try_parse`: it accepts what `Uuid::parse_str` accepts, and its error is always the
same. -/
def tryParseUuid [Crates] (input : String) : Except String Uuid :=
  match parseUuid input with
  | .ok u => .ok u
  | .error _ => .error "failed to parse a UUID"

theorem printUuid_injective [Crates] : Function.Injective printUuid := by
  intro u v h
  have hu := parseUuid_printUuid u
  rw [h, parseUuid_printUuid v] at hu
  obtain rfl := Except.ok.inj hu
  rfl

/-! ### The formats of the uuid crate -/

/-- The places of the hyphens. -/
def hyphens : List ℕ := [8, 4, 4, 4]

/-- Thirty-two digits as an id. -/
def uuidOfDigits (cs : List Char) : Except String Uuid :=
  if cs.length = 32 then
    match hexValue cs with
    | some n => if h : n < 2 ^ 128 then .ok ⟨n, h⟩ else .error "invalid character"
    | none => .error "invalid character"
  else .error "invalid length"

def uuidOfHyphenated (cs : List Char) : Except String Uuid :=
  match ungrouped '-' hyphens cs with
  | some ds => uuidOfDigits ds
  | none => .error "invalid group"

/-- The simple, hyphenated, braced and urn formats, told apart by their lengths. -/
def uuidOfString (s : String) : Except String Uuid :=
  let cs := s.toList
  match cs.length with
  | 32 => uuidOfDigits cs
  | 36 => uuidOfHyphenated cs
  | 38 => if cs.take 1 = ['{'] ∧ cs.drop 37 = ['}'] then uuidOfHyphenated ((cs.drop 1).take 36)
      else .error "invalid character"
  | 45 => if cs.take 9 = "urn:uuid:".toList then uuidOfHyphenated (cs.drop 9)
      else .error "invalid character"
  | _ => .error "invalid length"

/-- The hyphenated format. -/
def stringOfUuid (u : Uuid) : String := String.ofList (grouped '-' hyphens (hexDigits 32 u.val))

theorem uuidOfString_stringOfUuid (u : Uuid) : uuidOfString (stringOfUuid u) = .ok u := by
  have hsum : hyphens.sum ≤ (hexDigits 32 u.val).length := by simp [hyphens]
  have hlen : (grouped '-' hyphens (hexDigits 32 u.val)).length = 36 := by
    rw [length_grouped _ _ _ hsum]
    simp [hyphens]
  have hval : hexValue (hexDigits 32 u.val) = some u.val := by
    rw [hexValue_hexDigits, Nat.mod_eq_of_lt]
    exact lt_of_lt_of_eq u.isLt (by norm_num)
  unfold uuidOfString stringOfUuid
  simp only [String.toList_ofList, hlen]
  rw [uuidOfHyphenated, ungrouped_grouped _ _ _ hsum]
  simp only [uuidOfDigits, length_hexDigits, if_true, hval]
  rw [dif_pos u.isLt]

/-- The formats of the uuid crate; a status is shown by its message. -/
@[reducible] def Crates.hyphenated : Crates where
  printUuid := stringOfUuid
  parseUuid := uuidOfString
  showStatus s := s.message
  parse_print := uuidOfString_stringOfUuid

end Laqista
