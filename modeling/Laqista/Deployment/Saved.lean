import Laqista.Lib.DateTime
import Laqista.Lib.Decimal
import Laqista.Lib.Files
import Laqista.Lib.Hex

/-! # Saved deployments

A saved deployment is the time and the hash of an archive. On the disk it is the name of a directory
(`dirName`), which `read` parses. The time is kept to the second: reading undoes printing up to that
(`read_dirName`), unless the time is before 1970, when its sign is read as the separator
(`read_dirName_neg`). -/

namespace Laqista

open Laqista.Lib Laqista.Lib.Hex

/-- The 256 bits of a SHA-256 hash. -/
abbrev Hash := Fin (2 ^ 256)

/-- `hex::encode`. -/
def Hash.encode (hash : Hash) : List Char := hexDigits 64 hash.val

/-- `Hash::from_hex`. -/
def Hash.fromHex (s : List Char) : Option Hash :=
  if s.length = 64 then
    (hexValue s).bind fun n => if h : n < 2 ^ 256 then some ⟨n, h⟩ else none
  else none

@[simp] theorem Hash.fromHex_encode (hash : Hash) : Hash.fromHex hash.encode = some hash := by
  have hvalue : hexValue hash.encode = some hash.val := by
    unfold Hash.encode
    rw [hexValue_hexDigits, Nat.mod_eq_of_lt]
    exact lt_of_lt_of_eq hash.isLt (by norm_num)
  unfold Hash.fromHex
  rw [hvalue, if_pos (by simp [Hash.encode])]
  simp

structure SavedDeployment where
  timestamp : DateTime
  hash : Hash
  deriving DecidableEq

namespace SavedDeployment

def read (dirName : String) : Option SavedDeployment := do
  let ss := dirName.toList.splitOn '-'
  let tsStr ← ss[0]?
  let tsInt ← parseInt (2 ^ 63) tsStr
  let timestamp ← DateTime.fromTimestamp tsInt 0
  let hashStr ← ss[1]?
  let hash ← Hash.fromHex hashStr
  return ⟨timestamp, hash⟩

def dirName (saved : SavedDeployment) : String :=
  String.ofList (intText saved.timestamp.secs ++ '-' :: saved.hash.encode)

/-- What is left of a saved deployment on the disk: the time to the second, and the hash. -/
def toSecond (saved : SavedDeployment) : SavedDeployment :=
  ⟨⟨saved.timestamp.secs, 0, saved.timestamp.inRange, .inl (by norm_num)⟩, saved.hash⟩

/-- The time to the second, and the hash. -/
def key (saved : SavedDeployment) : ℤ × Hash := (saved.timestamp.secs, saved.hash)

@[simp] theorem key_toSecond (saved : SavedDeployment) : saved.toSecond.key = saved.key := rfl

theorem toList_dirName (saved : SavedDeployment) :
    saved.dirName.toList = intText saved.timestamp.secs ++ '-' :: saved.hash.encode :=
  String.toList_ofList

/-- The characters of a name. -/
theorem mem_dirName {saved : SavedDeployment} {c : Char} (h : c ∈ saved.dirName.toList) :
    c = '-' ∨ Char.isDigit c ∨ c ∈ "0123456789abcdef".toList := by
  rw [toList_dirName, List.mem_append, List.mem_cons] at h
  rcases h with h | h | h
  · unfold intText at h
    split_ifs at h
    · rcases List.mem_cons.mp h with h | h
      · exact .inl h
      · exact .inr (.inl (isDigit_natText h))
    · exact .inr (.inl (isDigit_natText h))
  · exact .inl h
  · exact .inr (.inr (mem_hexDigits h))

theorem hyphen_mem_dirName (saved : SavedDeployment) : '-' ∈ saved.dirName.toList := by
  rw [toList_dirName]
  simp

/-- The name is a single component of a path. -/
theorem isName_dirName (saved : SavedDeployment) : Path.IsName saved.dirName := by
  have hyphen := saved.hyphen_mem_dirName
  refine ⟨?_, ?_, ?_, ?_⟩
  · intro h
    rw [h] at hyphen
    simp at hyphen
  · intro h
    rw [h] at hyphen
    simp at hyphen
  · intro h
    rw [h] at hyphen
    simp at hyphen
  · intro h
    rcases mem_dirName h with h | h | h
    · exact absurd h (by decide)
    · exact absurd h (by decide)
    · exact absurd h (by decide)

theorem splitOn_dirName {saved : SavedDeployment} (h : 0 ≤ saved.timestamp.secs) :
    saved.dirName.toList.splitOn '-' = [intText saved.timestamp.secs, saved.hash.encode] := by
  have hts : '-' ∉ intText saved.timestamp.secs := by
    intro hm
    unfold intText at hm
    rw [if_neg (by omega)] at hm
    exact absurd (isDigit_natText hm) (by decide)
  have hhash : '-' ∉ saved.hash.encode := fun hm => absurd (mem_hexDigits hm) (by decide)
  rw [toList_dirName, List.splitOn_append_cons_self, List.splitOn_eq_singleton hts,
    List.splitOn_eq_singleton hhash]
  rfl

/-- **Reading a name gives the deployment, to the second.** -/
theorem read_dirName {saved : SavedDeployment} (h : 0 ≤ saved.timestamp.secs) :
    read saved.dirName = some saved.toSecond := by
  have hrange := saved.timestamp.inRange
  have hparse : parseInt (2 ^ 63) (intText saved.timestamp.secs) = some saved.timestamp.secs := by
    refine parseInt_intText ?_ ?_
    · push_cast
      omega
    · unfold maxSecs at hrange
      push_cast
      omega
  have htime : DateTime.fromTimestamp saved.timestamp.secs 0 = some saved.toSecond.timestamp :=
    DateTime.fromTimestamp_eq_some.mpr ⟨rfl, rfl⟩
  unfold read
  simp only [splitOn_dirName h, List.getElem?_cons_zero, List.getElem?_cons_succ, bind,
    Option.bind_some, hparse, htime, Hash.fromHex_encode]
  rfl

/-- A time before 1970 has a sign, and nothing stands before it. -/
theorem read_dirName_neg {saved : SavedDeployment} (h : saved.timestamp.secs < 0) :
    read saved.dirName = none := by
  have hsplit : ∃ rest, saved.dirName.toList.splitOn '-' = [] :: rest := by
    have hnil : List.splitOn '-' ([] : List Char) = [[]] := rfl
    refine ⟨(natText saved.timestamp.secs.natAbs ++ '-' :: saved.hash.encode).splitOn '-', ?_⟩
    rw [toList_dirName, intText, if_pos h, List.cons_append]
    exact (List.splitOn_append_cons_self (a := '-') [] _).trans (by rw [hnil]; rfl)
  obtain ⟨rest, hrest⟩ := hsplit
  unfold read
  rw [hrest]
  rfl

end SavedDeployment
end Laqista
