import Laqista.Deployment.Saved

/-! # Spellings of a version directory

`dirName` spells a saved deployment in one way, and `read` accepts more names than those: a plus
sign and zeros in front of the time, upper-case digits of the hash, and further parts behind it.
Such a name is read as a deployment of another directory. A time before 1970 is spelled with a minus
sign, which `read` takes for the separator.

`spelling_iff`: reading undoes the spelling exactly for times in whole seconds from 1970 on, and a
name that is read is the spelling of what is read exactly if it has none of the other forms. -/

namespace Laqista

open Laqista.Lib Laqista.Lib.Hex

/-- The time is not before 1970 and has no sign or zeros in front, the hash is in lower case, and
nothing is behind it. -/
structure Canonical (name : String) : Prop where
  parts : (name.toList.splitOn '-').length = 2
  unsigned : name.toList.head? ≠ some '+'
  unpadded : name.toList.head? = some '0' → name.toList[1]? = some '-'
  lower : ∀ c ∈ name.toList, ¬ isUpper c

/-! ### The two parts -/

theorem parseNat_eq_some {bound n : ℕ} {ds : List Char} (h : parseNat bound ds = some n) :
    ds ≠ [] ∧ (∀ c ∈ ds, Char.isDigit c) ∧ n = decimal ds := by
  unfold parseNat at h
  split_ifs at h with hds
  obtain ⟨hne, hdigits, -⟩ := hds
  exact ⟨hne, List.all_eq_true.mp hdigits, (Option.some.inj h).symm⟩

/-- The digits of a time, behind a plus sign or not. -/
theorem parseInt_cases {ts : List Char} {n : ℤ} (h : parseInt (2 ^ 63) ts = some n)
    (hminus : '-' ∉ ts) : ∃ ds, ds ≠ [] ∧ (∀ c ∈ ds, Char.isDigit c) ∧ n = decimal ds ∧
      (ts = ds ∨ ts = '+' :: ds) := by
  unfold parseInt at h
  split at h
  · exact absurd (List.mem_cons_self ..) hminus
  · obtain ⟨k, hk, rfl⟩ := Option.map_eq_some_iff.mp h
    obtain ⟨hne, hdigits, rfl⟩ := parseNat_eq_some hk
    exact ⟨_, hne, hdigits, rfl, .inr rfl⟩
  · obtain ⟨k, hk, rfl⟩ := Option.map_eq_some_iff.mp h
    obtain ⟨hne, hdigits, rfl⟩ := parseNat_eq_some hk
    exact ⟨_, hne, hdigits, rfl, .inl rfl⟩

theorem intText_natCast (n : ℕ) : intText (n : ℤ) = natText n := by
  unfold intText
  rw [if_neg (by omega)]
  rfl

/-- **A time that is read is printed again exactly if it has no sign and no zeros in front.** -/
theorem intText_parseInt {ts : List Char} {n : ℤ} (h : parseInt (2 ^ 63) ts = some n)
    (hminus : '-' ∉ ts) :
    intText n = ts ↔ ts.head? ≠ some '+' ∧ (ts.head? = some '0' → ts = ['0']) := by
  obtain ⟨ds, hne, hdigits, rfl, rfl | rfl⟩ := parseInt_cases h hminus
  · rw [intText_natCast]
    constructor
    · intro htext
      refine ⟨fun hplus => ?_, fun hzero => ?_⟩
      · exact absurd (hdigits '+' (List.mem_of_mem_head? hplus)) (by decide)
      · rw [← htext] at hzero
        rw [← htext, natText_zero_head hzero]
        rfl
    · rintro ⟨-, hzero⟩
      exact natText_decimal hne hdigits hzero
  · rw [intText_natCast]
    refine iff_of_false (fun htext => ?_) (by simp)
    have hplus : Char.isDigit '+' := isDigit_natText (by rw [htext]; exact List.mem_cons_self ..)
    exact absurd hplus (by decide)

/-- **A hash that is read is printed again exactly if it is in lower case.** -/
theorem encode_fromHex {cs : List Char} {hash : Hash} (h : Hash.fromHex cs = some hash) :
    hash.encode = cs ↔ ∀ c ∈ cs, ¬ isUpper c := by
  unfold Hash.fromHex at h
  split_ifs at h with hlength
  obtain ⟨n, hn, h⟩ := Option.bind_eq_some_iff.mp h
  split_ifs at h with hlt
  obtain rfl := Option.some.inj h
  constructor
  · intro hcs c hc
    rw [← hcs] at hc
    exact not_isUpper_hexDigits hc
  · intro hlower
    have hprint := hexDigits_hexValue hn hlower
    rw [hlength] at hprint
    exact hprint

namespace SavedDeployment

/-- **What `read` accepts.** -/
theorem read_eq_some {name : String} {saved : SavedDeployment} (h : read name = some saved) :
    ∃ ts cs rest, name.toList.splitOn '-' = ts :: cs :: rest ∧
      parseInt (2 ^ 63) ts = some saved.timestamp.secs ∧ Hash.fromHex cs = some saved.hash ∧
      saved.timestamp.nanos = 0 := by
  unfold read at h
  obtain ⟨ts, hts, h⟩ := Option.bind_eq_some_iff.mp h
  obtain ⟨n, hn, h⟩ := Option.bind_eq_some_iff.mp h
  obtain ⟨time, htime, h⟩ := Option.bind_eq_some_iff.mp h
  obtain ⟨cs, hcs, h⟩ := Option.bind_eq_some_iff.mp h
  obtain ⟨hash, hhash, h⟩ := Option.bind_eq_some_iff.mp h
  obtain rfl := Option.some.inj h
  obtain ⟨hsecs, hnanos⟩ := DateTime.fromTimestamp_eq_some.mp htime
  rcases hsplit : name.toList.splitOn '-' with _ | ⟨a, _ | ⟨b, rest⟩⟩
  · rw [hsplit] at hts
    simp at hts
  · rw [hsplit] at hcs
    simp at hcs
  · rw [hsplit] at hts hcs
    obtain rfl := Option.some.inj hts
    obtain rfl := Option.some.inj hcs
    refine ⟨a, b, rest, rfl, ?_, hhash, hnanos⟩
    rw [hn]
    exact congrArg some hsecs.symm

/-- Reading undoes the spelling exactly for times in whole seconds from 1970 on. -/
theorem read_dirName_iff (saved : SavedDeployment) :
    read saved.dirName = some saved ↔
      saved.timestamp.nanos = 0 ∧ 0 ≤ saved.timestamp.secs := by
  constructor
  · intro h
    obtain ⟨-, -, -, -, -, -, hnanos⟩ := read_eq_some h
    refine ⟨hnanos, ?_⟩
    by_contra hneg
    rw [read_dirName_neg (by omega)] at h
    simp at h
  · rintro ⟨hnanos, hsecs⟩
    rw [read_dirName hsecs]
    obtain ⟨⟨secs, nanos, hrange, hfit⟩, hash⟩ := saved
    obtain rfl : nanos = 0 := hnanos
    rfl

theorem toList_of_splitOn {name : String} {parts : List (List Char)}
    (hsplit : name.toList.splitOn '-' = parts) : name.toList = ['-'].intercalate parts := by
  rw [← hsplit]
  exact (List.intercalate_splitOn '-').symm

/-- A name that is read is spelled again exactly if it has two parts, and each of them is. -/
theorem dirName_eq_iff {name : String} {saved : SavedDeployment} (h : read name = some saved)
    {ts cs : List Char} {rest : List (List Char)}
    (hsplit : name.toList.splitOn '-' = ts :: cs :: rest) :
    saved.dirName = name ↔
      rest = [] ∧ intText saved.timestamp.secs = ts ∧ saved.hash.encode = cs := by
  constructor
  · rintro rfl
    have hsecs : 0 ≤ saved.timestamp.secs := by
      by_contra hneg
      rw [read_dirName_neg (by omega)] at h
      simp at h
    rw [splitOn_dirName hsecs] at hsplit
    obtain ⟨hts, hsplit⟩ := List.cons.inj hsplit
    obtain ⟨hcs, hrest⟩ := List.cons.inj hsplit
    exact ⟨hrest.symm, hts, hcs⟩
  · rintro ⟨rfl, rfl, rfl⟩
    have htext : name.toList = saved.dirName.toList := by
      rw [toList_dirName, toList_of_splitOn hsplit]
      simp [List.intercalate]
    exact (String.toList_inj.mp htext).symm

/-- The characters of a time are no upper-case digits. -/
theorem not_isUpper_parseInt {ts : List Char} {n : ℤ} (h : parseInt (2 ^ 63) ts = some n)
    (hminus : '-' ∉ ts) : ∀ c ∈ ts, ¬ isUpper c := by
  obtain ⟨ds, -, hdigits, -, hts⟩ := parseInt_cases h hminus
  have hlower : ∀ c ∈ ds, ¬ isUpper c := by
    intro c hc
    obtain ⟨n, hn, rfl⟩ := exists_digitChar (hdigits c hc)
    unfold isUpper
    interval_cases n
    all_goals decide
  rcases hts with rfl | rfl
  · exact hlower
  · intro c hc
    rcases List.mem_cons.mp hc with rfl | hc
    · unfold isUpper
      decide
    · exact hlower c hc

/-- A name of two parts is canonical exactly if each part is. -/
theorem canonical_iff_of_splitOn {name : String} {ts cs : List Char}
    (hsplit : name.toList.splitOn '-' = [ts, cs]) (hne : ts ≠ [])
    (hts : ∀ c ∈ ts, ¬ isUpper c) : Canonical name ↔
      (ts.head? ≠ some '+' ∧ (ts.head? = some '0' → ts = ['0'])) ∧ ∀ c ∈ cs, ¬ isUpper c := by
  have hminus : '-' ∉ ts :=
    Path.not_mem_of_mem_splitOn (by rw [hsplit]; exact List.mem_cons_self ..)
  have htext : name.toList = ts ++ '-' :: cs := by
    rw [toList_of_splitOn hsplit]
    simp [List.intercalate]
  obtain ⟨c, ts', rfl⟩ := List.exists_cons_of_ne_nil hne
  constructor
  · rintro ⟨-, hplus, hzero, hlower⟩
    rw [htext] at hplus hzero hlower
    refine ⟨⟨hplus, fun h0 => ?_⟩, fun d hd => hlower d (by simp [hd])⟩
    have hnext := hzero h0
    rcases ts' with _ | ⟨d, ts'⟩
    · obtain rfl := Option.some.inj h0
      rfl
    · obtain rfl : d = '-' := Option.some.inj hnext
      simp at hminus
  · rintro ⟨⟨hplus, hzero⟩, hlower⟩
    refine ⟨by rw [hsplit]; rfl, ?_, ?_, ?_⟩
    · rw [htext]
      exact hplus
    · rw [htext]
      intro h0
      rw [hzero h0]
      rfl
    · rw [htext]
      intro d hd
      rcases List.mem_append.mp hd with hd | hd
      · exact hts d hd
      · rcases List.mem_cons.mp hd with rfl | hd
        · unfold isUpper
          decide
        · exact hlower d hd

/-- **A name that is read is the spelling of what is read exactly if it is canonical.** -/
theorem canonical_iff {name : String} {saved : SavedDeployment} (h : read name = some saved) :
    saved.dirName = name ↔ Canonical name := by
  obtain ⟨ts, cs, rest, hsplit, hts, hcs, -⟩ := read_eq_some h
  have hminus : '-' ∉ ts :=
    Path.not_mem_of_mem_splitOn (by rw [hsplit]; exact List.mem_cons_self ..)
  have hne : ts ≠ [] := by
    rintro rfl
    simp [parseInt, parseNat] at hts
  rw [dirName_eq_iff h hsplit, intText_parseInt hts hminus, encode_fromHex hcs]
  rcases rest with _ | ⟨tail, rest⟩
  · have hupper := not_isUpper_parseInt hts hminus
    rw [canonical_iff_of_splitOn hsplit hne hupper]
    exact and_iff_right rfl
  · refine iff_of_false (by simp) fun hcanonical => ?_
    have hparts := hcanonical.parts
    rw [hsplit] at hparts
    simp at hparts

end SavedDeployment

/-- **Which directories are found again**: reading undoes the spelling exactly for times in whole
seconds from 1970 on, and a name that is read is spelled again exactly if it is canonical. -/
theorem spelling_iff (d : SavedDeployment) (name : String) :
    (SavedDeployment.read d.dirName = some d ↔
      d.timestamp.nanos = 0 ∧ 0 ≤ d.timestamp.secs) ∧
    ∀ saved, SavedDeployment.read name = some saved →
      (saved.dirName = name ↔ Canonical name) :=
  ⟨SavedDeployment.read_dirName_iff d, fun _ h => SavedDeployment.canonical_iff h⟩

/-- Five seconds after the epoch, with a sign and the hash in upper case. -/
def plusName : String := "+5-" ++ String.ofList (List.replicate 64 'A')

/-- The first second after the epoch, and one before it. -/
def afterEpoch : SavedDeployment := ⟨⟨1, 0, by decide, by decide⟩, ⟨0, by decide⟩⟩

def beforeEpoch : SavedDeployment := ⟨⟨-1, 0, by decide, by decide⟩, ⟨0, by decide⟩⟩

/-- What the name with the sign is read as. -/
def plusSaved : SavedDeployment :=
  ⟨⟨5, 0, by decide, by decide⟩, ⟨(2 ^ 256 - 1) / 15 * 10, by decide⟩⟩

theorem afterEpoch_spelling :
    (SavedDeployment.read afterEpoch.dirName = some afterEpoch ↔
      afterEpoch.timestamp.nanos = 0 ∧ 0 ≤ afterEpoch.timestamp.secs) ∧
    (plusSaved.dirName = plusName ↔ Canonical plusName) :=
  have hread : SavedDeployment.read plusName = some plusSaved := by decide +kernel
  ⟨(spelling_iff afterEpoch plusName).1, (spelling_iff afterEpoch plusName).2 _ hread⟩

/-- A time before 1970 is not read, and the name with the sign is that of another directory. -/
theorem misspelled :
    SavedDeployment.read beforeEpoch.dirName ≠ some beforeEpoch ∧
    SavedDeployment.read plusName = some plusSaved ∧ plusSaved.dirName ≠ plusName := by
  refine ⟨?_, by decide +kernel, by decide +kernel⟩
  rw [Ne, SavedDeployment.read_dirName_iff]
  decide

end Laqista
