import Laqista.Deployment.Saving

/-! # Extracting an archive and choosing the binary

The entries of an archive are files and directories. `write_tgz` does not look at the difference:
each entry is written as a file, under the last component of its path. `read_binary` takes the first
entry of the directory whose name ends with the word of the target.

* `writeEntries_ok_iff`: the entries can be written exactly when each has a file name, which is not
  that of a directory.
* `node_writeEntries`: the last entry with a name is then what is under it.
* `readBinary_iff`: what is read does not depend on the order of the directory exactly when all
  names that end with the word have the same contents.
* `extracts_iff`: when the file with the extension of the target is what is read. -/

namespace Laqista

open Laqista.Proto Laqista.Lib Laqista.Fs Lib.File

inductive EntryType where
  | regular
  | directory
  deriving DecidableEq

/-- An entry of an archive. -/
structure TarEntry where
  path : String
  type : EntryType
  contents : List UInt8
  deriving DecidableEq

namespace TarEntry

/-- What `write_tgz` reads of an entry. -/
def entry (e : TarEntry) : Entry := ⟨.ok e.path, .ok e.contents⟩

def fileName (e : TarEntry) : Option String := (Path.ofText e.path).fileName

/-- A file with the extension of the target. -/
def IsBinary (target : Target) (e : TarEntry) : Prop :=
  e.type = .regular ∧ (Path.ofText e.path).extension = some target.toString

instance decidableIsBinary (target : Target) (e : TarEntry) : Decidable (e.IsBinary target) :=
  inferInstanceAs (Decidable (_ ∧ _))

end TarEntry

/-- One file has the extension of the target, and no two files have the same name. -/
structure OneBinary (target : Target) (es : List TarEntry) (binary : TarEntry) : Prop where
  only : es.filter (fun e => e.IsBinary target) = [binary]
  names : ((es.filter fun e => e.type = .regular).filterMap TarEntry.fileName).Nodup

/-- The last entry with a file name. -/
def lastNamed (es : List TarEntry) (name : String) : Option TarEntry :=
  (es.filter fun e => e.fileName = some name).getLast?

/-- What is under a name after the entries were written: the last of them with this name, or what
was there. -/
def leftUnder (es : List TarEntry) (d : Disk) (place : Place) (name : String) : Option Node :=
  (lastNamed es name).elim (d.node (name :: place)) fun e => some (.file e.contents)

/-- Each entry has a file name, which is not that of a directory. -/
def Writable (es : List TarEntry) (d : Disk) (place : Place) : Prop :=
  ∀ e ∈ es, ∃ name, e.fileName = some name ∧ d.node (name :: place) ≠ some .dir

/-! ### Writing the entries -/

theorem lastNamed_cons (e : TarEntry) (es : List TarEntry) (name : String) :
    lastNamed (e :: es) name =
      (lastNamed es name).or (if e.fileName = some name then some e else none) := by
  unfold lastNamed
  by_cases he : e.fileName = some name
  · rw [List.filter_cons_of_pos (by simpa using he), if_pos he, List.getLast?_cons]
    rcases (es.filter fun e => e.fileName = some name).getLast? with _ | last <;> simp
  · rw [List.filter_cons_of_neg (by simpa using he), if_neg he, Option.or_none]

theorem exists_lastNamed {es : List TarEntry} {e : TarEntry} {name : String} (he : e ∈ es)
    (hname : e.fileName = some name) : ∃ last, lastNamed es name = some last := by
  have hmem : e ∈ es.filter fun e => e.fileName = some name :=
    List.mem_filter.mpr ⟨he, by simpa using hname⟩
  exact ⟨_, List.getLast?_eq_some_getLast (List.ne_nil_of_mem hmem)⟩

theorem mem_of_lastNamed {es : List TarEntry} {last : TarEntry} {name : String}
    (h : lastNamed es name = some last) : last ∈ es ∧ last.fileName = some name := by
  obtain ⟨hmem, hname⟩ := List.mem_filter.mp (List.mem_of_getLast? h)
  exact ⟨hmem, of_decide_eq_true hname⟩

section Write

variable {p : Path} {place : Place} {d : Disk} {w' : World}

/-- One entry is written under its file name. -/
theorem writeEntry_ok_iff (h : d.DirAt p place) {e : TarEntry} :
    writeEntry p (.ok e.entry) ⟨d, []⟩ = .ok () w' ↔
      ∃ name, e.fileName = some name ∧ d.node (name :: place) ≠ some .dir ∧ w'.faults = [] ∧
        ∀ q, w'.disk.node q =
          if q = name :: place then some (.file e.contents) else d.node q := by
  have hentry : writeEntry p (.ok e.entry) =
      (lift (e.fileName.elim (.error .notFound) .ok) >>= fun name =>
        write (p.join name) e.contents) := rfl
  rcases hname : e.fileName with _ | name
  · have herror : writeEntry p (.ok e.entry) ⟨d, []⟩ = .error .notFound ⟨d, []⟩ := by
      rw [hentry, hname]
      rfl
    simp [herror]
  · have hwrite : writeEntry p (.ok e.entry) ⟨d, []⟩ =
        write (.normal name :: p) e.contents ⟨d, []⟩ := by
      rw [hentry, hname, ← Path.join_name (Path.isName_of_fileName hname)]
      rfl
    rw [hwrite, write_ok_iff h]
    simp

/-- A file is written: the directories are the same. -/
theorem writeEntry_keepsDirs (h : d.DirAt p place) {e : TarEntry} {d₁ : Disk}
    (hentry : writeEntry p (.ok e.entry) ⟨d, []⟩ = .ok () ⟨d₁, []⟩) :
    d₁.DirAt p place ∧ ∀ q, d₁.node q = some .dir ↔ d.node q = some .dir := by
  obtain ⟨name, -, hfree, -, hnode⟩ := (writeEntry_ok_iff h).mp hentry
  have hwrites : WritesFiles (fun q => q = name :: place) d d₁ := .single hfree hnode rfl
  refine ⟨hwrites.keepsDirs.dirAt h, fun q => ?_⟩
  by_cases hq : q = name :: place
  · subst hq
    rw [hnode, if_pos rfl]
    simp [hfree]
  · rw [hnode, if_neg hq]

theorem writeEntries_cons (h : d.DirAt p place) {e : TarEntry} {es : List TarEntry} :
    ((e :: es).map fun e => Except.ok e.entry).forM (writeEntry p) ⟨d, []⟩ = .ok () w' ↔
      ∃ d₁, writeEntry p (.ok e.entry) ⟨d, []⟩ = .ok () ⟨d₁, []⟩ ∧
        (es.map fun e => Except.ok e.entry).forM (writeEntry p) ⟨d₁, []⟩ = .ok () w' := by
  refine bind_ok.trans ⟨?_, ?_⟩
  · rintro ⟨⟨⟩, ⟨d₁, faults⟩, hentry, hrest⟩
    obtain ⟨-, -, -, hfaults, -⟩ := (writeEntry_ok_iff h).mp hentry
    obtain rfl : faults = [] := hfaults
    exact ⟨d₁, hentry, hrest⟩
  · rintro ⟨d₁, hentry, hrest⟩
    exact ⟨(), _, hentry, hrest⟩

theorem leftUnder_cons {e : TarEntry} {es : List TarEntry} {d₁ : Disk} {name : String}
    (hname : e.fileName = some name) (hnode : ∀ q, d₁.node q =
      if q = name :: place then some (.file e.contents) else d.node q) :
    leftUnder es d₁ place = leftUnder (e :: es) d place := by
  funext name'
  unfold leftUnder
  rw [lastNamed_cons, hnode]
  rcases lastNamed es name' with _ | last
  · by_cases heq : name = name'
    · subst heq
      simp [hname]
    · have hne : name' :: place ≠ name :: place := fun hq => heq (List.cons.inj hq).1.symm
      simp [hname, heq, hne]
  · rfl

/-- **The entries can be written exactly when each has a file name**, which is not that of a
directory. -/
theorem writeEntries_ok_iff (h : d.DirAt p place) {es : List TarEntry} :
    (∃ w', (es.map fun e => Except.ok e.entry).forM (writeEntry p) ⟨d, []⟩ = .ok () w') ↔
      Writable es d place := by
  induction es generalizing d with
  | nil => exact ⟨fun _ => by simp [Writable], fun _ => ⟨_, rfl⟩⟩
  | cons e es ih =>
    have hsame : ∀ d₁, writeEntry p (.ok e.entry) ⟨d, []⟩ = .ok () ⟨d₁, []⟩ →
        (Writable es d₁ place ↔ Writable es d place) := by
      intro d₁ hentry
      obtain ⟨-, hdirs⟩ := writeEntry_keepsDirs h hentry
      unfold Writable
      simp only [ne_eq, hdirs]
    constructor
    · rintro ⟨w', hw⟩
      obtain ⟨d₁, hentry, hrest⟩ := (writeEntries_cons h).mp hw
      obtain ⟨name, hname, hfree, -⟩ := (writeEntry_ok_iff h).mp hentry
      have hes := (ih (writeEntry_keepsDirs h hentry).1).mp ⟨w', hrest⟩
      exact List.forall_mem_cons.mpr ⟨⟨name, hname, hfree⟩, (hsame d₁ hentry).mp hes⟩
    · intro hall
      obtain ⟨⟨name, hname, hfree⟩, hes⟩ := List.forall_mem_cons.mp hall
      obtain ⟨d₁, hwrite⟩ := write_of_dirAt h hfree e.contents
      have hentry : writeEntry p (.ok e.entry) ⟨d, []⟩ = .ok () ⟨d₁, []⟩ :=
        (writeEntry_ok_iff h).mpr ⟨name, hname, (write_ok_iff h).mp hwrite⟩
      obtain ⟨w', hrest⟩ := (ih (writeEntry_keepsDirs h hentry).1).mpr ((hsame d₁ hentry).mpr hes)
      exact ⟨w', (writeEntries_cons h).mpr ⟨d₁, hentry, hrest⟩⟩

/-- **The last entry with a name is what is under it**, after the entries were written. -/
theorem node_writeEntries (h : d.DirAt p place) {es : List TarEntry}
    (hw : (es.map fun e => Except.ok e.entry).forM (writeEntry p) ⟨d, []⟩ = .ok () w') :
    w'.disk.DirAt p place ∧ ∀ name, w'.disk.node (name :: place) = leftUnder es d place name := by
  induction es generalizing d with
  | nil =>
    obtain ⟨-, rfl⟩ := EStateM.Result.ok.inj hw
    exact ⟨h, fun name => rfl⟩
  | cons e es ih =>
    obtain ⟨d₁, hentry, hrest⟩ := (writeEntries_cons h).mp hw
    obtain ⟨name, hname, -, -, hnode⟩ := (writeEntry_ok_iff h).mp hentry
    rw [← leftUnder_cons hname hnode]
    exact ih (writeEntry_keepsDirs h hentry).1 hrest

end Write

/-! ### Choosing the binary -/

/-- A name that has the extension of the target ends with its word. -/
theorem TarEntry.IsBinary.matches {target : Target} {e : TarEntry} (h : e.IsBinary target) :
    ∃ name, e.fileName = some name ∧ target.extensionMatches name = true := by
  obtain ⟨name, hname, hsuffix⟩ := Path.suffix_of_extension h.2
  exact ⟨name, hname, List.isSuffixOf_iff_suffix.mpr hsuffix⟩

/-- The file that is read is the first of the listing whose name ends with the word. -/
theorem readBinary_of_dirAt {p : Path} {place : Place} {d : Disk} (h : d.DirAt p place)
    {listing : Listing} {target : Target} {contents : List UInt8} :
    readBinary d listing p target = .ok contents ↔ ∃ name,
      (listing place).find? target.extensionMatches = some name ∧
      d.node (name :: place) = some (.file contents) := by
  unfold readBinary
  rw [h.1]
  simp only [ok_bind, h.2]
  rcases hfind : (listing place).find? target.extensionMatches with _ | name
  · simp
  · rcases hnode : d.node (name :: place) with _ | _ | _
    · simp [hnode]
    · simp [hnode]
    · simp [hnode]

/-- **Reading gives the same contents in every order exactly when all names that end with the word
have these contents**, and there is one. -/
theorem readBinary_iff {p : Path} {place : Place} {d : Disk} (h : d.DirAt p place)
    {target : Target} {contents : List UInt8} :
    (∀ listing, d.Lists listing → readBinary d listing p target = .ok contents) ↔
      (∃ name, target.extensionMatches name = true ∧ d.node (name :: place) ≠ none) ∧
      ∀ name node, target.extensionMatches name = true → d.node (name :: place) = some node →
        node = .file contents := by
  simp only [readBinary_of_dirAt h]
  constructor
  · intro hread
    refine ⟨?_, fun name node hmatches hnode => ?_⟩
    · obtain ⟨listing, hl⟩ := d.exists_lists
      obtain ⟨name, hfind, hnode⟩ := hread listing hl
      exact ⟨name, List.find?_some hfind, by simp [hnode]⟩
    · have hthere : d.node (name :: place) ≠ none := by simp [hnode]
      obtain ⟨listing, names, hl, hfirst⟩ := Disk.exists_lists_first hthere
      obtain ⟨name', hfind, hfile⟩ := hread listing hl
      rw [hfirst, List.find?_cons_of_pos hmatches] at hfind
      obtain rfl := Option.some.inj hfind
      rw [hnode] at hfile
      exact Option.some.inj hfile
  · rintro ⟨⟨name, hmatches, hthere⟩, hall⟩ listing hl
    obtain ⟨-, hmem⟩ := hl place h.2
    rcases hfind : (listing place).find? target.extensionMatches with _ | first
    · have hnot := List.find?_eq_none.mp hfind name ((hmem name).mpr hthere)
      exact absurd hmatches hnot
    · have hlisted := (hmem first).mp (List.mem_of_find?_eq_some hfind)
      obtain ⟨node, hnode⟩ := Option.ne_none_iff_exists'.mp hlisted
      have hfile := hall first node (List.find?_some hfind) hnode
      rw [hfile] at hnode
      exact ⟨first, rfl, hnode⟩

/-! ### Extracting and reading -/

section Extracts

variable [Archives] {p : Path} {place : Place} {d d₁ : Disk} {tgz : List UInt8}
  {target : Target} {es : List TarEntry} {binary : TarEntry}

/-- The archive is extracted, and then these contents are read, in whatever order the directory is
listed. -/
def Extracts (p : Path) (tgz : List UInt8) (target : Target) (contents : List UInt8) (d : Disk) :
    Prop :=
  ∃ w, writeTgz p tgz ⟨d, []⟩ = .ok () w ∧
    ∀ listing, w.disk.Lists listing → readBinary w.disk listing p target = .ok contents

/-- Whatever is left under a name that ends with the word of the target is a file with these
contents. -/
def Unambiguous (es : List TarEntry) (target : Target) (contents : List UInt8) (d : Disk)
    (place : Place) : Prop :=
  ∀ name node, target.extensionMatches name = true → leftUnder es d place name = some node →
    node = .file contents

/-- Extracting opens the directory and writes the entries. -/
theorem writeTgz_iff (hopen : openDir p ⟨d, []⟩ = .ok place ⟨d₁, []⟩)
    (hes : entries tgz = .ok (es.map fun e => .ok e.entry)) {w' : World} :
    writeTgz p tgz ⟨d, []⟩ = .ok () w' ↔
      (es.map fun e => Except.ok e.entry).forM (writeEntry p) ⟨d₁, []⟩ = .ok () w' := by
  unfold writeTgz
  rw [hes, bind_ok]
  constructor
  · rintro ⟨q, w₁, hq, hrest⟩
    rw [hopen] at hq
    obtain ⟨rfl, rfl⟩ := EStateM.Result.ok.inj hq
    exact hrest
  · intro hrest
    exact ⟨place, _, hopen, hrest⟩

/-- **The file with the extension of the target is what is read exactly when** each entry, also a
directory, has a file name that is not that of a directory, and the names that end with the word of
the target are left with no other contents. -/
theorem extracts_iff (hopen : openDir p ⟨d, []⟩ = .ok place ⟨d₁, []⟩)
    (hes : entries tgz = .ok (es.map fun e => .ok e.entry)) (hone : OneBinary target es binary) :
    Extracts p tgz target binary.contents d ↔
      Writable es d₁ place ∧ Unambiguous es target binary.contents d₁ place := by
  have hdir := openDir_ok hopen
  have hthere : ∃ name node, target.extensionMatches name = true ∧
      leftUnder es d₁ place name = some node := by
    have hmem : binary ∈ es.filter fun e => e.IsBinary target := by simp [hone.only]
    obtain ⟨hin, hbinary⟩ := List.mem_filter.mp hmem
    obtain ⟨name, hname, hmatches⟩ := (of_decide_eq_true hbinary).matches
    obtain ⟨last, hlast⟩ := exists_lastNamed hin hname
    exact ⟨name, .file last.contents, hmatches, by simp [leftUnder, hlast]⟩
  unfold Extracts
  simp only [writeTgz_iff hopen hes]
  constructor
  · rintro ⟨w, hw, hread⟩
    obtain ⟨hdir', hnode⟩ := node_writeEntries hdir hw
    obtain ⟨-, hall⟩ := (readBinary_iff hdir').mp hread
    refine ⟨(writeEntries_ok_iff hdir).mp ⟨w, hw⟩, fun name node hmatches hleft => ?_⟩
    rw [← hnode] at hleft
    exact hall name node hmatches hleft
  · rintro ⟨hwritable, hsame⟩
    obtain ⟨w, hw⟩ := (writeEntries_ok_iff hdir).mpr hwritable
    obtain ⟨hdir', hnode⟩ := node_writeEntries hdir hw
    refine ⟨w, hw, (readBinary_iff hdir').mpr ⟨?_, fun name node hmatches hn => ?_⟩⟩
    · obtain ⟨name, node, hmatches, hleft⟩ := hthere
      rw [← hnode] at hleft
      exact ⟨name, hmatches, by simp [hleft]⟩
    · rw [hnode] at hn
      exact hsame name node hmatches hn

omit [Archives] in
/-- In a fresh directory, an archive of files only is read as it was packed, if the word of the
target ends a name only as its extension. -/
theorem OneBinary.of_files (hone : OneBinary target es binary)
    (hfresh : ∀ name, d₁.node (name :: place) = none)
    (hfiles : ∀ e ∈ es, ∃ name, e.fileName = some name)
    (hword : ∀ e ∈ es, ∀ name, e.fileName = some name → target.extensionMatches name = true →
      e.IsBinary target) :
    Writable es d₁ place ∧ Unambiguous es target binary.contents d₁ place := by
  refine ⟨fun e he => ?_, fun name node hmatches hleft => ?_⟩
  · obtain ⟨name, hname⟩ := hfiles e he
    exact ⟨name, hname, by simp [hfresh]⟩
  · unfold leftUnder at hleft
    rcases hlast : lastNamed es name with _ | last
    · rw [hlast, Option.elim_none, hfresh] at hleft
      exact absurd hleft (by simp)
    · obtain ⟨hmem, hname⟩ := mem_of_lastNamed hlast
      have hbinary : last ∈ es.filter fun e => e.IsBinary target :=
        List.mem_filter.mpr ⟨hmem, by simpa using hword last hmem name hname hmatches⟩
      rw [hone.only, List.mem_singleton] at hbinary
      rw [hlast, Option.elim_some, hbinary] at hleft
      exact (Option.some.inj hleft).symm

end Extracts

section Examples

/-- The files `face.onnx` and `face.wasm`. -/
def release : List TarEntry :=
  [⟨"face.onnx", .regular, Protobuf.utf8 "onnx"⟩, ⟨"face.wasm", .regular, Protobuf.utf8 "wasm"⟩]

def releaseArchive : List UInt8 :=
  [31, 139, 8, 0, 0, 0, 0, 0, 2, 3, 237, 211, 65, 10, 194, 48, 16, 5, 208, 28, 197, 19, 148, 42,
    177, 158, 39, 136, 217, 181, 5, 171, 232, 241, 77, 93, 137, 251, 132, 66, 223, 219, 252, 97, 54,
    179, 24, 126, 78, 215, 91, 55, 79, 211, 59, 212, 211, 23, 67, 140, 223, 44, 254, 179, 136, 63,
    243, 186, 191, 156, 227, 49, 28, 250, 208, 192, 115, 121, 164, 123, 57, 25, 246, 169, 242, 235,
    217, 184, 188, 246, 255, 149, 150, 113, 99, 253, 63, 13, 250, 223, 66, 229, 215, 3, 0, 0, 0, 0,
    0, 0, 0, 0, 80, 217, 7, 87, 212, 148, 89, 0, 40, 0, 0]

/-- The file `face.onnx` in a directory that was packed as `.`. -/
def packedDir : List TarEntry :=
  [⟨"./", .directory, []⟩, ⟨"./face.onnx", .regular, Protobuf.utf8 "onnx"⟩]

def packedDirArchive : List UInt8 :=
  [31, 139, 8, 0, 0, 0, 0, 0, 2, 3, 237, 209, 57, 14, 194, 48, 20, 69, 81, 47, 37, 43, 112, 12, 242,
    176, 158, 8, 65, 153, 72, 12, 18, 203, 199, 162, 140, 16, 157, 105, 56, 167, 121, 191, 251, 197,
    141, 115, 24, 46, 117, 173, 148, 247, 118, 251, 253, 112, 215, 67, 58, 134, 169, 132, 31, 120,
    220, 238, 203, 181, 191, 12, 255, 41, 206, 151, 229, 116, 142, 219, 186, 62, 135, 246, 175, 57,
    127, 233, 159, 119, 253, 91, 109, 53, 76, 73, 255, 225, 134, 134, 7, 0, 0, 0, 0, 0, 0, 0, 0,
    134, 122, 1, 216, 114, 53, 199, 0, 40, 0, 0]

/-- What the crates make of these two archives. -/
@[reducible] def Archives.packed : Archives :=
  { Archives.sample with
    entries := fun tgz =>
      if tgz = releaseArchive then .ok (release.map fun e => .ok e.entry)
      else if tgz = packedDirArchive then .ok (packedDir.map fun e => .ok e.entry)
      else Archives.sample.entries tgz }

attribute [local instance] Archives.packed

/-- A directory that is not there yet. -/
theorem openDir_blank : ∃ d₁,
    openDir [.normal "release"] ⟨Disk.blank, []⟩ = .ok ["release"] ⟨d₁, []⟩ ∧
      ∀ name, d₁.node (name :: ["release"]) = none := by
  have hfree : Disk.blank.node ["release"] ≠ some .dir := by decide
  refine ⟨Disk.blank.put "release" [] .dir Disk.blank.node_nil hfree, rfl, fun name => ?_⟩
  rw [Disk.node_put, if_neg (by simp), Disk.node_blank, if_neg (by simp)]

theorem oneBinary_release :
    OneBinary .onnx release ⟨"face.onnx", .regular, Protobuf.utf8 "onnx"⟩ := by
  constructor
  · decide +kernel
  · decide +kernel

/-- The binary of a release is read. -/
theorem release_is_read :
    Extracts [.normal "release"] releaseArchive .onnx (Protobuf.utf8 "onnx") Disk.blank := by
  obtain ⟨d₁, hopen, hfresh⟩ := openDir_blank
  have hes : Archives.entries releaseArchive = .ok (release.map fun e => .ok e.entry) := by
    simp [Archives.entries]
  refine (extracts_iff hopen hes oneBinary_release).mpr (oneBinary_release.of_files hfresh ?_ ?_)
  · have hall : ∀ e ∈ release, e.fileName.isSome := by decide +kernel
    exact fun e he => Option.isSome_iff_exists.mp (hall e he)
  · have hall : ∀ e ∈ release, e.fileName.all fun name =>
        !Target.onnx.extensionMatches name || decide (e.IsBinary .onnx) := by
      decide +kernel
    intro e he name hname hmatches
    have h := hall e he
    simpa [hname, hmatches] using h

/-- **An archive in which the directory itself was packed is not extracted**: the path of this entry
has no file name. -/
theorem packed_dir_is_not_extracted :
    entries packedDirArchive = .ok (packedDir.map fun e => .ok e.entry) ∧
      OneBinary .onnx packedDir ⟨"./face.onnx", .regular, Protobuf.utf8 "onnx"⟩ ∧
      (∃ w, openDir [.normal "release"] ⟨Disk.blank, []⟩ = .ok ["release"] w) ∧
      ¬ Extracts [.normal "release"] packedDirArchive .onnx (Protobuf.utf8 "onnx") Disk.blank := by
  obtain ⟨d₁, hopen, -⟩ := openDir_blank
  have hes : Archives.entries packedDirArchive = .ok (packedDir.map fun e => .ok e.entry) := by
    have hne : packedDirArchive ≠ releaseArchive := by decide
    simp [Archives.entries, hne]
  refine ⟨hes, ⟨?_, ?_⟩, ⟨_, hopen⟩, ?_⟩
  · decide +kernel
  · decide +kernel
  · rintro ⟨w, hw, -⟩
    have hwritable := (writeEntries_ok_iff (openDir_ok hopen)).mp
      ⟨w, (writeTgz_iff hopen hes).mp hw⟩
    obtain ⟨name, hname, -⟩ := hwritable _ (List.mem_cons_self ..)
    have hnone : (⟨"./", .directory, []⟩ : TarEntry).fileName = none := by decide +kernel
    rw [hnone] at hname
    exact absurd hname (by simp)

end Examples

end Laqista
