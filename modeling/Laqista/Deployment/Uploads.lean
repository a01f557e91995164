import Laqista.Deployment.Confined
import Laqista.Deployment.Extract
import Laqista.Deployment.Serving

/-! # What was uploaded is what is served

`add_app` extracts an archive into the directory of a version, and `get` reads a binary from the
directory of the latest version. In between, other applications are added, calls fail at any of
their operations, and the server is started again. All of this leaves the inside of the directory
alone (`save_sameInside`, `openDirRoot_sameInside`), so that what was packed into the archive is
what is read, as long as the version is the latest one (`uploaded_is_served`). -/

namespace Laqista

open Laqista.Proto Laqista.Lib Laqista.Lib.Runs Laqista.Fs Laqista.DeploymentDatabase Lib.File

/-- The entries of a directory are the same. -/
def SameInside (v : Place) (d d' : Disk) : Prop := ∀ name, d'.node (name :: v) = d.node (name :: v)

/-- The directory is there, and whatever in it ends with the word of the target is a file with the
contents, at least one. -/
structure HoldsBinary (d : Disk) (v : Place) (target : Target) (contents : List UInt8) : Prop where
  dir : d.node v = some .dir
  one : ∃ name, target.extensionMatches name = true ∧ d.node (name :: v) ≠ none
  all : ∀ name node, target.extensionMatches name = true → d.node (name :: v) = some node →
    node = .file contents

theorem SameInside.trans {v : Place} {d₁ d₂ d₃ : Disk} (h : SameInside v d₁ d₂)
    (h' : SameInside v d₂ d₃) : SameInside v d₁ d₃ := fun name => (h' name).trans (h name)

theorem HoldsBinary.of_sameInside {v : Place} {d d' : Disk} {target : Target}
    {contents : List UInt8} (h : HoldsBinary d v target contents) (hdirs : KeepsDirs d d')
    (hsame : SameInside v d d') : HoldsBinary d' v target contents := by
  refine ⟨hdirs _ h.dir, ?_, fun name node hmatches hnode => ?_⟩
  · obtain ⟨name, hmatches, hthere⟩ := h.one
    exact ⟨name, hmatches, by rw [hsame]; exact hthere⟩
  · rw [hsame] at hnode
    exact h.all name node hmatches hnode

/-- What is read from such a directory, in every order. -/
theorem HoldsBinary.readBinary {v : Place} {d : Disk} {target : Target} {contents : List UInt8}
    (h : HoldsBinary d v target contents) {p : Path} (hp : d.DirAt p v) {listing : Listing}
    (hl : d.Lists listing) : readBinary d listing p target = .ok contents :=
  (readBinary_iff hp).mpr ⟨h.one, h.all⟩ listing hl

/-! ### What leaves a directory alone -/

section Frame

variable {root : Path} {place : Place} {w : World} {d d' : Disk}

/-- A directory two levels below the root directory of the applications. -/
def TwoBelow (place v : Place) : Prop := v.length = place.length + 2

theorem twoBelow_version (place : Place) (info : DeploymentInfo) (saved : SavedDeployment) :
    TwoBelow place (saved.dirName :: info.name :: place) := by
  simp [TwoBelow]

/-- Directories that are added at most two levels below the root directory are not inside. -/
theorem sameInside_of_addsDirs {A : Place → Prop} {v : Place} (hv : TwoBelow place v)
    (hA : ∀ q, A q → q.length ≤ place.length + 2) (h : AddsDirs A d d') : SameInside v d d' := by
  intro name
  refine h.node_eq fun hq => ?_
  have hle := hA _ hq
  rw [List.length_cons] at hle
  unfold TwoBelow at hv
  omega

/-- Opening a directory adds none below it. -/
theorem openDir_levels (h : w.disk.DirAt (appRootDir root) place) (names : List String) :
    AddsDirs (fun q => q.length ≤ place.length + names.length) w.disk
      (after (openDir (names.map .normal ++ appRootDir root)) w) := by
  refine (openDir_addsDirs h).mono ?_
  rintro q ⟨below, -, hsuffix, rfl⟩
  have hlen := hsuffix.length_le
  rw [List.length_append]
  omega

/-- Opening the root directory leaves the inside of the versions alone. -/
theorem openDirRoot_sameInside {w' : World} {q v : Place} (h : w.disk.DirAt (appRootDir root) place)
    (hv : TwoBelow place v) (hopen : openDirRoot (appRootDir root) w = .ok q w') :
    KeepsDirs w.disk w'.disk ∧ SameInside v w.disk w'.disk := by
  obtain ⟨r, w₁, hdir, hrest⟩ := bind_ok.mp hopen
  obtain ⟨⟨⟩, w₂, hwrite, hrest⟩ := bind_ok.mp hrest
  obtain ⟨rfl, rfl⟩ := EStateM.Result.ok.inj hrest
  have hadds := openDir_levels h []
  rw [List.map_nil, List.nil_append, after_ok hdir] at hadds
  have hroot := hadds.keepsDirs.dirAt h
  rw [Path.join_name isName_gitignoreFileName] at hwrite
  obtain ⟨s, hs, hfree, hnode⟩ := write_ok hwrite
  rw [hroot.resolve_cons] at hs
  obtain rfl := Except.ok.inj hs
  have hwrites : WritesFiles (fun s => s.length = place.length + 1) w₁.disk w₂.disk :=
    .single hfree hnode (by simp [Component.enter])
  have hadded : SameInside v w.disk w₁.disk := by
    refine sameInside_of_addsDirs hv (fun s hs => ?_) hadds
    rw [List.length_nil] at hs
    omega
  refine ⟨fun s hs => hwrites.keepsDirs s (hadds.keepsDirs s hs), hadded.trans fun name => ?_⟩
  refine hwrites.node_eq fun hlen => ?_
  have hcons : (name :: v).length = place.length + 1 := hlen
  rw [List.length_cons, hv] at hcons
  omega

/-- Opening the directory of a version leaves the inside of the versions alone. -/
theorem openDir_version_sameInside {info : DeploymentInfo} {v : Place}
    (h : w.disk.DirAt (appRootDir root) place) (hname : Path.IsName info.name)
    (hv : TwoBelow place v) (saved : SavedDeployment) :
    SameInside v w.disk (after (openDir (savePath root info saved)) w) := by
  rw [savePath_eq root hname saved]
  exact sameInside_of_addsDirs hv (fun q hq => hq) (openDir_levels h [saved.dirName, info.name])

/-- The place of the info file is above the inside of the versions. -/
theorem infoPath_place_ne {info : DeploymentInfo} {v : Place}
    (h : w.disk.DirAt (appRootDir root) place) (hname : Path.IsName info.name)
    (hv : TwoBelow place v) (name : String) : name :: v ≠ Path.place (infoPath root info) := by
  intro hq
  unfold infoPath at hq
  rw [appDir_eq root hname, Path.place_cons, Path.place_cons, ← Disk.resolve_place h.1] at hq
  have hlen := congrArg List.length hq
  simp only [Component.enter, List.length_cons] at hlen
  unfold TwoBelow at hv
  omega

/-- **`get` reads what the directory of the latest version holds.** -/
theorem HoldsBinary.get {inner : Inner} {info latest : DeploymentInfo} {saved : SavedDeployment}
    {target : Target} {contents : List UInt8}
    (h : HoldsBinary d (saved.dirName :: info.name :: place) target contents)
    (hroot : d.DirAt (appRootDir root) place) (hname : Path.IsName info.name)
    (hlatest : latestDir root inner latest = .ok (savePath root info saved)) {listing : Listing}
    (hl : d.Lists listing) :
    DeploymentDatabase.get root inner d listing latest target = .ok contents := by
  have happ : d.node (info.name :: place) = some .dir := Disk.node_tail h.dir
  have hin : d.DirAt (.normal info.name :: appRootDir root) (info.name :: place) :=
    ⟨hroot.resolve_cons _, happ⟩
  have hdir : d.DirAt (savePath root info saved) (saved.dirName :: info.name :: place) := by
    rw [savePath_eq root hname saved]
    exact ⟨hin.resolve_cons _, h.dir⟩
  unfold DeploymentDatabase.get
  rw [hlatest, ok_bind, h.readBinary hdir hl]
  rfl

variable [Archives] [Crates] {info : DeploymentInfo} {now : DateTime} {tgz : List UInt8}

/-- Directories stay, whatever is saved and at whatever step it fails. -/
theorem save_keepsDirs (root : Path) (info : DeploymentInfo) (now : DateTime) (tgz : List UInt8)
    (w : World) : KeepsDirs w.disk (after (save root info now tgz) w) := by
  have hadds := openDir_onlyAdds (savePath root info ⟨now, sha256 tgz⟩) w
  rcases after_save root info now tgz w with ⟨e, w₁, hopen, hafter⟩ | ⟨q, w₁, hopen, hwrites⟩
  · rw [hafter, ← after_error hopen]
    exact hadds.keepsDirs
  · rw [after_ok hopen] at hadds
    exact fun r hr => hwrites.keepsDirs r (hadds.keepsDirs r hr)

/-- **A save leaves the inside of the other versions alone**, at whatever step it fails. -/
theorem save_sameInside {v : Place} (h : w.disk.DirAt (appRootDir root) place)
    (hname : Path.IsName info.name) (hv : TwoBelow place v)
    (hne : (SavedDeployment.mk now (sha256 tgz)).dirName :: info.name :: place ≠ v) :
    SameInside v w.disk (after (save root info now tgz) w) := by
  have hopened := openDir_version_sameInside h hname hv ⟨now, sha256 tgz⟩
  rcases after_save root info now tgz w with ⟨e, w₁, hopen, hafter⟩ | ⟨q, w₁, hopen, hwrites⟩
  · rw [hafter, ← after_error hopen]
    exact hopened
  · rw [after_ok hopen] at hopened
    refine hopened.trans fun name => hwrites.node_eq ?_
    rintro (⟨n, hq⟩ | hq)
    · rw [savePath_eq root hname, Path.place_names, ← Disk.resolve_place h.1] at hq
      exact hne (List.cons.inj hq).2.symm
    · exact infoPath_place_ne h hname hv name hq

end Frame

/-! ### What extracting leaves -/

section Extracted

variable {p : Path} {place : Place} {w w' : World}

/-- One entry is written under its file name. -/
theorem writeEntry_wrote (h : w.disk.DirAt p place) {e : TarEntry}
    (hw : writeEntry p (.ok e.entry) w = .ok () w') : w'.disk.DirAt p place ∧
      ∃ name, e.fileName = some name ∧ ∀ q, w'.disk.node q =
        if q = name :: place then some (.file e.contents) else w.disk.node q := by
  have hentry : writeEntry p (.ok e.entry) =
      (lift (e.fileName.elim (.error .notFound) .ok) >>= fun name =>
        write (p.join name) e.contents) := rfl
  rw [hentry] at hw
  obtain ⟨name, w₁, hlift, hwrite⟩ := bind_ok.mp hw
  obtain ⟨hfile, rfl⟩ := lift_ok hlift
  have hname : e.fileName = some name := by
    rcases hn : e.fileName with _ | n
    · rw [hn] at hfile
      exact absurd hfile (by simp)
    · rw [hn] at hfile
      exact congrArg some (Except.ok.inj hfile)
  rw [Path.join_name (Path.isName_of_fileName hname)] at hwrite
  obtain ⟨q, hq, hfree, hnode⟩ := write_ok hwrite
  rw [h.resolve_cons] at hq
  obtain rfl := Except.ok.inj hq
  have hwrites : WritesFiles (fun _ => True) w₁.disk w'.disk := .single hfree hnode trivial
  exact ⟨hwrites.keepsDirs.dirAt h, name, hname, hnode⟩

/-- **Each entry has a file name, and the last one with a name is what is under it**, whatever the
operations after these meet. -/
theorem node_extracted (h : w.disk.DirAt p place) {es : List TarEntry}
    (hw : (es.map fun e => Except.ok e.entry).forM (writeEntry p) w = .ok () w') :
    w'.disk.DirAt p place ∧ (∀ e ∈ es, ∃ name, e.fileName = some name) ∧
      ∀ name, w'.disk.node (name :: place) = leftUnder es w.disk place name := by
  induction es generalizing w with
  | nil =>
    obtain ⟨-, rfl⟩ := EStateM.Result.ok.inj hw
    exact ⟨h, by simp, fun name => rfl⟩
  | cons e es ih =>
    obtain ⟨⟨⟩, w₁, hentry, hrest⟩ := bind_ok.mp hw
    obtain ⟨hdir, name, hname, hnode⟩ := writeEntry_wrote h hentry
    obtain ⟨hdir', hnames, hleft⟩ := ih hdir hrest
    rw [leftUnder_cons hname hnode] at hleft
    exact ⟨hdir', List.forall_mem_cons.mpr ⟨⟨name, hname⟩, hnames⟩, hleft⟩

variable {target : Target} {es : List TarEntry} {binary : TarEntry}

/-- Names that end with the word of the target are those of the binary. -/
def WordIsExtension (target : Target) (es : List TarEntry) : Prop :=
  ∀ e ∈ es, ∀ name, e.fileName = some name → target.extensionMatches name = true →
    e.IsBinary target

/-- An archive with one binary, in a directory that was empty. -/
theorem holdsBinary_extracted (h : w.disk.DirAt p place)
    (hfresh : ∀ name, w.disk.node (name :: place) = none) (hone : OneBinary target es binary)
    (hword : WordIsExtension target es)
    (hw : (es.map fun e => Except.ok e.entry).forM (writeEntry p) w = .ok () w') :
    HoldsBinary w'.disk place target binary.contents := by
  obtain ⟨hdir, hnames, hleft⟩ := node_extracted h hw
  obtain ⟨-, hall⟩ := hone.of_files hfresh hnames hword
  have hmem : binary ∈ es.filter fun e => e.IsBinary target := by simp [hone.only]
  obtain ⟨hin, hbinary⟩ := List.mem_filter.mp hmem
  obtain ⟨name, hname, hmatches⟩ := (of_decide_eq_true hbinary).matches
  obtain ⟨last, hlast⟩ := exists_lastNamed hin hname
  refine ⟨hdir.2, ⟨name, hmatches, ?_⟩, fun name' node hmatches' hnode => ?_⟩
  · rw [hleft, leftUnder, hlast]
    simp
  · rw [hleft] at hnode
    exact hall name' node hmatches' hnode

end Extracted

/-! ### Runs of a database -/

section Run

variable [Archives] [Crates]

/-- What happens to a database: a call of `add_app`, with any outcome, or a start of the server,
which lists the directories in some order. -/
inductive DatabaseStep where
  | add (c : AddCall)
  | restart (listing : Listing) (faults : List (Option Fault))

def databaseStep (root : Path) (db : Database) : DatabaseStep → Option Database
  | .add c =>
    match addApp root db.inner c.info c.bin c.now ⟨db.disk, c.faults⟩ with
    | (_, inner, w) => some ⟨inner, w.disk⟩
  | .restart listing faults =>
    match DeploymentDatabase.readDir listing root ⟨db.disk, faults⟩ with
    | .ok inner w => some ⟨inner, w.disk⟩
    | .error _ _ => none

/-- The call saves into the directory of another one. -/
def AddCall.Overwrites (c' c : AddCall) : Prop :=
  c'.info.name = c.info.name ∧ ∃ tgz, c'.bin = .ok tgz ∧
    (SavedDeployment.mk c'.now (sha256 tgz)).dirName = c.saved.dirName

/-- The server goes on, without another version of the application. -/
def DatabaseStep.Leaves (id : Uuid) : DatabaseStep → Prop
  | .add c => c.info.id ≠ id
  | .restart _ _ => False

variable {root : Path} {place : Place} {db db' : Database} {c : AddCall}

/-- A call changes the disk by a save, and memory under its id. -/
theorem databaseStep_add (h : databaseStep root db (.add c) = some db') :
    (db'.disk = db.disk ∨ ∃ tgz, c.bin = .ok tgz ∧
      db'.disk = after (save root c.info c.now tgz) ⟨db.disk, c.faults⟩) ∧
    ∀ id, id ≠ c.info.id → db'.inner.apps.lookup id = db.inner.apps.lookup id := by
  unfold databaseStep addApp at h
  rcases hbin : c.bin with e | tgz
  · simp only [hbin, Option.some.injEq] at h
    subst h
    exact ⟨.inl rfl, fun id _ => rfl⟩
  · rcases hs : save root c.info c.now tgz ⟨db.disk, c.faults⟩ with ⟨saved, w⟩ | ⟨e, w⟩
    · simp only [hbin, hs, Option.some.injEq] at h
      subst h
      refine ⟨.inr ⟨tgz, rfl, (after_ok hs).symm⟩, fun id hid => ?_⟩
      rw [lookup_insert, if_neg hid]
    · simp only [hbin, hs, Option.some.injEq] at h
      subst h
      exact ⟨.inr ⟨tgz, rfl, (after_error hs).symm⟩, fun id _ => rfl⟩

/-- A start of the server opens the root directory. -/
theorem databaseStep_restart {listing : Listing} {faults : List (Option Fault)}
    (h : databaseStep root db (.restart listing faults) = some db') : ∃ q w,
      openDirRoot (appRootDir root) ⟨db.disk, faults⟩ = .ok q w ∧ db'.disk = w.disk := by
  unfold databaseStep at h
  rcases hr : DeploymentDatabase.readDir listing root ⟨db.disk, faults⟩ with ⟨inner, w⟩ | ⟨e, w⟩
  · simp only [hr, Option.some.injEq] at h
    subst h
    obtain ⟨q, hopen, -⟩ := readDir_ok.mp hr
    exact ⟨q, w, hopen, rfl⟩
  · simp [hr] at h

/-- A call that succeeds, with an archive of one binary for the target, in a directory that was not
there. -/
structure Uploads (root : Path) (place : Place) (db : Database) (c : AddCall) (target : Target)
    (es : List TarEntry) (binary : TarEntry) : Prop where
  name : Path.IsName c.info.name
  fresh : db.disk.node (c.saved.dirName :: c.info.name :: place) = none
  packed : ∃ tgz, c.bin = .ok tgz ∧ entries tgz = .ok (es.map fun e => .ok e.entry)
  one : OneBinary target es binary
  word : WordIsExtension target es

variable {target : Target} {es : List TarEntry} {binary : TarEntry}

omit [Archives] [Crates] in
/-- What is saved last is the latest version. -/
theorem latestDir_insert (inner : Inner) (info : DeploymentInfo) (saved : SavedDeployment) :
    latestDir root (inner.insert info saved) info = .ok (savePath root info saved) := by
  have hlook := lookup_insert inner info saved info.id
  rw [if_pos rfl] at hlook
  unfold latestDir
  rw [hlook]
  rcases inner.apps.lookup info.id with _ | a
  · rfl
  · simp only [Option.elim_some, List.getLast?_concat]
    rfl

/-- The archive is extracted into the new directory, and the info is written next to it. -/
theorem holdsBinary_save {w w' : World} {info : DeploymentInfo} {now : DateTime}
    {tgz : List UInt8} {saved : SavedDeployment} (hroot : w.disk.DirAt (appRootDir root) place)
    (hname : Path.IsName info.name) (hs : save root info now tgz w = .ok saved w')
    (hfresh : w.disk.node (saved.dirName :: info.name :: place) = none)
    (hes : entries tgz = .ok (es.map fun e => .ok e.entry)) (hone : OneBinary target es binary)
    (hword : WordIsExtension target es) :
    HoldsBinary w'.disk (saved.dirName :: info.name :: place) target binary.contents := by
  have hv := twoBelow_version place info saved
  have hplace := Disk.resolve_place hroot.1
  obtain ⟨⟨⟩, w₂, htgz, hrest⟩ := bind_ok.mp hs
  obtain ⟨⟨⟩, w₃, hinfo, hrest⟩ := bind_ok.mp hrest
  obtain ⟨rfl, rfl⟩ := EStateM.Result.ok.inj hrest
  obtain ⟨q, w₀, hopen, hrest⟩ := bind_ok.mp htgz
  obtain ⟨archive, w₁, hlift, hextract⟩ := bind_ok.mp hrest
  obtain ⟨harchive, rfl⟩ := lift_ok hlift
  obtain rfl := Except.ok.inj (hes.symm.trans harchive)
  -- the directory is made, and nothing is in it
  have hsame := openDir_version_sameInside hroot hname hv ⟨now, sha256 tgz⟩
  unfold savePath at hsame
  rw [after_ok hopen] at hsame
  have hdir := openDir_ok hopen
  obtain rfl : q = (SavedDeployment.mk now (sha256 tgz)).dirName :: info.name :: place := by
    have hq := Disk.resolve_place hdir.1
    have hpath := savePath_eq root hname ⟨now, sha256 tgz⟩
    unfold savePath at hpath
    rw [hpath, Path.place_names, ← hplace] at hq
    exact hq
  have hempty : ∀ name, w₁.disk.node (name :: (SavedDeployment.mk now (sha256 tgz)).dirName ::
      info.name :: place) = none := by
    intro name
    rw [hsame]
    by_contra hthere
    obtain ⟨node, hnode⟩ := Option.ne_none_iff_exists'.mp hthere
    rw [Disk.node_tail hnode] at hfresh
    exact absurd hfresh (by simp)
  -- the entries are written into it, and the info next to it
  have hheld := holdsBinary_extracted hdir hempty hone hword hextract
  obtain ⟨q, hq, hfree, hnode⟩ := write_ok hinfo
  have hwrites : WritesFiles (fun r => r = q) w₂.disk w₃.disk := .single hfree hnode rfl
  refine hheld.of_sameInside hwrites.keepsDirs fun name => hwrites.node_eq ?_
  rw [Disk.resolve_place hq, Path.join_name isName_infoFileName]
  exact infoPath_place_ne hroot hname hv name

/-- The directory of the version, after the call. -/
theorem Uploads.holdsBinary (h : Uploads root place db c target es binary)
    (hroot : db.disk.DirAt (appRootDir root) place) (hadd : addStep root db c = some db') :
    HoldsBinary db'.disk (c.saved.dirName :: c.info.name :: place) target binary.contents ∧
      db'.disk.DirAt (appRootDir root) place ∧
      latestDir root db'.inner c.info = .ok (savePath root c.info c.saved) := by
  obtain ⟨tgz, hbin, hentries⟩ := h.packed
  obtain ⟨tgz', w, hbin', hsave, rfl⟩ := addStep_eq_some hadd
  obtain rfl : tgz = tgz' := Except.ok.inj (hbin.symm.trans hbin')
  have hsaved := AddCall.saved_of_ok hbin
  have hfresh := h.fresh
  rw [hsaved] at hfresh ⊢
  have hdirs := save_keepsDirs root c.info c.now tgz ⟨db.disk, c.faults⟩
  rw [after_ok hsave] at hdirs
  exact ⟨holdsBinary_save hroot h.name hsave hfresh hentries h.one h.word, hdirs.dirAt hroot,
    latestDir_insert _ _ _⟩

/-- The directory holds the binary, below the root directory of the applications. -/
structure Stands (root : Path) (place v : Place) (target : Target) (contents : List UInt8)
    (db : Database) : Prop where
  root : db.disk.DirAt (appRootDir root) place
  binary : HoldsBinary db.disk v target contents

/-- **A directory stands through one step**, if the step does not save into it. -/
theorem Stands.step {v : Place} {contents : List UInt8} {s : DatabaseStep}
    (h : Stands root place v target contents db) (hv : TwoBelow place v)
    (hothers : ∀ c, s = .add c → Path.IsName c.info.name ∧ ∀ tgz, c.bin = .ok tgz →
      (SavedDeployment.mk c.now (sha256 tgz)).dirName :: c.info.name :: place ≠ v)
    (hstep : databaseStep root db s = some db') : Stands root place v target contents db' := by
  have key : KeepsDirs db.disk db'.disk ∧ SameInside v db.disk db'.disk := by
    cases s with
    | add c =>
      obtain ⟨hname, hne⟩ := hothers c rfl
      obtain ⟨hsame | ⟨tgz, hbin, hsave⟩, -⟩ := databaseStep_add hstep
      · rw [hsame]
        exact ⟨fun q hq => hq, fun name => rfl⟩
      · rw [hsave]
        exact ⟨save_keepsDirs root c.info c.now tgz ⟨db.disk, c.faults⟩,
          save_sameInside (w := ⟨db.disk, c.faults⟩) h.root hname hv (hne tgz hbin)⟩
    | restart listing faults =>
      obtain ⟨q, w, hopen, hsame⟩ := databaseStep_restart hstep
      rw [hsame]
      exact openDirRoot_sameInside (w := ⟨db.disk, faults⟩) h.root hv hopen
  exact ⟨key.1.dirAt h.root, h.binary.of_sameInside key.1 key.2⟩

/-- **What was uploaded is what is served.** The names of all calls are single components. After a
call that succeeds with an archive of one binary, other applications are added, calls fail wherever
they fail, and the server is started again, in any order, but nothing is saved into the same
directory. Then `get` returns the binary from the archive as long as the version is the latest one
in memory, which it is until the next version is added or the server is started again. -/
theorem uploaded_is_served {db₁ : Database} {ys : List DatabaseStep}
    (hroot : db.disk.DirAt (appRootDir root) place)
    (hup : Uploads root place db c target es binary) (hadd : addStep root db c = some db₁)
    (hothers : ∀ c', .add c' ∈ ys → Path.IsName c'.info.name ∧ ¬ c'.Overwrites c)
    (hrun : run (databaseStep root) db₁ ys = some db') {listing : Listing}
    (hl : db'.disk.Lists listing) :
    (∀ info, latestDir root db'.inner info = .ok (savePath root c.info c.saved) →
      get root db'.inner db'.disk listing info target = .ok binary.contents) ∧
    ((∀ y ∈ ys, y.Leaves c.info.id) →
      get root db'.inner db'.disk listing c.info target = .ok binary.contents) := by
  obtain ⟨hbinary, hroot₁, hlatest⟩ := hup.holdsBinary hroot hadd
  have hv := twoBelow_version place c.info c.saved
  -- the directory stands throughout
  have hstands := run_invariant_of (K := fun y => ∀ c', y = .add c' →
      Path.IsName c'.info.name ∧ ¬ c'.Overwrites c)
    (I := Stands root place (c.saved.dirName :: c.info.name :: place) target binary.contents)
    (fun s y s' hy hs hstep => hs.step hv (fun c' hc' => by
      obtain ⟨hname, hover⟩ := hy c' hc'
      refine ⟨hname, fun tgz hbin hq => hover ?_⟩
      simp only [List.cons.injEq, and_true] at hq
      exact ⟨hq.2, tgz, hbin, hq.1⟩) hstep)
    ⟨hroot₁, hbinary⟩ (fun y hy c' hc' => hothers c' (by rw [← hc']; exact hy)) hrun
  have hget : ∀ info, latestDir root db'.inner info = .ok (savePath root c.info c.saved) →
      get root db'.inner db'.disk listing info target = .ok binary.contents :=
    fun info hinfo => hstands.binary.get hstands.root hup.name hinfo hl
  refine ⟨hget, fun hleaves => hget c.info ?_⟩
  -- memory goes on with the version
  exact run_invariant_of (K := fun y => y.Leaves c.info.id)
    (I := fun db => latestDir root db.inner c.info = .ok (savePath root c.info c.saved))
    (fun s y s' hy hs hstep => by
      cases y with
      | restart listing faults => exact absurd hy id
      | add c' =>
        obtain ⟨-, hlook⟩ := databaseStep_add hstep
        unfold latestDir at hs ⊢
        rw [hlook _ (Ne.symm hy)]
        exact hs) hlatest hleaves hrun

end Run

section Examples

/-- The files of a release, compressed. -/
def faceArchive : List UInt8 :=
  [31, 139, 8, 0, 0, 0, 0, 0, 2, 3, 237, 211, 65, 10, 194, 48, 16, 5, 208, 28, 197, 19, 148, 42,
    177, 158, 39, 136, 217, 181, 5, 171, 232, 241, 77, 93, 137, 251, 132, 66, 223, 219, 252, 97,
    54, 179, 24, 126, 78, 215, 91, 55, 79, 211, 59, 212, 211, 23, 67, 140, 223, 44, 254, 179, 136,
    63, 243, 186, 191, 156, 227, 49, 28, 250, 208, 192, 115, 121, 164, 123, 57, 25, 246, 169, 242,
    235, 217, 184, 188, 246, 255, 149, 150, 113, 99, 253, 63, 13, 250, 223, 66, 229, 215, 3, 0, 0,
    0, 0, 0, 0, 0, 80, 217, 7, 87, 212, 148, 89, 0, 40, 0, 0]

/-- What the crates make of it. -/
@[reducible] def Archives.released : Archives :=
  { Archives.sample with
    entries := fun tgz =>
      if tgz = faceArchive then .ok (release.map fun e => .ok e.entry)
      else Archives.sample.entries tgz
    sha256 := fun tgz =>
      if tgz = faceArchive then
        ⟨0xf439749fcb167ae79b037bc5458bb7ba53f14680a7892f00f53098629f7db433, by decide⟩
      else Archives.sample.sha256 tgz }

attribute [local instance] Crates.hyphenated Archives.released

/-- The release is deployed as `face`. -/
def releaseCall : AddCall :=
  ⟨⟨5, face.name, face.source⟩, .ok faceArchive, older.timestamp, []⟩

/-- A minute later, another archive for `face` is not found. -/
def missingCall : AddCall :=
  ⟨⟨6, face.name, face.source⟩, .ok notFoundPage, newer.timestamp, []⟩

theorem releaseCall_succeeds : ∃ db,
    addStep [] ⟨⟨.empty _, []⟩, freshDisk⟩ releaseCall = some db := by
  have hsome : (addStep [] ⟨⟨.empty _, []⟩, freshDisk⟩ releaseCall).isSome := by decide +kernel
  exact Option.isSome_iff_exists.mp hsome

theorem wordIsExtension_release : WordIsExtension .onnx release := by
  have hall : ∀ e ∈ release, e.fileName.all fun name =>
      !Target.onnx.extensionMatches name || decide (e.IsBinary .onnx) := by
    decide +kernel
  intro e he name hname hmatches
  have h := hall e he
  simpa [hname, hmatches] using h

/-- The release is a new version. -/
theorem uploads_release : Uploads [] ["apps"] ⟨⟨.empty _, []⟩, freshDisk⟩ releaseCall .onnx release
    ⟨"face.onnx", .regular, Protobuf.utf8 "onnx"⟩ where
  name := isName_face
  fresh := by
    by_contra hthere
    obtain ⟨node, hnode⟩ := Option.ne_none_iff_exists'.mp hthere
    exact freshDisk_empty _ (Disk.node_tail hnode)
  packed := ⟨faceArchive, rfl, by simp [entries]⟩
  one := oneBinary_release
  word := wordIsExtension_release

/-- Another time is another directory. -/
theorem missingCall_not_overwrites : ¬ missingCall.Overwrites releaseCall := by
  rintro ⟨-, tgz, -, hdir⟩
  let saved : SavedDeployment := ⟨missingCall.now, sha256 tgz⟩
  have hnewer : 0 ≤ saved.timestamp.secs := (by decide : (0 : ℤ) ≤ newer.timestamp.secs)
  have holder : 0 ≤ releaseCall.saved.timestamp.secs :=
    (by decide : (0 : ℤ) ≤ older.timestamp.secs)
  have hsame : some saved.toSecond = some releaseCall.saved.toSecond := by
    rw [← SavedDeployment.read_dirName hnewer, ← SavedDeployment.read_dirName holder]
    exact congrArg SavedDeployment.read hdir
  have hsecs : newer.timestamp.secs = older.timestamp.secs :=
    congrArg (fun s => s.timestamp.secs) (Option.some.inj hsame)
  exact absurd hsecs (by decide)

/-- The binary of the release is served, also after a later archive for the name was not found. -/
theorem release_stays : ∃ db₁ db', addStep [] ⟨⟨.empty _, []⟩, freshDisk⟩ releaseCall = some db₁ ∧
    run (databaseStep []) db₁ [.add missingCall] = some db' ∧
    ∀ listing, db'.disk.Lists listing →
      get [] db'.inner db'.disk listing releaseCall.info .onnx = .ok (Protobuf.utf8 "onnx") := by
  obtain ⟨db₁, hadd⟩ := releaseCall_succeeds
  have hsome : (run (databaseStep []) db₁ [.add missingCall]).isSome := rfl
  obtain ⟨db', hrun⟩ := Option.isSome_iff_exists.mp hsome
  refine ⟨db₁, db', hadd, hrun, fun listing hl => (uploaded_is_served opened_freshDisk.dirAt
    uploads_release hadd (fun c' hc' => ?_) hrun hl).2 fun y hy => ?_⟩
  · obtain rfl : c' = missingCall := by simpa using hc'
    exact ⟨isName_face, missingCall_not_overwrites⟩
  · obtain rfl := List.mem_singleton.mp hy
    exact (by decide : (6 : Uuid) ≠ 5)

end Examples

end Laqista
