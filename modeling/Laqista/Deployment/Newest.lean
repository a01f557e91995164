import Laqista.Deployment.Reading

/-! # Which version is served after a restart

`get` reads from the directory of the last deployment of an application. Before a restart that is
the one saved last; after it the deployments are in the order in which the directory lists them
(`latestDir_of_read`). So the newest version is served exactly when its directory is listed last
(`newest_served_iff`). -/

namespace Laqista

open Laqista.Proto Laqista.Lib Laqista.Fs

/-- The saved deployment has the largest timestamp. -/
def Newest (saves : List SavedDeployment) (newest : SavedDeployment) : Prop :=
  newest ∈ saves ∧ ∀ s ∈ saves, s.timestamp.secs ≤ newest.timestamp.secs

/-- The version directories, in the order in which they are listed. -/
def listedVersions (listing : Listing) (app : Place) : List String :=
  (listing app).filter fun name => name ≠ infoFileName

/-- `get` reads from the directory at a place. -/
def ServedFrom (d : Disk) (root : Path) (inner : Inner) (info : DeploymentInfo) (place : Place) :
    Prop :=
  ∃ path, DeploymentDatabase.latestDir root inner info = .ok path ∧ d.DirAt path place

/-- `get` reads from the directory of the last deployment. -/
theorem latestDir_ok {root : Path} {inner : Inner} {info : DeploymentInfo} {app : SavedApplication}
    (h : inner.apps.lookup info.id = some app) {path : Path} :
    DeploymentDatabase.latestDir root inner info = .ok path ↔
      ∃ s, app.deployments.getLast? = some s ∧ (appDir root info).join s.dirName = path := by
  unfold DeploymentDatabase.latestDir
  simp only [h]
  rcases app.deployments.getLast? with _ | s
  · simp
  · simp

/-- The last element that is kept is the last element, if all are. -/
theorem getLast?_filterMap_of_isSome {α β : Type} {f : α → Option β} {l : List α}
    (h : ∀ a ∈ l, (f a).isSome) : (l.filterMap f).getLast? = l.getLast?.bind f := by
  rcases l.eq_nil_or_concat with rfl | ⟨init, a, rfl⟩
  · rfl
  · obtain ⟨b, hb⟩ := Option.isSome_iff_exists.mp (h a (by simp))
    simp [List.filterMap_append, hb]

/-- What is printed again after it was read is the name that was read. -/
theorem dirName_toSecond (s : SavedDeployment) : s.toSecond.dirName = s.dirName := rfl

/-- The deployments that are read are those of the listed version directories. -/
theorem filterMap_listedVersions (listing : Listing) (app : Place) :
    (listedVersions listing app).filterMap SavedDeployment.read =
      (listing app).filterMap SavedDeployment.read := by
  unfold listedVersions
  induction listing app with
  | nil => rfl
  | cons name names ih =>
    by_cases hn : name = infoFileName
    · rw [List.filter_cons_of_neg (by simpa using hn), List.filterMap_cons, hn,
        read_infoFileName, ih]
    · rw [List.filter_cons_of_pos (by simpa using hn), List.filterMap_cons, List.filterMap_cons, ih]

section Restarted

variable [Archives] [Crates]

/-- The directory of an application after successive saves, each at a later second. -/
structure SavedInOrder (d : Disk) (app : Place) (info : DeploymentInfo)
    (saves : List SavedDeployment) : Prop where
  dir : d.node app = some .dir
  info : d.node (infoFileName :: app) = some (.file (encode info.into))
  only : ∀ name contents, d.node (name :: app) = some (.file contents) → name = infoFileName
  versions : ∀ name, d.node (name :: app) = some .dir ↔ ∃ s ∈ saves, s.dirName = name
  increasing : saves.Pairwise fun s t => s.timestamp.secs < t.timestamp.secs

variable {d : Disk} {listing : Listing} {app : Place} {info : DeploymentInfo}
  {saves : List SavedDeployment}

namespace SavedInOrder

/-- If the directory can be read at all, it is read as the directory of the application. -/
theorem appDir (h : SavedInOrder d app info saves) (hl : d.Lists listing) {a : SavedApplication}
    (ha : readPerApp d listing app = .ok a) : AppDir d app info := by
  have hdir := AppDir.of_readPerApp h.dir h.only hl ha
  obtain ⟨contents, hc, hi⟩ := hdir.info
  rw [h.info] at hc
  obtain rfl := Node.file.inj (Option.some.inj hc)
  rw [infoOf_encode] at hi
  obtain rfl := Option.some.inj hi
  exact hdir

/-- The name of each version directory is read as what was saved. -/
theorem read_version (h : SavedInOrder d app info saves) (hdir : AppDir d app info)
    {name : String} (hn : d.node (name :: app) = some .dir) :
    ∃ s ∈ saves, s.dirName = name ∧ SavedDeployment.read name = some s.toSecond := by
  obtain ⟨s, hs, rfl⟩ := (h.versions name).mp hn
  have hread := hdir.versions _ hn
  by_cases hsecs : 0 ≤ s.timestamp.secs
  · exact ⟨s, hs, rfl, SavedDeployment.read_dirName hsecs⟩
  · rw [SavedDeployment.read_dirName_neg (by omega)] at hread
    exact absurd hread (by simp)

theorem mem_listedVersions (h : SavedInOrder d app info saves) (hl : d.Lists listing)
    {name : String} : name ∈ listedVersions listing app ↔ d.node (name :: app) = some .dir := by
  unfold listedVersions
  rw [List.mem_filter, (hl app h.dir).2 name, decide_eq_true_eq]
  constructor
  · rintro ⟨hnode, hne⟩
    rcases hn : d.node (name :: app) with _ | contents | _
    · exact absurd hn hnode
    · exact absurd (h.only name contents hn) hne
    · rfl
  · intro hn
    refine ⟨by simp [hn], ?_⟩
    rintro rfl
    rw [h.info] at hn
    exact absurd hn (by simp)

/-- The last deployment that is read is that of the version directory listed last. -/
theorem getLast?_read (h : SavedInOrder d app info saves) (hl : d.Lists listing)
    (hdir : AppDir d app info) : ((listing app).filterMap SavedDeployment.read).getLast?.map
      SavedDeployment.dirName = (listedVersions listing app).getLast? := by
  have hread : ∀ name ∈ listedVersions listing app,
      ∃ s ∈ saves, s.dirName = name ∧ SavedDeployment.read name = some s.toSecond :=
    fun name hn => h.read_version hdir ((h.mem_listedVersions hl).mp hn)
  have hsome : ∀ name ∈ listedVersions listing app, (SavedDeployment.read name).isSome := by
    intro name hn
    obtain ⟨s, -, -, hs⟩ := hread name hn
    rw [hs]
    rfl
  rw [← filterMap_listedVersions, getLast?_filterMap_of_isSome hsome]
  rcases hlast : (listedVersions listing app).getLast? with _ | name
  · rfl
  · obtain ⟨s, -, rfl, hs⟩ := hread name (List.mem_of_getLast? hlast)
    rw [Option.bind_some, hs, Option.map_some, dirName_toSecond]

end SavedInOrder

/-- The application that is read from a directory is stored under its id, if no other directory has
an application with the id. -/
theorem lookup_of_read {root : Path} {w₀ w : World} {inner : Inner} {place : Place}
    (hread : DeploymentDatabase.readDir listing root w₀ = .ok inner w)
    (hroot : w.disk.DirAt (appRootDir root) place) (hl : w.disk.Lists listing)
    (hsaves : SavedInOrder w.disk (info.name :: place) info saves)
    (hunique : ∀ name a, name ≠ info.name → w.disk.node (name :: place) = some .dir →
      readPerApp w.disk listing (name :: place) = .ok a → a.info.id ≠ info.id) :
    AppDir w.disk (info.name :: place) info ∧ inner.apps.lookup info.id =
      some ⟨info, (listing (info.name :: place)).filterMap SavedDeployment.read⟩ := by
  obtain ⟨place', hopen, hfold, -⟩ := DeploymentDatabase.readDir_ok.mp hread
  obtain rfl : place' = place := by
    have hplace := (openDirRoot_ok hopen).1.1
    rw [hroot.1] at hplace
    exact (Except.ok.inj hplace).symm
  have hmem : info.name ∈ listing place' := ((hl place' hroot.2).2 _).mpr (by simp [hsaves.dir])
  obtain ⟨a, ha⟩ := (isOk_readRootEntries.mp ⟨_, hfold⟩ _ hmem).2 hsaves.dir
  have hdir := hsaves.appDir hl ha
  have hread' := hdir.readPerApp hl
  refine ⟨hdir, readRootEntries_lookup hfold ?_ (.inr ⟨info.name, hmem, hsaves.dir, hread'⟩)⟩
  intro name _ b hb hreadb hid
  by_cases hname : name = info.name
  · subst hname
    rw [hread'] at hreadb
    exact (Except.ok.inj hreadb).symm
  · exact absurd hid (hunique name b hname hb hreadb)

/-- A version is served exactly when its directory is listed last. -/
theorem served_iff_listed_last {root : Path} {w₀ w : World} {inner : Inner} {place : Place}
    {s : SavedDeployment} (hread : DeploymentDatabase.readDir listing root w₀ = .ok inner w)
    (hroot : w.disk.DirAt (appRootDir root) place) (hl : w.disk.Lists listing)
    (hname : Path.IsName info.name)
    (hsaves : SavedInOrder w.disk (info.name :: place) info saves)
    (hunique : ∀ name a, name ≠ info.name → w.disk.node (name :: place) = some .dir →
      readPerApp w.disk listing (name :: place) = .ok a → a.info.id ≠ info.id)
    (hs : s ∈ saves) :
    ServedFrom w.disk root inner info (s.dirName :: info.name :: place) ↔
      (listedVersions listing (info.name :: place)).getLast? = some s.dirName := by
  obtain ⟨hdir, hlookup⟩ := lookup_of_read hread hroot hl hsaves hunique
  have hlast := hsaves.getLast?_read hl hdir
  have happ : w.disk.DirAt (appDir root info) (info.name :: place) := by
    refine ⟨?_, hsaves.dir⟩
    unfold appDir
    rw [Path.join_name hname, hroot.resolve_cons]
    rfl
  -- the directory of a saved deployment, under its name
  have hversion : ∀ t : SavedDeployment, w.disk.resolve ((appDir root info).join t.dirName) =
      .ok (t.dirName :: info.name :: place) := by
    intro t
    rw [Path.join_name t.isName_dirName, happ.resolve_cons]
    rfl
  unfold ServedFrom
  simp only [latestDir_ok hlookup]
  rw [← hlast, Option.map_eq_some_iff]
  constructor
  · rintro ⟨_, ⟨t, ht, rfl⟩, hplace, -⟩
    rw [hversion t] at hplace
    exact ⟨t, ht, (List.cons.inj (Except.ok.inj hplace)).1⟩
  · rintro ⟨t, ht, hname⟩
    refine ⟨_, ⟨t, ht, rfl⟩, ?_, (hsaves.versions _).mpr ⟨s, hs, rfl⟩⟩
    rw [hversion t, hname]

/-- **The newest version is served exactly when its directory is listed last.** -/
theorem newest_served_iff {root : Path} {w₀ w : World} {inner : Inner} {place : Place}
    {newest : SavedDeployment}
    (hread : DeploymentDatabase.readDir listing root w₀ = .ok inner w)
    (hroot : w.disk.DirAt (appRootDir root) place) (hl : w.disk.Lists listing)
    (hname : Path.IsName info.name)
    (hsaves : SavedInOrder w.disk (info.name :: place) info saves)
    (hunique : ∀ name a, name ≠ info.name → w.disk.node (name :: place) = some .dir →
      readPerApp w.disk listing (name :: place) = .ok a → a.info.id ≠ info.id)
    (hnewest : Newest saves newest) :
    ServedFrom w.disk root inner info (newest.dirName :: info.name :: place) ↔
      (listedVersions listing (info.name :: place)).getLast? = some newest.dirName :=
  served_iff_listed_last hread hroot hl hname hsaves hunique hnewest.1

end Restarted

section Examples

attribute [local instance] Crates.hyphenated Archives.sample

def face : DeploymentInfo :=
  ⟨5, "face", "https://github.com/kino-ma/laqista/releases/download/v0.1.0/face_v0.1.0.tgz"⟩

theorem isName_face : Path.IsName face.name := by unfold Path.IsName; decide

def older : SavedDeployment := ⟨⟨1700000000, 0, by decide, by decide⟩, sha256 emptyArchive⟩

def newer : SavedDeployment := ⟨⟨1700000060, 0, by decide, by decide⟩, sha256 emptyArchive⟩

/-- The disk on which a database was opened in an empty directory. -/
@[irreducible] def freshDisk : Disk := after (openDirRoot (appRootDir [])) ⟨.blank, []⟩

/-- The disk after `face` was added twice, a minute apart. -/
@[irreducible] def savedTwice : Disk :=
  let first := DeploymentDatabase.addApp [] ⟨.empty _, []⟩ face (.ok emptyArchive)
    older.timestamp ⟨freshDisk, []⟩
  (DeploymentDatabase.addApp [] first.2.1 face (.ok emptyArchive) newer.timestamp
    first.2.2).2.2.disk

/-- A listing of the root directory, with the directory of `face` in the given order. -/
def faceListed (names : List String) : Listing := fun place =>
  if place = ["face", "apps"] then names
  else if place = ["apps"] then [gitignoreFileName, "face"]
  else if place = [] then ["apps"]
  else []

def newerFirst : List String := [infoFileName, newer.dirName, older.dirName]

def newerLast : List String := [infoFileName, older.dirName, newer.dirName]

theorem savedTwice_nodes : savedTwice.Lists (faceListed newerFirst) ∧
    savedTwice.Lists (faceListed newerLast) ∧
    savedTwice.resolve (appRootDir []) = .ok ["apps"] ∧
    savedTwice.node [gitignoreFileName, "apps"] = some (.file gitignoreContent) ∧
    savedTwice.node ["face", "apps"] = some .dir ∧
    savedTwice.node [infoFileName, "face", "apps"] = some (.file (encode face.into)) ∧
    savedTwice.node [older.dirName, "face", "apps"] = some .dir ∧
    savedTwice.node [newer.dirName, "face", "apps"] = some .dir := by
  decide +kernel

theorem savedInOrder_face :
    SavedInOrder savedTwice ["face", "apps"] face [older, newer] := by
  obtain ⟨hl, -, -, -, hdir, hinfo, holder, hnewer⟩ := savedTwice_nodes
  have hentries : ∀ name, savedTwice.node (name :: ["face", "apps"]) ≠ none →
      name = infoFileName ∨ name = newer.dirName ∨ name = older.dirName := by
    intro name hn
    have hmem := ((hl _ hdir).2 name).mpr hn
    simpa [faceListed, newerFirst] using hmem
  refine ⟨hdir, hinfo, ?_, ?_, by simp [older, newer]⟩
  · intro name contents hn
    rcases hentries name (by simp [hn]) with rfl | rfl | rfl
    · rfl
    · rw [hnewer] at hn
      exact absurd hn (by simp)
    · rw [holder] at hn
      exact absurd hn (by simp)
  · intro name
    constructor
    · intro hn
      rcases hentries name (by simp [hn]) with rfl | rfl | rfl
      · rw [hinfo] at hn
        exact absurd hn (by simp)
      · exact ⟨newer, by simp, rfl⟩
      · exact ⟨older, by simp, rfl⟩
    · rintro ⟨s, hs, rfl⟩
      rcases List.mem_cons.mp hs with rfl | hs
      · exact holder
      · rw [List.mem_singleton.mp hs]
        exact hnewer

theorem newest_newer : Newest [older, newer] newer := by
  refine ⟨by simp, fun s hs => ?_⟩
  rcases List.mem_cons.mp hs with rfl | hs
  · decide
  · rw [List.mem_singleton.mp hs]

theorem opened_savedTwice : Opened savedTwice [] ["apps"] := by
  obtain ⟨-, -, happs, hgit, hdir, -⟩ := savedTwice_nodes
  exact ⟨⟨happs, Disk.node_tail hdir⟩, hgit⟩

/-- `face` is the only application. -/
theorem only_face {name : String} {names : List String}
    (hl : savedTwice.Lists (faceListed names)) (hne : name ≠ "face") :
    savedTwice.node (name :: ["apps"]) ≠ some .dir := by
  intro hn
  have hmem := ((hl _ (Disk.node_tail hn)).2 name).mpr (by simp [hn])
  have hgit := opened_savedTwice.gitignore
  have hname : name = gitignoreFileName ∨ name = "face" := by
    simpa [faceListed] using hmem
  rcases hname with rfl | rfl
  · rw [hgit] at hn
    exact absurd hn (by simp)
  · exact hne rfl

/-- The database can be opened again, however the directory of `face` is listed. -/
theorem exists_restart {names : List String} (hl : savedTwice.Lists (faceListed names)) :
    ∃ inner, DeploymentDatabase.readDir (faceListed names) [] ⟨savedTwice, []⟩ =
      .ok inner ⟨savedTwice, []⟩ := by
  have happ : AppDir savedTwice ["face", "apps"] face := by
    have h := savedInOrder_face
    refine ⟨h.dir, ⟨_, h.info, infoOf_encode face⟩, h.only, fun name hn => ?_⟩
    obtain ⟨s, hs, rfl⟩ := (h.versions name).mp hn
    have hsecs : 0 ≤ s.timestamp.secs := by
      rcases List.mem_cons.mp hs with rfl | hs
      · decide
      · rw [List.mem_singleton.mp hs]
        decide
    rw [SavedDeployment.read_dirName hsecs]
    rfl
  have hreadable : ∀ name ∈ faceListed names ["apps"], savedTwice.node (name :: ["apps"]) ≠ none ∧
      (savedTwice.node (name :: ["apps"]) = some .dir →
        ∃ a, readPerApp savedTwice (faceListed names) (name :: ["apps"]) = .ok a) := by
    intro name hmem
    refine ⟨((hl _ (Disk.node_tail happ.dir)).2 name).mp hmem, fun hn => ?_⟩
    by_cases hname : name = "face"
    · subst hname
      exact ⟨_, happ.readPerApp hl⟩
    · exact absurd hn (only_face hl hname)
  obtain ⟨map, hmap⟩ := isOk_readRootEntries.mpr hreadable
  exact ⟨⟨map, []⟩, DeploymentDatabase.readDir_ok.mpr
    ⟨["apps"], opened_savedTwice.openDirRoot, hmap, rfl⟩⟩

/-- The newer version is served if it is listed last. -/
theorem newer_served : ∃ inner,
    DeploymentDatabase.readDir (faceListed newerLast) [] ⟨savedTwice, []⟩ =
        .ok inner ⟨savedTwice, []⟩ ∧
      ServedFrom savedTwice [] inner face (newer.dirName :: ["face", "apps"]) := by
  obtain ⟨-, hl, -⟩ := savedTwice_nodes
  obtain ⟨inner, hread⟩ := exists_restart hl
  have hlast : (listedVersions (faceListed newerLast) ["face", "apps"]).getLast? =
      some newer.dirName := by
    decide
  exact ⟨inner, hread, (newest_served_iff hread opened_savedTwice.dirAt hl isName_face
    savedInOrder_face (fun name a hne hn => absurd hn (only_face hl hne)) newest_newer).mpr hlast⟩

/-- **The older version is served if it is listed last.** -/
theorem older_served : ∃ inner,
    DeploymentDatabase.readDir (faceListed newerFirst) [] ⟨savedTwice, []⟩ =
        .ok inner ⟨savedTwice, []⟩ ∧
      savedTwice.Lists (faceListed newerFirst) ∧
      SavedInOrder savedTwice ["face", "apps"] face [older, newer] ∧
      Newest [older, newer] newer ∧
      ServedFrom savedTwice [] inner face (older.dirName :: ["face", "apps"]) ∧
      ¬ ServedFrom savedTwice [] inner face (newer.dirName :: ["face", "apps"]) := by
  obtain ⟨hl, -⟩ := savedTwice_nodes
  obtain ⟨inner, hread⟩ := exists_restart hl
  have hserved : ∀ s ∈ [older, newer],
      ServedFrom savedTwice [] inner face (s.dirName :: ["face", "apps"]) ↔
        some older.dirName = some s.dirName :=
    fun s hs => served_iff_listed_last hread opened_savedTwice.dirAt hl isName_face
      savedInOrder_face (fun name a hne hn => absurd hn (only_face hl hne)) hs
  refine ⟨inner, hread, hl, savedInOrder_face, newest_newer, ?_, ?_⟩
  · exact (hserved older (by simp)).mpr rfl
  · intro h
    have hname := (hserved newer (by simp)).mp h
    exact absurd hname (by decide +kernel)

end Examples
end Laqista
