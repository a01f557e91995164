import Laqista.Deployment.Barred

/-! # Calls of `add_app` that fail

A call that fails leaves memory as it is. What it leaves on the disk depends on how far it came: the
directory of the version is made first, and the info file, without which the directory of an
application cannot be read, is written last. A reader looks into the root directory of the
applications and into the directories in it. `Harmless` is the condition under which nothing changes
there: no directory is made, and the info file is not left half written.

* `Harmless.readsAs`: then the database reads as before, whatever the name of the application.
* `harmless_of_readsAs`: for a name that is a single component, otherwise it does not.
* `harmless_iff_barred`: when operations are only refused, the condition is that there is a reason
  for which no directory is made.
* `failed_atomic_iff`: all three. -/

namespace Laqista

open Laqista.Proto Laqista.Lib Laqista.Lib.Runs Laqista.Fs Laqista.DeploymentDatabase Lib.File

/-- The same ids, with the same info and the same deployments under each, in any order. -/
def SameUpToOrder (m m' : ApplicationMap) : Prop :=
  m.ids = m'.ids ∧ ∀ id a b, m.lookup id = some a → m'.lookup id = some b →
    a.info = b.info ∧ a.deployments.Perm b.deployments

/-- The directory of a version is not the root directory of the applications. -/
theorem savePath_place_ne {root : Path} {place q : Place} {d : Disk} {saved : SavedDeployment}
    {info : DeploymentInfo} (ho : Opened d root place) (hq : d.DirAt (savePath root info saved) q) :
    q ≠ place := by
  unfold savePath at hq
  rw [Path.join_name saved.isName_dirName] at hq
  obtain ⟨r, hr, rfl⟩ := Disk.resolve_cons hq.1
  have hroot := ho.dirAt.1
  unfold appRootDir at hroot
  rw [Path.join_name isName_apps] at hroot
  obtain ⟨s, -, hplace⟩ := Disk.resolve_cons hroot
  intro heq
  have hname : saved.dirName = "apps" := by
    rw [hplace] at heq
    exact (List.cons.inj heq).1
  have hyphen := saved.hyphen_mem_dirName
  rw [hname] at hyphen
  exact absurd hyphen (by decide)

/-- The info file is in the directory in which the directory of the version is. -/
theorem infoPath_resolve {root : Path} {q p : Place} {d : Disk} {saved : SavedDeployment}
    {info : DeploymentInfo} (hq : d.DirAt (savePath root info saved) q)
    (hp : d.resolve (infoPath root info) = .ok p) :
    ∃ r, q = saved.dirName :: r ∧ p = infoFileName :: r := by
  unfold savePath at hq
  rw [Path.join_name saved.isName_dirName] at hq
  obtain ⟨r, hr, rfl⟩ := Disk.resolve_cons hq.1
  unfold infoPath at hp
  rw [hr.resolve_cons] at hp
  exact ⟨r, rfl, (Except.ok.inj hp).symm⟩

/-- Where a reader looks, everything is the same: in the root directory and in each directory in
it. -/
def SameSeen (place : Place) (d d' : Disk) : Prop :=
  ∀ x, d'.node (x :: place) = d.node (x :: place) ∧
    ∀ name, d'.node (name :: x :: place) = d.node (name :: x :: place)

/-- What is written into the directory of a version is not seen by a reader. -/
theorem sameSeen_of_writesFiles {place q : Place} {d d' : Disk}
    (h : WritesFiles (Inside q) d d') (hq : q ≠ place)
    (hqx : ¬ Inside place q) : SameSeen place d d' := by
  intro x
  refine ⟨h.node_eq ?_, fun name => h.node_eq ?_⟩
  · rintro ⟨n, heq⟩
    exact hq (List.cons.inj heq).2.symm
  · rintro ⟨n, heq⟩
    exact hqx ⟨x, (List.cons.inj heq).2.symm⟩

section Failed

variable [Archives] [Crates]

/-- The root directory can be opened as these applications, in whatever order the directories are
listed. -/
def ReadsAs (root : Path) (d : Disk) (apps : ApplicationMap) : Prop :=
  ∀ listing, d.Lists listing → ∃ inner w,
    readDir listing root ⟨d, []⟩ = .ok inner w ∧ SameUpToOrder inner.apps apps

/-- A call leaves memory and what can be read from the disk as they are. -/
def Unchanged (root : Path) (db : Database) (inner : Inner) (d : Disk) : Prop :=
  inner = db.inner ∧ ∀ apps, ReadsAs root db.disk apps → ReadsAs root d apps

/-- The archive of a call is not there, or no directory is made and no entry of the archive written
where a reader looks, and if the info file is there, the call does not leave something else in
it. -/
def Harmless (root : Path) (place : Place) (d : Disk) (c : AddCall) : Prop :=
  ∀ tgz, c.bin = .ok tgz →
    SameSeen place d (after (openDir (savePath root c.info ⟨c.now, sha256 tgz⟩)) ⟨d, c.faults⟩) ∧
    ∀ q w₁, openDir (savePath root c.info ⟨c.now, sha256 tgz⟩) ⟨d, c.faults⟩ = .ok q w₁ →
      ¬ Inside place q ∧
      ∀ w₂ k, writeTgz (savePath root c.info ⟨c.now, sha256 tgz⟩) tgz ⟨d, c.faults⟩ = .ok () w₂ →
        Interrupted w₂ (encode c.info.into).length k →
        ∀ x, w₂.disk.resolve (infoPath root c.info) = .ok (infoFileName :: x :: place) →
          w₂.disk.node (infoFileName :: x :: place) ≠ some .dir →
          ∃ contents i, w₂.disk.node (infoFileName :: x :: place) = some (.file contents) ∧
            infoOf contents = some i ∧ infoOf ((encode c.info.into).take k) = some i

variable {root : Path} {place : Place} {db : Database} {c : AddCall} {inner : Inner} {w : World}
  {e : DatabaseError} {d d' : Disk}

/-- A call that fails leaves memory, and fails in the download or in saving. -/
theorem addApp_error (h : addApp root db.inner c.info c.bin c.now ⟨db.disk, c.faults⟩ =
    (.error e, inner, w)) : inner = db.inner ∧
    (((∃ err, c.bin = .error err) ∧ w.disk = db.disk) ∨ ∃ tgz e', c.bin = .ok tgz ∧
      save root c.info c.now tgz ⟨db.disk, c.faults⟩ = .error e' w) := by
  unfold addApp at h
  rcases hb : c.bin with err | tgz
  · simp only [hb, Prod.mk.injEq] at h
    obtain ⟨-, rfl, rfl⟩ := h
    exact ⟨rfl, .inl ⟨⟨err, rfl⟩, rfl⟩⟩
  · rcases hs : save root c.info c.now tgz ⟨db.disk, c.faults⟩ with ⟨saved, w'⟩ | ⟨e', w'⟩
    · simp [hb, hs] at h
    · simp only [hb, hs, Prod.mk.injEq] at h
      obtain ⟨-, rfl, rfl⟩ := h
      exact ⟨rfl, .inr ⟨tgz, e', rfl, hs⟩⟩

/-! ### What a reader sees -/

/-- Reading the root directory gives these applications, in whatever order the directories are
listed. -/
theorem readsAs_iff_fold {apps : ApplicationMap} (ho : Opened d root place) : ReadsAs root d apps ↔
    ∀ listing, d.Lists listing → ∃ map,
      (listing place).foldlM (readRootEntry d listing place) (.empty _) = .ok map ∧
      SameUpToOrder map apps := by
  refine forall₂_congr fun listing _ => ⟨?_, ?_⟩
  · rintro ⟨inner, w, hread, hsame⟩
    obtain ⟨q, hopen, hfold, -⟩ := readDir_ok.mp hread
    rw [ho.openDirRoot] at hopen
    obtain ⟨rfl, rfl⟩ := EStateM.Result.ok.inj hopen
    exact ⟨inner.apps, hfold, hsame⟩
  · rintro ⟨map, hfold, hsame⟩
    exact ⟨⟨map, []⟩, _, readDir_ok.mpr ⟨place, ho.openDirRoot, hfold, rfl⟩, hsame⟩


/-- The same node, or files that are read as the same info. -/
def SameNode (a b : Option Node) : Prop :=
  a = b ∨ ∃ contents contents' i, a = some (.file contents) ∧ b = some (.file contents') ∧
    infoOf contents = some i ∧ infoOf contents' = some i

/-- The same entries in the root directory and in each directory in it. -/
def SameEntries (place : Place) (d d' : Disk) : Prop :=
  ∀ x, SameNode (d.node (x :: place)) (d'.node (x :: place)) ∧
    ∀ name, SameNode (d.node (name :: x :: place)) (d'.node (name :: x :: place))

theorem SameNode.none_iff {a b : Option Node} (h : SameNode a b) : a ≠ none ↔ b ≠ none := by
  rcases h with rfl | ⟨_, _, _, rfl, rfl, -⟩
  · rfl
  · simp

theorem SameNode.dir {a b : Option Node} (h : SameNode a b) (ha : a = some .dir) :
    b = some .dir := by
  rcases h with rfl | ⟨_, _, _, rfl, -⟩
  · exact ha
  · exact absurd ha (by simp)

theorem readAppEntry_congr {app : Place} {name : String}
    (h : SameNode (d.node (name :: app)) (d'.node (name :: app)))
    (acc : List SavedDeployment × Option DeploymentInfo) :
    readAppEntry d app acc name = readAppEntry d' app acc name := by
  rcases h with hsame | ⟨_, _, i, hfile, hfile', hi, hi'⟩
  · unfold readAppEntry readInfo
    rw [hsame]
  · rw [readAppEntry_file hfile hi, readAppEntry_file hfile' hi']

theorem readPerApp_congr {listing : Listing} {app : Place}
    (h : ∀ name, SameNode (d.node (name :: app)) (d'.node (name :: app))) :
    readPerApp d listing app = readPerApp d' listing app := by
  have hentry : readAppEntry d app = readAppEntry d' app :=
    funext fun acc => funext fun name => readAppEntry_congr (h name) acc
  unfold readPerApp
  rw [hentry]

theorem readRootEntry_congr {listing listing' : Listing} (h : SameEntries place d d')
    (hl : ∀ x, listing (x :: place) = listing' (x :: place)) :
    readRootEntry d listing place = readRootEntry d' listing' place := by
  funext map x
  obtain ⟨hx, hentries⟩ := h x
  have hread : readPerApp d listing (x :: place) = readPerApp d' listing' (x :: place) := by
    rw [readPerApp_congr hentries]
    unfold readPerApp
    rw [hl x]
  unfold readRootEntry
  rcases hx with hsame | ⟨_, _, _, hfile, hfile', -⟩
  · rw [hsame, hread]
  · rw [hfile, hfile']

/-- **Disks with the same entries are read alike.** -/
theorem SameEntries.readsAs {apps : ApplicationMap} (h : SameEntries place d d')
    (ho : Opened d root place) (ho' : Opened d' root place) (hr : ReadsAs root d apps) :
    ReadsAs root d' apps := by
  rw [readsAs_iff_fold ho] at hr
  rw [readsAs_iff_fold ho']
  intro listing' hl'
  obtain ⟨listing, hl, hpatch⟩ := hl'.exists_patch (d := d)
    (S := fun q => q = place ∨ ∃ x, q = x :: place) (by
      rintro q (rfl | ⟨x, rfl⟩) hdir
      · exact ⟨ho'.dirAt.2, fun name => (h name).1.none_iff⟩
      · exact ⟨(h x).1.dir hdir, fun name => ((h x).2 name).none_iff⟩)
  obtain ⟨map, hfold, hsame⟩ := hr listing hl
  refine ⟨map, ?_, hsame⟩
  rw [← hpatch place (.inl rfl), ← hfold]
  rw [readRootEntry_congr h fun x => hpatch _ (.inr ⟨x, rfl⟩)]

/-! ### Calls that change nothing for a reader -/

theorem SameSeen.sameEntries (h : SameSeen place d d') : SameEntries place d d' :=
  fun x => ⟨.inl (h x).1.symm, fun name => .inl ((h x).2 name).symm⟩

/-- **A harmless call that fails changes nothing for a reader.** -/
theorem Harmless.readsAs {apps : ApplicationMap} {tgz : List UInt8} {e' : IoError}
    (h : Harmless root place db.disk c) (ho : Opened db.disk root place) (hb : c.bin = .ok tgz)
    (hs : save root c.info c.now tgz ⟨db.disk, c.faults⟩ = .error e' w)
    (hr : ReadsAs root db.disk apps) : ReadsAs root w.disk apps := by
  obtain ⟨hseen, hrest⟩ := h tgz hb
  have ho₁ := ho.of_addsDirs (openDir_onlyAdds (savePath root c.info ⟨c.now, sha256 tgz⟩)
    ⟨db.disk, c.faults⟩)
  have hr₁ := hseen.sameEntries.readsAs ho ho₁ hr
  rcases save_error hs with hopen | ⟨q, w₁, hopen, hwrites⟩
  · rw [after_error hopen] at hr₁
    exact hr₁
  · obtain ⟨hqx, hinfo⟩ := hrest q w₁ hopen
    rw [after_ok hopen] at ho₁ hr₁
    have hdir := openDir_ok hopen
    have hq := savePath_place_ne ho₁ hdir
    have hgit : ¬ Inside q (gitignoreFileName :: place) := by
      rintro ⟨name, heq⟩
      exact hq (List.cons.inj heq).2.symm
    rcases hwrites with hwrites | ⟨w₂, htgz, hwrites, hwrite⟩
    · exact (sameSeen_of_writesFiles hwrites hq hqx).sameEntries.readsAs ho₁
        (ho₁.of_writesFiles hwrites hgit) hr₁
    · have ho₂ := ho₁.of_writesFiles hwrites hgit
      have hr₂ := (sameSeen_of_writesFiles hwrites hq hqx).sameEntries.readsAs ho₁ ho₂ hr₁
      rcases write_error hwrite with heq | ⟨k, hk, p, hp, hfree, hnode⟩
      · rw [heq]
        exact hr₂
      · obtain ⟨r, rfl, rfl⟩ := infoPath_resolve (hwrites.keepsDirs.dirAt hdir) hp
        have hsingle : WritesFiles (fun q => q = infoFileName :: r) w₂.disk w.disk :=
          .single hfree hnode rfl
        have ho₃ := ho₂.of_writesFiles hsingle (by
          intro heq
          exact absurd (List.cons.inj heq).1 (by decide))
        refine SameEntries.readsAs (fun x => ⟨.inl ?_, fun name => ?_⟩) ho₂ ho₃ hr₂
        · refine (hsingle.node_eq fun heq => hqx ?_).symm
          exact ⟨_, by rw [(List.cons.inj heq).2]⟩
        · by_cases hname : name :: x :: place = infoFileName :: r
          · -- the info file of the directory, which is read as before
            obtain ⟨rfl, rfl⟩ := List.cons.inj hname
            obtain ⟨contents, i, hold, hi, hleft⟩ := hinfo w₂ k htgz hk x hp hfree
            rw [hnode, if_pos rfl]
            exact .inr ⟨contents, _, i, hold, rfl, hi, hleft⟩
          · exact .inl (hsingle.node_eq hname).symm

/-! ### What is read -/

/-- In the directories of the applications only the info is a file. -/
def OnlyInfo (place : Place) (d : Disk) : Prop :=
  ∀ x name contents, d.node (name :: x :: place) = some (.file contents) → name = infoFileName

/-- The directories below the root belong to different ids, and the id of the info to its name. -/
structure Sound (place : Place) (d : Disk) (info : DeploymentInfo) : Prop where
  only : OnlyInfo place d
  ids : ∀ x x' i i', AppDir d (x :: place) i → AppDir d (x' :: place) i' → i.id = i'.id → x = x'
  home : ∀ x i, AppDir d (x :: place) i → i.id = info.id → x = info.name

/-- The beginning of an info file has the id of the info, if it is read at all. -/
def KeepsId (info : DeploymentInfo) : Prop :=
  ∀ k i, infoOf ((encode info.into).take k) = some i → i.id = info.id

variable {apps : ApplicationMap} {info : DeploymentInfo} {saved : SavedDeployment}
  {i i' : DeploymentInfo} {x : String}

/-- A directory that can be read is that of an application. -/
theorem ReadsAs.exists_info (hr : ReadsAs root d apps) (ho : Opened d root place)
    (honly : OnlyInfo place d) (hx : d.node (x :: place) = some .dir) :
    ∃ i, AppDir d (x :: place) i := by
  obtain ⟨listing, hl⟩ := d.exists_lists
  obtain ⟨map, hfold, -⟩ := (readsAs_iff_fold ho).mp hr listing hl
  have hmem := ((hl _ ho.dirAt.2).2 x).mpr (by simp [hx])
  obtain ⟨a, ha⟩ := (isOk_readRootEntries.mp ⟨_, hfold⟩ x hmem).2 hx
  exact ⟨a.info, .of_readPerApp hx (honly x) hl ha⟩

/-- The ids that are read are those of the directories. -/
theorem ReadsAs.mem_ids (hr : ReadsAs root d apps) (ho : Opened d root place)
    (h : AppDir d (x :: place) i) : i.id ∈ apps.ids := by
  obtain ⟨listing, hl⟩ := d.exists_lists
  obtain ⟨map, hfold, hids, -⟩ := (readsAs_iff_fold ho).mp hr listing hl
  have hmem := ((hl _ ho.dirAt.2).2 x).mpr (by simp [h.dir])
  rw [← hids]
  exact mem_ids_readRootEntries hfold (.inr ⟨x, hmem, h.dir, _, h.readPerApp hl, rfl⟩)

theorem ReadsAs.exists_dir (hr : ReadsAs root d apps) (ho : Opened d root place)
    (honly : OnlyInfo place d) {id : Uuid} (hid : id ∈ apps.ids) :
    ∃ x i, AppDir d (x :: place) i ∧ i.id = id := by
  obtain ⟨listing, hl⟩ := d.exists_lists
  obtain ⟨map, hfold, hids, -⟩ := (readsAs_iff_fold ho).mp hr listing hl
  rw [← hids] at hid
  obtain ⟨a, ha⟩ := Keyed.mem_ids.mp hid
  have hkey := Keyed.key_of_lookup ha
  rcases lookup_of_readRootEntries hfold ha with hnil | ⟨x, -, hx, hread⟩
  · rw [Keyed.lookup_empty] at hnil
    exact absurd hnil (by simp)
  · exact ⟨x, a.info, .of_readPerApp hx (honly x) hl hread, hkey⟩

/-- The deployments that are read are those in the directory, if no other directory has the id. -/
theorem ReadsAs.exists_lookup (hr : ReadsAs root d apps) (ho : Opened d root place)
    (honly : OnlyInfo place d) (h : AppDir d (x :: place) i)
    (hunique : ∀ y j, AppDir d (y :: place) j → j.id = i.id → y = x) {listing : Listing}
    (hl : d.Lists listing) : ∃ a, apps.lookup i.id = some a ∧ i = a.info ∧
      ((listing (x :: place)).filterMap SavedDeployment.read).Perm a.deployments := by
  obtain ⟨map, hfold, hids, hsame⟩ := (readsAs_iff_fold ho).mp hr listing hl
  obtain ⟨a, ha⟩ := Keyed.mem_ids.mp (hr.mem_ids ho h)
  have hmem := ((hl _ ho.dirAt.2).2 x).mpr (by simp [h.dir])
  have hlookup : map.lookup i.id =
      some ⟨i, (listing (x :: place)).filterMap SavedDeployment.read⟩ := by
    refine readRootEntries_lookup (a := ⟨i, _⟩) hfold ?_
      (.inr ⟨x, hmem, h.dir, h.readPerApp hl⟩)
    intro y _ b hy hb hid
    obtain rfl := hunique y b.info (.of_readPerApp hy (honly y) hl hb) hid
    rw [h.readPerApp hl] at hb
    exact (Except.ok.inj hb).symm
  obtain ⟨hinfo, hperm⟩ := hsame _ _ _ hlookup ha
  exact ⟨a, ha, hinfo, hperm⟩

/-! ### What a failed save leaves -/

/-- What a save that fails leaves, from the disk after the directory of the version was opened: the
beginning of the archive in this directory, and the info file as it was or the beginning of the
info. -/
structure Attempt (place : Place) (info : DeploymentInfo) (saved : SavedDeployment)
    (d d₁ d' : Disk) : Prop where
  made : AddsDirs (fun q => q = info.name :: place ∨ q = saved.dirName :: info.name :: place) d d₁
  kept : KeepsDirs d₁ d'
  frame : ∀ q, q ≠ infoFileName :: info.name :: place →
    ¬ Inside (saved.dirName :: info.name :: place) q → d'.node q = d₁.node q
  infoFile : d'.node (infoFileName :: info.name :: place) =
      d.node (infoFileName :: info.name :: place) ∨
    ∃ k, d'.node (infoFileName :: info.name :: place) = some (.file ((encode info.into).take k))

/-- **What a save that fails leaves.** -/
theorem attempt_of_error {now : DateTime} {tgz : List UInt8} {w w' : World} {e' : IoError}
    (ho : Opened w.disk root place) (hname : Path.IsName info.name)
    (h : save root info now tgz w = .error e' w') :
    Attempt place info ⟨now, sha256 tgz⟩ w.disk
      (after (openDir (savePath root info ⟨now, sha256 tgz⟩)) w) w'.disk := by
  have hadds := openDir_savePath_addsDirs ho hname ⟨now, sha256 tgz⟩
  have hold : (after (openDir (savePath root info ⟨now, sha256 tgz⟩)) w).node
      (infoFileName :: info.name :: place) = w.disk.node (infoFileName :: info.name :: place) := by
    rcases hadds (infoFileName :: info.name :: place) with hsame | ⟨-, -, hq | hq⟩
    · exact hsame
    · exact absurd (congrArg List.length hq) (by simp)
    · exact absurd (List.cons.inj hq).1.symm (dirName_ne_infoFileName _)
  have hinfo := not_inside_infoFile (SavedDeployment.dirName ⟨now, sha256 tgz⟩) (info.name :: place)
  rcases save_error h with hopen | ⟨q, w₁, hopen, hwrites⟩
  · rw [after_error hopen] at hadds hold ⊢
    exact ⟨hadds, fun _ hq => hq, fun _ _ _ => rfl, .inl hold⟩
  · obtain rfl := openDir_savePath_place ho hname hopen
    rw [after_ok hopen] at hadds hold ⊢
    rcases hwrites with hwrites | ⟨w₂, -, hwrites, hwrite⟩
    · exact ⟨hadds, hwrites.keepsDirs, fun q _ hq => hwrites.node_eq hq,
        .inl ((hwrites.node_eq hinfo).trans hold)⟩
    · rcases write_error hwrite with hsame | ⟨k, -, p, hp, hfree, hnode⟩
      · rw [hsame]
        exact ⟨hadds, hwrites.keepsDirs, fun q _ hq => hwrites.node_eq hq,
          .inl ((hwrites.node_eq hinfo).trans hold)⟩
      · -- the write of the info was interrupted
        have ho₂ := (ho.of_addsDirs hadds).of_writesFiles hwrites (by
          rintro ⟨name, hq⟩
          exact absurd (congrArg List.length hq) (by simp))
        have happ := Disk.node_tail (openDir_ok hopen).2
        have hdir := dirAt_appDir ho₂ hname (hwrites.keepsDirs _ happ)
        unfold infoPath at hp
        rw [hdir.resolve_cons] at hp
        obtain rfl := Except.ok.inj hp
        have hsingle : WritesFiles (fun q => q = infoFileName :: info.name :: place) w₂.disk
            w'.disk := .single hfree hnode rfl
        refine ⟨hadds, fun q hq => hsingle.keepsDirs q (hwrites.keepsDirs q hq), ?_, .inr ⟨k, ?_⟩⟩
        · intro q hne hq
          rw [hsingle.node_eq hne, hwrites.node_eq hq]
        · rw [hnode]
          exact if_pos rfl

namespace Attempt

variable {d₁ : Disk} (h : Attempt place info saved d d₁ d')

include h

theorem root_eq (x : String) : d'.node (x :: place) = d₁.node (x :: place) := by
  refine h.frame _ (fun hq => absurd (congrArg List.length hq) (by simp)) ?_
  rintro ⟨name, hq⟩
  exact absurd (congrArg List.length hq) (by simp)

/-- Entries of the directories of applications, other than the info file. -/
theorem entry_eq {x name : String} (hne : x ≠ info.name ∨ name ≠ infoFileName) :
    d'.node (name :: x :: place) = d₁.node (name :: x :: place) := by
  refine h.frame _ ?_ ?_
  · intro hq
    simp only [List.cons.injEq, and_true] at hq
    tauto
  · rintro ⟨n, hq⟩
    exact absurd (congrArg List.length hq) (by simp)

/-- Entries that were not made. -/
theorem old_eq {x name : String} (hne : x ≠ info.name ∨ name ≠ saved.dirName) :
    d₁.node (name :: x :: place) = d.node (name :: x :: place) := by
  refine h.made.node_eq ?_
  rintro (hq | hq)
  · exact absurd (congrArg List.length hq) (by simp)
  · simp only [List.cons.injEq, and_true] at hq
    tauto

theorem opened (ho : Opened d root place) : Opened d' root place := by
  have ho₁ := ho.of_addsDirs h.made
  refine ⟨h.kept.dirAt ho₁.dirAt, ?_⟩
  rw [h.root_eq]
  exact ho₁.gitignore

theorem onlyInfo (honly : OnlyInfo place d) : OnlyInfo place d' := by
  intro x name contents hn
  by_cases hname : name = infoFileName
  · exact hname
  · rw [h.entry_eq (.inr hname)] at hn
    rcases h.made (name :: x :: place) with hsame | ⟨-, hdir, -⟩
    · rw [hsame] at hn
      exact honly x name contents hn
    · rw [hn] at hdir
      exact absurd hdir (by simp)

/-- The other applications are as they were. -/
theorem appDir_of_ne (hx : x ≠ info.name) (ha : AppDir d' (x :: place) i) :
    AppDir d (x :: place) i := by
  refine ha.congr ?_ fun name => ?_
  · rw [h.root_eq]
    refine h.made.node_eq ?_
    rintro (hq | hq)
    · exact hx (List.cons.inj hq).1
    · exact absurd (congrArg List.length hq) (by simp)
  · rw [h.entry_eq (.inl hx), h.old_eq (.inl hx)]

/-- The info that is read in the directory of the application was there, or it has the id of the
info. -/
theorem info_or_id (hid : KeepsId info) (ha : AppDir d' (info.name :: place) i) :
    (∃ contents, d.node (infoFileName :: info.name :: place) = some (.file contents) ∧
      infoOf contents = some i) ∨ i.id = info.id := by
  obtain ⟨contents, hc, hi⟩ := ha.info
  rcases h.infoFile with hsame | ⟨k, hk⟩
  · rw [hsame] at hc
    exact .inl ⟨contents, hc, hi⟩
  · rw [hk] at hc
    obtain rfl := Node.file.inj (Option.some.inj hc)
    exact .inr (hid k i hi)

variable (hid : KeepsId info) (hs : Sound place d info) (ho : Opened d root place)
  (hr : ReadsAs root d apps) (hr' : ReadsAs root d' apps)

include hid hs ho hr hr'

/-- No directory was made for the application. -/
theorem app_not_made (hnone : d.node (info.name :: place) = none) :
    d₁.node (info.name :: place) ≠ some .dir := by
  intro hdir
  rw [← h.root_eq] at hdir
  obtain ⟨i, hi⟩ := hr'.exists_info (h.opened ho) (h.onlyInfo hs.only) hdir
  rcases h.info_or_id hid hi with ⟨contents, hc, -⟩ | hi'
  · rw [Disk.node_tail hc] at hnone
    exact absurd hnone (by simp)
  · obtain ⟨x, j, hj, hji⟩ := hr.exists_dir ho hs.only (hr'.mem_ids (h.opened ho) hi)
    obtain rfl := hs.home x j hj (hji.trans hi')
    rw [hj.dir] at hnone
    exact absurd hnone (by simp)

/-- The application has the info and the deployments that it had. -/
theorem same_app (ha : AppDir d (info.name :: place) i) (ha' : AppDir d' (info.name :: place) i')
    {listing listing' : Listing} (hl : d.Lists listing) (hl' : d'.Lists listing') :
    i = i' ∧ ((listing (info.name :: place)).filterMap SavedDeployment.read).Perm
      ((listing' (info.name :: place)).filterMap SavedDeployment.read) := by
  have hids : i'.id = i.id := by
    rcases h.info_or_id hid ha' with ⟨contents, hc, hi'⟩ | hi'
    · obtain ⟨contents', hc', hi⟩ := ha.info
      rw [hc] at hc'
      obtain rfl := Node.file.inj (Option.some.inj hc')
      rw [hi] at hi'
      rw [Option.some.inj hi']
    · obtain ⟨x, j, hj, hji⟩ := hr.exists_dir ho hs.only (hr'.mem_ids (h.opened ho) ha')
      obtain rfl := hs.home x j hj (hji.trans hi')
      rw [← hji, hj.info_unique ha]
  have hunique : ∀ y j, AppDir d' (y :: place) j → j.id = i'.id → y = info.name := by
    intro y j hj hji
    by_contra hy
    exact hy (hs.ids y _ j i (h.appDir_of_ne hy hj) ha (hji.trans hids))
  obtain ⟨a, hlookup, hi, hperm⟩ := hr.exists_lookup ho hs.only ha
    (fun y j hj hji => hs.ids y _ j i hj ha hji) hl
  obtain ⟨a', hlookup', hi', hperm'⟩ := hr'.exists_lookup (h.opened ho) (h.onlyInfo hs.only) ha'
    hunique hl'
  rw [hids, hlookup] at hlookup'
  obtain rfl := Option.some.inj hlookup'
  exact ⟨hi.trans hi'.symm, hperm.trans hperm'.symm⟩

/-- The info file of the application has the info that it had. -/
theorem same_info (happ : d.node (info.name :: place) = some .dir)
    (happ' : d'.node (info.name :: place) = some .dir) :
    ∃ i contents contents',
      d.node (infoFileName :: info.name :: place) = some (.file contents) ∧
      infoOf contents = some i ∧
      d'.node (infoFileName :: info.name :: place) = some (.file contents') ∧
      infoOf contents' = some i := by
  obtain ⟨i, ha⟩ := hr.exists_info ho hs.only happ
  obtain ⟨i', ha'⟩ := hr'.exists_info (h.opened ho) (h.onlyInfo hs.only) happ'
  obtain ⟨listing, hl⟩ := d.exists_lists
  obtain ⟨listing', hl'⟩ := d'.exists_lists
  obtain ⟨rfl, -⟩ := h.same_app hid hs ho hr hr' ha ha' hl hl'
  obtain ⟨contents, hc, hi⟩ := ha.info
  obtain ⟨contents', hc', hi'⟩ := ha'.info
  exact ⟨i, contents, contents', hc, hi, hc', hi'⟩

/-- No directory was made for the version. -/
theorem version_not_made (happ : d.node (info.name :: place) = some .dir)
    (hnone : d.node (saved.dirName :: info.name :: place) = none) :
    d₁.node (saved.dirName :: info.name :: place) ≠ some .dir := by
  intro hdir
  have hversion := h.entry_eq (x := info.name) (.inr (dirName_ne_infoFileName saved))
  rw [hdir] at hversion
  obtain ⟨i, ha⟩ := hr.exists_info ho hs.only happ
  obtain ⟨i', ha'⟩ := hr'.exists_info (h.opened ho) (h.onlyInfo hs.only) (Disk.node_tail hversion)
  obtain ⟨listing, hl⟩ := d.exists_lists
  obtain ⟨listing', hl'⟩ := d'.exists_lists
  obtain ⟨-, hperm⟩ := h.same_app hid hs ho hr hr' ha ha' hl hl'
  obtain ⟨hnodup, hmem⟩ := hl _ ha.dir
  obtain ⟨hnodup', hmem'⟩ := hl' _ ha'.dir
  -- the version is listed in addition to what was there
  have hnew : saved.dirName ∉ listing (info.name :: place) := fun hn => (hmem _).mp hn hnone
  have hentries : (listing' (info.name :: place)).Perm
      (saved.dirName :: listing (info.name :: place)) := by
    refine (List.perm_ext_iff_of_nodup hnodup' (List.nodup_cons.mpr ⟨hnew, hnodup⟩)).mpr ?_
    intro name
    rw [List.mem_cons, hmem', hmem]
    by_cases hv : name = saved.dirName
    · simp [hv, hversion]
    · by_cases hi : name = infoFileName
      · subst hi
        obtain ⟨_, hc, -⟩ := ha.info
        obtain ⟨_, hc', -⟩ := ha'.info
        simp [hc, hc']
      · rw [h.entry_eq (.inr hi), h.old_eq (.inr hv)]
        simp [hv]
  obtain ⟨s, hread⟩ := Option.isSome_iff_exists.mp (ha'.versions _ hversion)
  have hlength := (hperm.trans (hentries.filterMap _)).length_eq
  rw [List.filterMap_cons_some hread, List.length_cons] at hlength
  omega

/-- No directory was made. -/
theorem nothing_made : d₁ = d := by
  refine Disk.ext_node fun q => ?_
  rcases h.made q with hsame | ⟨hnone, hdir, rfl | rfl⟩
  · exact hsame
  · exact absurd hdir (h.app_not_made hid hs ho hr hr' hnone)
  · rcases h.made (info.name :: place) with happ | ⟨happ, hdir', -⟩
    · rw [Disk.node_tail hdir] at happ
      exact absurd hdir (h.version_not_made hid hs ho hr hr' happ.symm hnone)
    · exact absurd hdir' (h.app_not_made hid hs ho hr hr' happ)

end Attempt

/-! ### Which calls that fail change nothing -/

/-- A call that fails and changes nothing for a reader is harmless, if the name is a single
component. -/
theorem harmless_of_readsAs {tgz : List UInt8} {e' : IoError} (ho : Opened db.disk root place)
    (hname : Path.IsName c.info.name) (hs : Sound place db.disk c.info) (hid : KeepsId c.info)
    (hb : c.bin = .ok tgz)
    (hsave : save root c.info c.now tgz ⟨db.disk, c.faults⟩ = .error e' w)
    (hr : ReadsAs root db.disk apps) (hr' : ReadsAs root w.disk apps) :
    Harmless root place db.disk c := by
  have hattempt := attempt_of_error ho hname hsave
  have hnone := hattempt.nothing_made hid hs ho hr hr'
  intro tgz' hb'
  rw [hb] at hb'
  obtain rfl := Except.ok.inj hb'
  refine ⟨fun x => by simp [hnone], fun q w₁ hopen => ?_⟩
  obtain rfl := openDir_savePath_place ho hname hopen
  have hversion := (openDir_ok hopen).2
  rw [after_ok hopen] at hnone
  rw [hnone] at hversion
  have happ := Disk.node_tail hversion
  refine ⟨?_, ?_⟩
  · rintro ⟨x, hx⟩
    exact absurd (congrArg List.length hx) (by simp)
  · intro w₂ k htgz hk x hp hfree
    -- the archive was extracted into the directory of the version
    obtain ⟨q, w₁', hopen', hwrites⟩ := writeTgz_ok htgz
    rw [hopen] at hopen'
    obtain ⟨rfl, rfl⟩ := EStateM.Result.ok.inj hopen'
    rw [hnone] at hwrites
    have ho₂ := ho.of_writesFiles hwrites (by
      rintro ⟨name, hq⟩
      exact absurd (congrArg List.length hq) (by simp))
    have hdir := dirAt_appDir ho₂ hname (hwrites.keepsDirs _ happ)
    unfold infoPath at hp
    rw [hdir.resolve_cons] at hp
    have hx : c.info.name = x := (List.cons.inj (List.cons.inj (Except.ok.inj hp)).2).1
    subst hx
    -- so the interrupted write is what failed
    obtain ⟨e'', w₃, hwrite, hleft⟩ := write_interrupted hdir hfree hk
    rw [save_of_write_error htgz hwrite] at hsave
    obtain ⟨-, rfl⟩ := EStateM.Result.error.inj hsave
    have happ' : w₃.disk.node (c.info.name :: place) = some .dir := Disk.node_tail hleft
    obtain ⟨i, contents, contents', hc, hi, hc', hi'⟩ :=
      hattempt.same_info hid hs ho hr hr' happ happ'
    rw [hleft] at hc'
    obtain rfl := Node.file.inj (Option.some.inj hc')
    have hold := hwrites.node_eq (not_inside_infoFile
      (SavedDeployment.dirName ⟨c.now, sha256 tgz⟩) (c.info.name :: place))
    exact ⟨contents, i, hold.trans hc, hi, hi'⟩

/-! ### Calls that meet only refusals -/

/-- **A call whose operations are at most refused is harmless exactly when there is a reason for
which no directory is made.** -/
theorem harmless_iff_barred (ho : Opened d root place) (hname : Path.IsName c.info.name)
    (hf : Refusals c.faults) : Harmless root place d c ↔
      ∀ tgz, c.bin = .ok tgz → Barred place d c.info ⟨c.now, sha256 tgz⟩ c.faults := by
  constructor
  · intro h tgz hb
    obtain ⟨hseen, -⟩ := h tgz hb
    refine (after_openDir_eq_iff ho hname hf).mp (Disk.ext_node fun q => ?_)
    rcases openDir_savePath_addsDirs (w := ⟨d, c.faults⟩) ho hname ⟨c.now, sha256 tgz⟩ q with
      hsame | ⟨-, -, rfl | rfl⟩
    · exact hsame
    · exact (hseen _).1
    · exact (hseen _).2 _
  · intro h tgz hb
    have hsame := (after_openDir_eq_iff ho hname hf).mpr (h tgz hb)
    refine ⟨fun x => by simp [hsame], fun q w₁ hopen => ⟨?_, fun w₂ k htgz hk => ?_⟩⟩
    · obtain rfl := openDir_savePath_place ho hname hopen
      rintro ⟨x, hx⟩
      exact absurd (congrArg List.length hx) (by simp)
    · exact absurd hk (hf.not_interrupted ((advances_writeTgz _ _).ok htgz))

/-- **A call that fails changes nothing if it is harmless**, and only then, if the name is a single
component and the directories belong to different ids. -/
theorem failed_atomic_iff (ho : Opened db.disk root place)
    (h : addApp root db.inner c.info c.bin c.now ⟨db.disk, c.faults⟩ = (.error e, inner, w)) :
    (Harmless root place db.disk c → Unchanged root db inner w.disk) ∧
    (Path.IsName c.info.name → Sound place db.disk c.info → KeepsId c.info →
      (∃ apps, ReadsAs root db.disk apps) →
      (Unchanged root db inner w.disk ↔ Harmless root place db.disk c) ∧
      (Refusals c.faults → (Unchanged root db inner w.disk ↔ ∀ tgz, c.bin = .ok tgz →
        Barred place db.disk c.info ⟨c.now, sha256 tgz⟩ c.faults))) := by
  obtain ⟨hinner, hdisk⟩ := addApp_error h
  have henough : Harmless root place db.disk c → Unchanged root db inner w.disk := by
    intro hc
    refine ⟨hinner, fun apps hr => ?_⟩
    rcases hdisk with ⟨-, hsame⟩ | ⟨tgz, e', hb, hs⟩
    · rw [hsame]
      exact hr
    · exact hc.readsAs ho hb hs hr
  refine ⟨henough, fun hname hs hid ⟨apps, hr⟩ => ?_⟩
  have hiff : Unchanged root db inner w.disk ↔ Harmless root place db.disk c := by
    refine ⟨fun hu => ?_, henough⟩
    rcases hdisk with ⟨⟨err, hb⟩, -⟩ | ⟨tgz, e', hb, hsave⟩
    · intro tgz hb'
      rw [hb] at hb'
      exact absurd hb' (by simp)
    · exact harmless_of_readsAs ho hname hs hid hb hsave hr (hu.2 apps hr)
  exact ⟨hiff, fun hf => hiff.trans (harmless_iff_barred ho hname hf)⟩

/-- Runs of successful calls leave such directories. -/
theorem Mirrors.sound (h : Mirrors root place db) (hc : db.inner.Consistent info) :
    Sound place db.disk info := by
  have hof : ∀ x i, AppDir db.disk (x :: place) i →
      ∃ a, db.inner.Holds a ∧ a.info = i ∧ a.info.name = x := by
    intro x i hi
    obtain ⟨a, ha, hname, hfile⟩ := h.info x hi.dir
    obtain ⟨contents, hcontents, hinfo⟩ := hi.info
    rw [hfile] at hcontents
    obtain rfl := Node.file.inj (Option.some.inj hcontents)
    rw [infoOf_encode] at hinfo
    exact ⟨a, ha, Option.some.inj hinfo, hname⟩
  refine ⟨h.only, ?_, ?_⟩
  · intro x x' i i' hi hi' hids
    obtain ⟨a, ha, rfl, rfl⟩ := hof x i hi
    obtain ⟨a', ha', rfl, rfl⟩ := hof x' i' hi'
    rw [Inner.Holds, ← hids, ha] at ha'
    rw [Option.some.inj ha']
  · intro x i hi hids
    obtain ⟨a, ha, rfl, rfl⟩ := hof x i hi
    rw [hc a ha hids]

/-- After a run of calls that can be restored, the database can be read. -/
theorem Mirrors.readsAs {cs : List AddCall} (h : Mirrors root place db)
    (hr : Remembers cs db.inner) (hcs : Restorable cs) : ∃ apps, ReadsAs root db.disk apps := by
  have hmap := fun (listing : Listing) (hl : db.disk.Lists listing) =>
    h.exists_map hl fun a => h.readPerApp_of_restorable hr hcs hl
  obtain ⟨listing₀, hl₀⟩ := db.disk.exists_lists
  obtain ⟨apps, -, hlookup₀, hids₀⟩ := hmap listing₀ hl₀
  refine ⟨apps, (readsAs_iff_fold h.opened).mpr fun listing hl => ?_⟩
  obtain ⟨map, hfold, hlookup, hids⟩ := hmap listing hl
  refine ⟨map, hfold, ?_, ?_⟩
  · ext id
    rw [Keyed.mem_ids, Keyed.mem_ids]
    constructor
    · rintro ⟨b, hb⟩
      obtain ⟨a, ha, rfl⟩ := hids id b hb
      exact ⟨_, hlookup₀ a ha⟩
    · rintro ⟨b, hb⟩
      obtain ⟨a, ha, rfl⟩ := hids₀ id b hb
      exact ⟨_, hlookup a ha⟩
  · intro id b b₀ hb hb₀
    obtain ⟨a, ha, rfl⟩ := hids id b hb
    rw [hlookup a ha] at hb
    rw [hlookup₀ a ha] at hb₀
    obtain rfl := Option.some.inj hb
    obtain rfl := Option.some.inj hb₀
    -- the two listings have the same entries
    have hdir := (h.app a.info.name).mpr ⟨a, ha, rfl⟩
    obtain ⟨hnodup, hmem⟩ := hl _ hdir
    obtain ⟨hnodup₀, hmem₀⟩ := hl₀ _ hdir
    have hentries := (List.perm_ext_iff_of_nodup hnodup hnodup₀).mpr fun name =>
      (hmem name).trans (hmem₀ name).symm
    exact ⟨rfl, hentries.filterMap _⟩

/-- A root directory without applications reads as none. -/
theorem readsAs_empty (ho : Opened d root place)
    (hempty : ∀ name, d.node (name :: place) ≠ some .dir) : ReadsAs root d (.empty _) := by
  refine (readsAs_iff_fold ho).mpr fun listing hl => ?_
  have hok : ∃ map, (listing place).foldlM (readRootEntry d listing place) (.empty _) = .ok map :=
    isOk_readRootEntries.mpr fun name hn =>
      ⟨((hl _ ho.dirAt.2).2 name).mp hn, fun hdir => absurd hdir (hempty name)⟩
  obtain ⟨map, hmap⟩ := hok
  have hnone : ∀ id a, map.lookup id ≠ some a := by
    intro id a ha
    rcases lookup_of_readRootEntries hmap ha with hnil | ⟨name, -, hdir, -⟩
    · rw [Keyed.lookup_empty] at hnil
      exact absurd hnil (by simp)
    · exact hempty name hdir
  refine ⟨map, hmap, ?_, fun id a _ ha => absurd ha (hnone id a)⟩
  ext id
  simp [Keyed.mem_ids, hnone]

end Failed

section Examples

attribute [local instance] Crates.hyphenated Archives.sample

/-- The disk after `face` was downloaded as a page that is not an archive. -/
@[irreducible] def failedDisk : Disk :=
  (addApp [] ⟨.empty _, []⟩ face (.ok notFoundPage) older.timestamp ⟨freshDisk, []⟩).2.2.disk

def notFound : SavedDeployment := ⟨older.timestamp, sha256 notFoundPage⟩

/-- A listing with the directory of `face`, without its info. -/
def failedListing : Listing := fun place =>
  if place = ["face", "apps"] then [notFound.dirName]
  else if place = ["apps"] then [gitignoreFileName, "face"]
  else if place = [] then ["apps"]
  else []

theorem failedDisk_nodes :
    (addApp [] ⟨.empty _, []⟩ face (.ok notFoundPage) older.timestamp ⟨freshDisk, []⟩).1.isOk =
      false ∧
    failedDisk.Lists failedListing ∧ failedDisk.resolve (appRootDir []) = .ok ["apps"] ∧
    failedDisk.node [gitignoreFileName, "apps"] = some (.file gitignoreContent) ∧
    failedDisk.node ["face", "apps"] = some .dir ∧
    failedDisk.node [notFound.dirName, "face", "apps"] = some .dir := by
  decide +kernel

/-- The directory of `face` has no info. -/
theorem readPerApp_failedDisk {listing : Listing} (hl : failedDisk.Lists listing)
    (a : SavedApplication) : readPerApp failedDisk listing ["face", "apps"] ≠ .ok a := by
  intro hread
  obtain ⟨-, hl', -, -, hdir, hversion⟩ := failedDisk_nodes
  have hentries : ∀ name, failedDisk.node (name :: ["face", "apps"]) ≠ none →
      name = notFound.dirName := by
    intro name hn
    have hmem := ((hl' _ hdir).2 name).mpr hn
    simpa [failedListing] using hmem
  have honly : ∀ name contents, failedDisk.node (name :: ["face", "apps"]) ≠
      some (.file contents) := by
    intro name contents hn
    obtain rfl := hentries name (by simp [hn])
    rw [hversion] at hn
    exact absurd hn (by simp)
  obtain ⟨contents, hc, -⟩ := (AppDir.of_readPerApp hdir
    (fun name contents hn => absurd hn (honly name contents)) hl hread).info
  exact honly _ _ hc

/-- **A first call for `face` that fails leaves a directory that makes the database unreadable**,
with all of its applications. -/
theorem left_behind : ∃ e w,
    addApp [] ⟨.empty _, []⟩ face (.ok notFoundPage) older.timestamp ⟨freshDisk, []⟩ =
        (.error e, ⟨.empty _, []⟩, w) ∧
      ReadsAs [] freshDisk (.empty _) ∧
      ∀ listing, w.disk.Lists listing →
        ∀ inner w', readDir listing [] ⟨w.disk, []⟩ ≠ .ok inner w' := by
  obtain ⟨hfails, -, hroot, hgit, hdir, -⟩ := failedDisk_nodes
  have ho : Opened failedDisk [] ["apps"] := ⟨⟨hroot, Disk.node_tail hdir⟩, hgit⟩
  have hdisk : failedDisk = (addApp [] ⟨.empty _, []⟩ face (.ok notFoundPage) older.timestamp
      ⟨freshDisk, []⟩).2.2.disk := by
    unfold failedDisk
    rfl
  rcases hcall : addApp [] ⟨.empty _, []⟩ face (.ok notFoundPage) older.timestamp
    ⟨freshDisk, []⟩ with ⟨e | ⟨⟩, inner, w⟩
  · rw [hcall] at hdisk
    let db : Database := ⟨⟨.empty _, []⟩, freshDisk⟩
    let c : AddCall := ⟨face, .ok notFoundPage, older.timestamp, []⟩
    have hcall' : addApp [] db.inner c.info c.bin c.now ⟨db.disk, c.faults⟩ =
      (.error e, inner, w) := hcall
    obtain ⟨rfl, -⟩ := addApp_error hcall'
    refine ⟨e, w, rfl, readsAs_empty opened_freshDisk freshDisk_empty, ?_⟩
    have hsame : w.disk = failedDisk := hdisk.symm
    rw [hsame]
    intro listing hl inner w' hread
    obtain ⟨q, hopen, hfold, -⟩ := readDir_ok.mp hread
    rw [ho.openDirRoot] at hopen
    obtain ⟨rfl, rfl⟩ := EStateM.Result.ok.inj hopen
    have hmem := ((hl _ ho.dirAt.2).2 "face").mpr (by simp [hdir])
    obtain ⟨a, ha⟩ := (isOk_readRootEntries.mp ⟨_, hfold⟩ _ hmem).2 hdir
    exact readPerApp_failedDisk hl a ha
  · rw [hcall] at hfails
    exact absurd hfails (by simp [Except.isOk, Except.toBool])

/-- The beginning of the info of `face` has its id, as soon as it can be read. -/
theorem keepsId_face : KeepsId face := by
  have hall : ∀ k ∈ List.range ((encode face.into).length + 1),
      (infoOf ((encode face.into).take k)).all fun i => i.id = face.id := by
    decide +kernel
  intro k i hi
  rw [List.take_eq_take_min] at hi
  have hk := hall (min k (encode face.into).length) (List.mem_range.mpr (by omega))
  rw [hi] at hk
  simpa using hk

/-- After two applications were added, a further version of `face` whose directory cannot be opened
changes nothing. -/
theorem refused_unchanged : ∃ db e inner w,
    run (addStep []) ⟨⟨.empty _, []⟩, freshDisk⟩ twoApps = some db ∧
      addApp [] db.inner face (.ok emptyArchive) ⟨1700000120, 0, by decide, by decide⟩
          ⟨db.disk, [some ⟨.other "Permission denied", none⟩]⟩ = (.error e, inner, w) ∧
      Unchanged [] db inner w.disk := by
  obtain ⟨db, hrun⟩ := Option.isSome_iff_exists.mp twoApps_succeeds
  obtain ⟨hids, hnames, hrestorable⟩ := twoApps_ids
  obtain ⟨hm, hr⟩ := readDir_empty readDir_freshDisk opened_freshDisk.dirAt freshDisk_empty
  obtain ⟨hm', hr'⟩ := run_mirrors hm hr hids hnames hrun
  let c : AddCall := ⟨face, .ok emptyArchive, ⟨1700000120, 0, by decide, by decide⟩,
    [some ⟨.other "Permission denied", none⟩]⟩
  have hface : db.inner.Consistent face := hr'.consistent fun c hc hid =>
    hids c hc _ (List.mem_cons_self ..) hid
  have hrefusals : Refusals c.faults := by
    intro f hf
    obtain rfl := Option.some.inj (List.mem_singleton.mp hf)
    exact ⟨by decide, rfl⟩
  have hatomic := (failed_atomic_iff (c := c) hm'.opened rfl).2 isName_face (hm'.sound hface)
    keepsId_face (hm'.readsAs hr' hrestorable)
  exact ⟨db, _, _, _, hrun, rfl, (hatomic.2 hrefusals).mpr fun tgz _ =>
    .inr (.inr (.inl ⟨_, rfl⟩))⟩

end Examples
end Laqista
