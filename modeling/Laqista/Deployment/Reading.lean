import Laqista.Deployment.Database

/-! # What reading the database gives

A directory of an application, as the program writes it, has one file, the info, and a directory for
each saved deployment (`AppDir`). Reading it gives the info and the deployments, in the order of the
listing (`AppDir.readPerApp`), and only such a directory can be read (`AppDir.of_readPerApp`). The
map of all applications holds what was read from each directory (`lookup_of_readRootEntries`,
`readRootEntries_lookup`). -/

namespace Laqista.Fs

open Laqista.Proto Laqista.Lib Lib.File

/-! ### Names -/

theorem isName_apps : Path.IsName "apps" := by unfold Path.IsName; decide

theorem isName_infoFileName : Path.IsName infoFileName := by unfold Path.IsName; decide

theorem isName_gitignoreFileName : Path.IsName gitignoreFileName := by unfold Path.IsName; decide

/-- The info file is not a saved deployment. -/
theorem dirName_ne_infoFileName (saved : SavedDeployment) : saved.dirName ≠ infoFileName := by
  intro h
  have hyphen := saved.hyphen_mem_dirName
  rw [h] at hyphen
  exact absurd hyphen (by decide)

theorem read_infoFileName : SavedDeployment.read infoFileName = none := by
  have hsplit : infoFileName.toList.splitOn '-' = [infoFileName.toList] :=
    List.splitOn_eq_singleton (by decide)
  have hparse : parseInt (2 ^ 63) infoFileName.toList = none := by decide
  unfold SavedDeployment.read
  simp only [hsplit, List.getElem?_cons_zero, bind, Option.bind_some, hparse, Option.bind_none]

/-! ### Opening directories -/

variable {w w' : World} {p : Path} {place : Place}

theorem openDir_ok (h : openDir p w = .ok place w') : w'.disk.DirAt p place := by
  unfold openDir at h
  rcases hr : Lib.File.readDir p w with ⟨q, w₁⟩ | ⟨e, w₁⟩
  · rw [attempt_bind_ok hr] at h
    obtain ⟨rfl, rfl⟩ := EStateM.Result.ok.inj h
    obtain ⟨hsame, hdir⟩ := readDir_ok hr
    rw [hsame]
    exact hdir
  · rw [attempt_bind_error hr] at h
    cases e with
    | notFound =>
      obtain ⟨_, w₂, -, h⟩ := bind_ok.mp h
      obtain ⟨hsame, hdir⟩ := readDir_ok h
      rw [hsame]
      exact hdir
    | _ => exact absurd h throw_ne_ok

/-- Opening a directory that is missing changes what creating it changes. -/
theorem after_openDir_missing {w₁ : World} (hr : Lib.File.readDir p w = .error .notFound w₁) :
    after (openDir p) w = after (createDirAll p) w₁ := by
  unfold openDir
  unfold after
  rw [attempt_bind_error hr]
  refine after_bind (P := fun d => d = after (createDirAll p) w₁) ?_ ?_
  · intro e w₂ hc
    rw [after_error hc]
  · intro a w₂ hc
    rw [after_ok hc]
    rcases hr' : Lib.File.readDir p w₂ with ⟨q, w₃⟩ | ⟨e, w₃⟩
    · rw [after_ok hr', (readDir_ok hr').1]
    · rw [after_error hr', readDir_error hr']

/-- Other errors are passed on. -/
theorem after_openDir_error {w₁ : World} {e : IoError} (hr : Lib.File.readDir p w = .error e w₁)
    (he : e ≠ .notFound) : after (openDir p) w = w.disk := by
  have hsame := readDir_error hr
  unfold openDir
  unfold after
  rw [attempt_bind_error hr, ← hsame]
  cases e <;> first | rfl | exact absurd rfl he

/-- Opening a directory changes nothing, or what creating it changes. -/
theorem after_openDir (p : Path) (w : World) : after (openDir p) w = w.disk ∨
    ∃ w₁, w₁.disk = w.disk ∧ after (openDir p) w = after (createDirAll p) w₁ := by
  rcases hr : Lib.File.readDir p w with ⟨q, w₁⟩ | ⟨e, w₁⟩
  · left
    unfold openDir
    unfold after
    rw [attempt_bind_ok hr]
    exact (readDir_ok hr).1
  · by_cases he : e = .notFound
    · subst he
      exact .inr ⟨w₁, readDir_error hr, after_openDir_missing hr⟩
    · exact .inl (after_openDir_error hr he)

/-- Opening a directory only adds directories that are missing on the way to it. -/
theorem openDir_addsDirs {names : List String} (h : w.disk.DirAt p place) :
    AddsDirs (fun q => ∃ below, below ≠ [] ∧ below <:+ names ∧ q = below ++ place) w.disk
      (after (openDir (names.map .normal ++ p)) w) := by
  rcases after_openDir (names.map .normal ++ p) w with hsame | ⟨w₁, hdisk, hcreate⟩
  · rw [hsame]
    exact AddsDirs.refl _ _
  · rw [hcreate, ← hdisk]
    rw [← hdisk] at h
    exact createDirAll_addsDirs h names

/-- Opening a directory only adds directories. -/
theorem openDir_onlyAdds (p : Path) (w : World) :
    AddsDirs (fun _ => True) w.disk (after (openDir p) w) := by
  rcases after_openDir p w with hsame | ⟨w₁, hdisk, hcreate⟩
  · rw [hsame]
    exact AddsDirs.refl _ _
  · rw [hcreate, ← hdisk]
    exact createDirAll_onlyAdds p w₁

/-- Opening the root directory leaves it there, with its `.gitignore`. -/
theorem openDirRoot_ok (h : openDirRoot p w = .ok place w') :
    w'.disk.DirAt p place ∧
      w'.disk.node (gitignoreFileName :: place) = some (.file gitignoreContent) := by
  obtain ⟨q, w₁, hopen, h⟩ := bind_ok.mp h
  obtain ⟨⟨⟩, w₂, hwrite, h⟩ := bind_ok.mp h
  obtain ⟨rfl, rfl⟩ := EStateM.Result.ok.inj h
  have hdir := openDir_ok hopen
  rw [Path.join_name isName_gitignoreFileName] at hwrite
  obtain ⟨r, hr, hfree, hnode⟩ := write_ok hwrite
  rw [hdir.resolve_cons] at hr
  obtain rfl := Except.ok.inj hr
  have hwrites : WritesFiles (fun _ => True) w₁.disk w₂.disk := .single hfree hnode trivial
  refine ⟨hwrites.keepsDirs.dirAt hdir, ?_⟩
  rw [hnode]
  exact if_pos rfl

/-- The root directory of a database that has been opened. -/
structure Opened (d : Disk) (root : Path) (place : Place) : Prop where
  dirAt : d.DirAt (appRootDir root) place
  gitignore : d.node (gitignoreFileName :: place) = some (.file gitignoreContent)

theorem openDirRoot_opened {root : Path} (h : openDirRoot (appRootDir root) w = .ok place w') :
    Opened w'.disk root place :=
  ⟨(openDirRoot_ok h).1, (openDirRoot_ok h).2⟩

/-- Opening the root directory again changes nothing. -/
theorem Opened.openDirRoot {d : Disk} {root : Path} (h : Opened d root place) :
    openDirRoot (appRootDir root) ⟨d, []⟩ = .ok place ⟨d, []⟩ := by
  have hfree : d.node (gitignoreFileName :: place) ≠ some .dir := by simp [h.gitignore]
  obtain ⟨d', hwrite⟩ := write_of_dirAt h.dirAt hfree gitignoreContent
  have hsame : d' = d := by
    obtain ⟨q, hq, -, hnode⟩ := write_ok hwrite
    rw [h.dirAt.resolve_cons] at hq
    obtain rfl := Except.ok.inj hq
    refine Disk.ext_node fun r => ?_
    rw [hnode]
    by_cases hr : r = Component.enter (.normal gitignoreFileName) place
    · rw [if_pos hr, hr]
      exact h.gitignore.symm
    · rw [if_neg hr]
  rw [hsame] at hwrite
  have hopen : openDir (appRootDir root) ⟨d, []⟩ = .ok place ⟨d, []⟩ := by
    unfold openDir
    rw [attempt_bind_ok (readDir_of_dirAt h.dirAt)]
    rfl
  unfold Fs.openDirRoot
  rw [Path.join_name isName_gitignoreFileName]
  simp only [bind, EStateM.bind, hopen, hwrite]
  rfl

/-- The root directory stays opened. -/
theorem Opened.of_addsDirs {A : Place → Prop} {d d' : Disk} {root : Path} (h : Opened d root place)
    (hd : AddsDirs A d d') : Opened d' root place := by
  refine ⟨hd.keepsDirs.dirAt h.dirAt, ?_⟩
  rcases hd (gitignoreFileName :: place) with hsame | ⟨hnone, -⟩
  · rw [hsame, h.gitignore]
  · rw [h.gitignore] at hnone
    exact absurd hnone (by simp)

theorem Opened.of_writesFiles {A : Place → Prop} {d d' : Disk} {root : Path}
    (h : Opened d root place) (hd : WritesFiles A d d')
    (hA : ¬ A (gitignoreFileName :: place)) : Opened d' root place := by
  refine ⟨hd.keepsDirs.dirAt h.dirAt, ?_⟩
  rcases hd (gitignoreFileName :: place) with hsame | ⟨-, -, hq⟩
  · rw [hsame, h.gitignore]
  · exact absurd hq hA

/-! ### One application -/

variable [Archives] [Crates] {d : Disk} {listing : Listing} {app root : Place}

/-- The info that the contents of a file are read as. -/
def infoOf (contents : List UInt8) : Option DeploymentInfo :=
  match decode contents with
  | .ok deployment => (DeploymentInfo.tryFrom deployment).toOption
  | .error _ => none

@[simp] theorem infoOf_encode (info : DeploymentInfo) : infoOf (encode info.into) = some info := by
  simp [infoOf, Except.toOption]

/-- What one entry of the directory adds: a file the info that it is read as, a directory a saved
deployment. -/
theorem readAppEntry_ok {acc acc' : List SavedDeployment × Option DeploymentInfo} {name : String}
    (h : readAppEntry d app acc name = .ok acc') :
    (∃ contents, d.node (name :: app) = some (.file contents) ∧ acc' = (acc.1, infoOf contents)) ∨
      (d.node (name :: app) = some .dir ∧
        ∃ s, SavedDeployment.read name = some s ∧ acc' = (acc.1 ++ [s], acc.2)) := by
  unfold readAppEntry at h
  rcases hn : d.node (name :: app) with _ | contents | _
  · simp [hn] at h
  · left
    refine ⟨contents, rfl, ?_⟩
    simp only [hn] at h
    obtain ⟨deployment, hread, h⟩ := Lib.bind_eq_ok.mp h
    obtain rfl := Except.ok.inj h
    unfold readInfo at hread
    simp only [hn] at hread
    rcases hd : decode contents with e | dep
    · simp [hd] at hread
    · rw [hd] at hread
      obtain rfl := Except.ok.inj hread
      simp [infoOf, hd]
  · right
    simp only [hn] at h
    rcases hs : SavedDeployment.read name with _ | s
    · simp [hs] at h
    · rw [hs] at h
      exact ⟨rfl, s, rfl, (Except.ok.inj h).symm⟩

theorem readAppEntry_file {acc : List SavedDeployment × Option DeploymentInfo} {name : String}
    {contents : List UInt8} {info : DeploymentInfo}
    (hn : d.node (name :: app) = some (.file contents)) (hi : infoOf contents = some info) :
    readAppEntry d app acc name = .ok (acc.1, some info) := by
  unfold infoOf at hi
  unfold readAppEntry readInfo
  rcases hd : decode contents with e | deployment
  · simp [hd] at hi
  · rw [hd] at hi
    simp only [hn, hd, ok_bind, hi, pure_eq_ok]

theorem readAppEntry_dir {acc : List SavedDeployment × Option DeploymentInfo} {name : String}
    {s : SavedDeployment} (hn : d.node (name :: app) = some .dir)
    (hs : SavedDeployment.read name = some s) :
    readAppEntry d app acc name = .ok (acc.1 ++ [s], acc.2) := by
  unfold readAppEntry
  simp only [hn, hs]

/-- A directory of an application: its info, and a directory for each saved deployment. -/
structure AppDir (d : Disk) (app : Place) (info : DeploymentInfo) : Prop where
  dir : d.node app = some .dir
  info : ∃ contents, d.node (infoFileName :: app) = some (.file contents) ∧
    infoOf contents = some info
  only : ∀ name contents, d.node (name :: app) = some (.file contents) → name = infoFileName
  versions : ∀ name, d.node (name :: app) = some .dir → (SavedDeployment.read name).isSome

/-- The info of a directory is determined. -/
theorem AppDir.info_unique {i i' : DeploymentInfo} (h : AppDir d app i) (h' : AppDir d app i') :
    i = i' := by
  obtain ⟨contents, hc, hi⟩ := h.info
  obtain ⟨contents', hc', hi'⟩ := h'.info
  rw [hc] at hc'
  obtain rfl := Node.file.inj (Option.some.inj hc')
  rw [hi] at hi'
  exact Option.some.inj hi'

theorem AppDir.congr {d' : Disk} {info : DeploymentInfo} (h : AppDir d' app info)
    (hdir : d'.node app = d.node app)
    (hentries : ∀ name, d'.node (name :: app) = d.node (name :: app)) : AppDir d app info := by
  obtain ⟨hd, hi, honly, hv⟩ := h
  rw [hdir] at hd
  simp only [hentries] at hi honly hv
  exact ⟨hd, hi, honly, hv⟩

/-- Reading the entries of such a directory. -/
theorem AppDir.foldlM_readAppEntry {info : DeploymentInfo} (h : AppDir d app info)
    {names : List String} (hnames : ∀ name ∈ names, d.node (name :: app) ≠ none)
    (acc : List SavedDeployment × Option DeploymentInfo) :
    names.foldlM (readAppEntry d app) acc = .ok (acc.1 ++ names.filterMap SavedDeployment.read,
      if infoFileName ∈ names then some info else acc.2) := by
  induction names generalizing acc with
  | nil => simp
  | cons name names ih =>
    have hrest := fun n hn => hnames n (List.mem_cons_of_mem name hn)
    rw [List.foldlM_cons]
    rcases hn : d.node (name :: app) with _ | contents | _
    · exact absurd hn (hnames name (List.mem_cons_self ..))
    · obtain rfl := h.only name contents hn
      obtain ⟨contents', hc, hi⟩ := h.info
      rw [hn] at hc
      obtain rfl := Node.file.inj (Option.some.inj hc)
      rw [readAppEntry_file hn hi, ok_bind, ih hrest, List.filterMap_cons, read_infoFileName]
      simp
    · obtain ⟨s, hs⟩ := Option.isSome_iff_exists.mp (h.versions name hn)
      have hne : infoFileName ≠ name := by
        rintro rfl
        rw [read_infoFileName] at hs
        exact absurd hs (by simp)
      rw [readAppEntry_dir hn hs, ok_bind, ih hrest, List.filterMap_cons, hs]
      simp [hne]

/-- **Reading a directory of an application** gives its info, and its deployments in the order of
the listing. -/
theorem AppDir.readPerApp {info : DeploymentInfo} (h : AppDir d app info)
    (hl : d.Lists listing) :
    readPerApp d listing app = .ok ⟨info, (listing app).filterMap SavedDeployment.read⟩ := by
  obtain ⟨-, hmem⟩ := hl app h.dir
  have hfold := h.foldlM_readAppEntry (fun name hn => (hmem name).mp hn) ([], none)
  have hinfo : infoFileName ∈ listing app := by
    obtain ⟨contents, hc, -⟩ := h.info
    exact (hmem _).mpr (by simp [hc])
  unfold Fs.readPerApp
  rw [hfold, ok_bind, if_pos hinfo]
  rfl

/-- What a readable directory consists of. -/
theorem foldlM_readAppEntry_ok {names : List String}
    {acc acc' : List SavedDeployment × Option DeploymentInfo}
    (h : names.foldlM (readAppEntry d app) acc = .ok acc') :
    (∀ name ∈ names, d.node (name :: app) = some .dir → (SavedDeployment.read name).isSome) ∧
      (acc'.2 = acc.2 ∨ ∃ name ∈ names, ∃ contents,
        d.node (name :: app) = some (.file contents) ∧ infoOf contents = acc'.2) := by
  induction names generalizing acc with
  | nil =>
    obtain rfl := Except.ok.inj h
    exact ⟨by simp, .inl rfl⟩
  | cons name names ih =>
    rw [List.foldlM_cons] at h
    obtain ⟨acc₁, h₁, h⟩ := Lib.bind_eq_ok.mp h
    obtain ⟨hversions, hinfo⟩ := ih h
    rcases readAppEntry_ok h₁ with ⟨contents, hn, rfl⟩ | ⟨hn, s, hs, rfl⟩
    · refine ⟨?_, ?_⟩
      · intro n hmem hdir
        rcases List.mem_cons.mp hmem with rfl | hmem
        · rw [hn] at hdir
          exact absurd hdir (by simp)
        · exact hversions n hmem hdir
      · right
        rcases hinfo with hinfo | ⟨n, hmem, c, hc, hi⟩
        · exact ⟨name, List.mem_cons_self .., contents, hn, hinfo.symm⟩
        · exact ⟨n, List.mem_cons_of_mem _ hmem, c, hc, hi⟩
    · refine ⟨?_, ?_⟩
      · intro n hmem hdir
        rcases List.mem_cons.mp hmem with rfl | hmem
        · exact Option.isSome_iff_exists.mpr ⟨s, hs⟩
        · exact hversions n hmem hdir
      · rcases hinfo with hinfo | ⟨n, hmem, c, hc, hi⟩
        · exact .inl hinfo
        · exact .inr ⟨n, List.mem_cons_of_mem _ hmem, c, hc, hi⟩

/-- **Only such a directory can be read**, if it has no other files. -/
theorem AppDir.of_readPerApp {a : SavedApplication} (hdir : d.node app = some .dir)
    (honly : ∀ name contents, d.node (name :: app) = some (.file contents) → name = infoFileName)
    (hl : d.Lists listing) (h : Fs.readPerApp d listing app = .ok a) : AppDir d app a.info := by
  obtain ⟨-, hmem⟩ := hl app hdir
  obtain ⟨acc, hfold, h⟩ := Lib.bind_eq_ok.mp h
  obtain ⟨hversions, hinfo⟩ := foldlM_readAppEntry_ok hfold
  obtain ⟨v, _ | info⟩ := acc
  · simp at h
  · obtain rfl := Except.ok.inj h
    refine ⟨hdir, ?_, honly, fun name hn => hversions name ((hmem name).mpr (by simp [hn])) hn⟩
    rcases hinfo with hinfo | ⟨name, -, contents, hc, hi⟩
    · exact absurd hinfo (by simp)
    · obtain rfl := honly name contents hc
      exact ⟨contents, hc, hi⟩

/-! ### All applications -/

/-- What one entry of the root directory adds: a directory the application that is read from it. -/
theorem readRootEntry_ok {map map' : ApplicationMap} {name : String}
    (h : readRootEntry d listing root map name = .ok map') :
    ((∃ contents, d.node (name :: root) = some (.file contents)) ∧ map' = map) ∨
      (d.node (name :: root) = some .dir ∧
        ∃ a, readPerApp d listing (name :: root) = .ok a ∧ map' = map.insert a) := by
  unfold readRootEntry at h
  rcases hn : d.node (name :: root) with _ | contents | _
  · simp [hn] at h
  · simp only [hn] at h
    exact .inl ⟨⟨contents, rfl⟩, (Except.ok.inj h).symm⟩
  · simp only [hn] at h
    obtain ⟨a, ha, h⟩ := Lib.bind_eq_ok.mp h
    exact .inr ⟨rfl, a, ha, (Except.ok.inj h).symm⟩

/-- The root directory can be read exactly when each directory in it can. -/
theorem isOk_readRootEntries {map : ApplicationMap} {names : List String} :
    (∃ map', names.foldlM (readRootEntry d listing root) map = .ok map') ↔
      ∀ name ∈ names, d.node (name :: root) ≠ none ∧ (d.node (name :: root) = some .dir →
        ∃ a, readPerApp d listing (name :: root) = .ok a) := by
  refine isOk_foldlM fun map name => ?_
  unfold readRootEntry
  rcases hn : d.node (name :: root) with _ | contents | _
  · simp
  · simp
  · simp only [isOk_bind, pure_eq_ok, Except.ok.injEq, exists_eq', and_true]
    simp

/-- What the map holds was read from a directory. -/
theorem lookup_of_readRootEntries {map map' : ApplicationMap} {names : List String} {id : Uuid}
    {a : SavedApplication} (h : names.foldlM (readRootEntry d listing root) map = .ok map')
    (ha : map'.lookup id = some a) : map.lookup id = some a ∨ ∃ name ∈ names,
      d.node (name :: root) = some .dir ∧ readPerApp d listing (name :: root) = .ok a := by
  induction names generalizing map with
  | nil =>
    obtain rfl := Except.ok.inj h
    exact .inl ha
  | cons name names ih =>
    rw [List.foldlM_cons] at h
    obtain ⟨map₁, h₁, h⟩ := Lib.bind_eq_ok.mp h
    rcases ih h with hmap | ⟨n, hn, hdir, hread⟩
    · rcases readRootEntry_ok h₁ with ⟨-, rfl⟩ | ⟨hdir, b, hb, rfl⟩
      · exact .inl hmap
      · rw [Keyed.lookup_insert] at hmap
        split_ifs at hmap with hid
        · obtain rfl := Option.some.inj hmap
          exact .inr ⟨name, List.mem_cons_self .., hdir, hb⟩
        · exact .inl hmap
    · exact .inr ⟨n, List.mem_cons_of_mem _ hn, hdir, hread⟩

/-- The id of what was read from a directory is in the map. -/
theorem mem_ids_readRootEntries {map map' : ApplicationMap} {names : List String} {id : Uuid}
    (h : names.foldlM (readRootEntry d listing root) map = .ok map')
    (hid : id ∈ map.ids ∨ ∃ name ∈ names, d.node (name :: root) = some .dir ∧
      ∃ a, readPerApp d listing (name :: root) = .ok a ∧ a.info.id = id) : id ∈ map'.ids := by
  induction names generalizing map with
  | nil =>
    obtain rfl := Except.ok.inj h
    rcases hid with hid | ⟨_, hmem, -⟩
    · exact hid
    · simp at hmem
  | cons name names ih =>
    rw [List.foldlM_cons] at h
    obtain ⟨map₁, h₁, h⟩ := Lib.bind_eq_ok.mp h
    refine ih h ?_
    rcases readRootEntry_ok h₁ with ⟨⟨contents, hfile⟩, rfl⟩ | ⟨hdir, b, hb, rfl⟩
    · rcases hid with hid | ⟨n, hmem, hn, hread⟩
      · exact .inl hid
      · rcases List.mem_cons.mp hmem with rfl | hmem
        · rw [hfile] at hn
          exact absurd hn (by simp)
        · exact .inr ⟨n, hmem, hn, hread⟩
    · have hinsert : ∀ k, k ∈ map.ids ∨ k = b.info.id → k ∈ (map.insert b).ids := by
        intro k hk
        rw [Keyed.mem_ids]
        by_cases hkb : k = b.info.id
        · exact ⟨b, by rw [Keyed.lookup_insert, if_pos hkb]⟩
        · obtain ⟨a, ha⟩ := Keyed.mem_ids.mp (hk.resolve_right hkb)
          exact ⟨a, by rw [Keyed.lookup_insert, if_neg hkb, ha]⟩
      rcases hid with hid | ⟨n, hmem, hn, a, hread, rfl⟩
      · exact .inl (hinsert _ (.inl hid))
      · rcases List.mem_cons.mp hmem with rfl | hmem
        · rw [hb] at hread
          obtain rfl := Except.ok.inj hread
          exact .inl (hinsert _ (.inr rfl))
        · exact .inr ⟨n, hmem, hn, a, hread, rfl⟩

/-- **What was read from a directory is in the map**, unless another directory gives something else
under the same id. -/
theorem readRootEntries_lookup {map map' : ApplicationMap} {names : List String}
    {a : SavedApplication} (h : names.foldlM (readRootEntry d listing root) map = .ok map')
    (hunique : ∀ name ∈ names, ∀ b, d.node (name :: root) = some .dir →
      readPerApp d listing (name :: root) = .ok b → b.info.id = a.info.id → b = a)
    (ha : map.lookup a.info.id = some a ∨ ∃ name ∈ names, d.node (name :: root) = some .dir ∧
      readPerApp d listing (name :: root) = .ok a) : map'.lookup a.info.id = some a := by
  induction names generalizing map with
  | nil =>
    obtain rfl := Except.ok.inj h
    rcases ha with ha | ⟨_, hmem, -⟩
    · exact ha
    · simp at hmem
  | cons name names ih =>
    rw [List.foldlM_cons] at h
    obtain ⟨map₁, h₁, h⟩ := Lib.bind_eq_ok.mp h
    refine ih h (fun n hn => hunique n (List.mem_cons_of_mem _ hn)) ?_
    rcases readRootEntry_ok h₁ with ⟨⟨contents, hfile⟩, rfl⟩ | ⟨hdir, b, hb, rfl⟩
    · rcases ha with ha | ⟨n, hmem, hn, hread⟩
      · exact .inl ha
      · rcases List.mem_cons.mp hmem with rfl | hmem
        · rw [hfile] at hn
          exact absurd hn (by simp)
        · exact .inr ⟨n, hmem, hn, hread⟩
    · by_cases hid : a.info.id = b.info.id
      · obtain rfl := hunique name (List.mem_cons_self ..) b hdir hb hid.symm
        exact .inl (Keyed.lookup_insert_self map b)
      · rcases ha with ha | ⟨n, hmem, hn, hread⟩
        · rw [Keyed.lookup_insert, if_neg hid]
          exact .inl ha
        · rcases List.mem_cons.mp hmem with rfl | hmem
          · rw [hb] at hread
            obtain rfl := Except.ok.inj hread
            exact absurd rfl hid
          · exact .inr ⟨n, hmem, hn, hread⟩

end Laqista.Fs

namespace Laqista.DeploymentDatabase

open Laqista.Lib Laqista.Fs

variable [Archives] [Crates]

/-- Opening the database: the root directory, and the map of what was read from it. -/
theorem readDir_ok {listing : Listing} {root : Path} {w w' : World} {inner : Inner} :
    readDir listing root w = .ok inner w' ↔ ∃ place,
      openDirRoot (appRootDir root) w = .ok place w' ∧
      (listing place).foldlM (readRootEntry w'.disk listing place) (.empty _) = .ok inner.apps ∧
      inner.instances = [] := by
  unfold readDir Inner.read
  constructor
  · intro h
    obtain ⟨apps, w₁, hread, h⟩ := bind_ok.mp h
    obtain ⟨rfl, rfl⟩ := EStateM.Result.ok.inj h
    unfold readApps at hread
    rcases ho : openDirRoot (appRootDir root) w with ⟨place, w₂⟩ | ⟨e, w₂⟩
    · simp only [ho] at hread
      rcases hf : (listing place).foldlM (readRootEntry w₂.disk listing place) (.empty _) with e | m
      · simp [hf] at hread
      · simp only [hf] at hread
        obtain ⟨rfl, rfl⟩ := EStateM.Result.ok.inj hread
        exact ⟨place, rfl, hf, rfl⟩
    · simp [ho] at hread
  · rintro ⟨place, ho, hf, hi⟩
    obtain ⟨apps, instances⟩ := inner
    obtain rfl := hi
    refine bind_ok.mpr ⟨apps, w', ?_, rfl⟩
    unfold readApps
    simp only [ho, hf]

end Laqista.DeploymentDatabase
