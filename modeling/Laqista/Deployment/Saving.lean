import Laqista.Deployment.Reading

/-! # What saving writes

`save` makes the directory of a version, extracts the archive into it and writes the info file of
the application; each of the three can end it. `save_ok` and `save_error` list the ways, with what
each of them leaves on the disk. For a name that is a single component a save that succeeds is
described by `SavedAt`: a directory for the application and for the version, the info, and nothing
else outside of the version's directory. -/

namespace Laqista

open Laqista.Proto Laqista.Lib Laqista.Fs Lib.File

/-- The places directly inside a directory. -/
def Inside (place : Place) (q : Place) : Prop := ∃ name, q = name :: place

namespace Fs

variable {w w' : World} {p : Path} {place : Place}

theorem lift_ok {α : Type} {x : Except IoError α} {a : α} (h : lift x w = .ok a w') :
    x = .ok a ∧ w' = w := by
  rcases x with e | b
  · exact absurd h throw_ne_ok
  · obtain ⟨rfl, rfl⟩ := EStateM.Result.ok.inj h
    exact ⟨rfl, rfl⟩

theorem lift_error {α : Type} {x : Except IoError α} {e : IoError} (h : lift x w = .error e w') :
    x = .error e ∧ w' = w := by
  rcases x with e' | b
  · obtain ⟨rfl, rfl⟩ := EStateM.Result.error.inj h
    exact ⟨rfl, rfl⟩
  · exact absurd h pure_ne_error

/-- What holds after the rest, if a result that does not depend on the disk is one, and holds
already, holds after both. -/
theorem after_lift_bind {α β : Type} {P : Disk → Prop} {x : Except IoError α} {f : α → File β}
    (hw : P w.disk) (hf : ∀ a, x = .ok a → P (after (f a) w)) : P (after (lift x >>= f) w) := by
  refine after_bind ?_ ?_
  · intro e w₁ h
    rw [(lift_error h).2]
    exact hw
  · intro a w₁ h
    obtain ⟨hx, rfl⟩ := lift_ok h
    exact hf a hx

/-- An entry is written into the directory. -/
theorem after_writeEntry (h : w.disk.DirAt p place) (entry : Except IoError Entry) :
    WritesFiles (Inside place) w.disk (after (writeEntry p entry) w) := by
  refine after_lift_bind (.refl _ _) fun entry _ => ?_
  refine after_lift_bind (.refl _ _) fun path _ => ?_
  refine after_lift_bind (.refl _ _) fun fileName hname => ?_
  refine after_lift_bind (.refl _ _) fun contents _ => ?_
  have hfile : (Path.ofText path).fileName = some fileName := by
    rcases hf : (Path.ofText path).fileName with _ | name
    · rw [hf] at hname
      simp at hname
    · rw [hf] at hname
      exact congrArg some (Except.ok.inj hname)
  rw [Path.join_name (Path.isName_of_fileName hfile)]
  exact (after_write h).mono fun q hq => ⟨fileName, hq⟩

/-- The entries of an archive are written into the directory. -/
theorem after_writeEntries (h : w.disk.DirAt p place) (archive : List (Except IoError Entry)) :
    WritesFiles (Inside place) w.disk (after (archive.forM (writeEntry p)) w) :=
  forM_keeps (R := fun d d' => d.DirAt p place → WritesFiles (Inside place) d d')
    (fun d _ => .refl _ d)
    (fun _ _ _ h₁ h₂ hd => (h₁ hd).trans (h₂ ((h₁ hd).keepsDirs.dirAt hd)))
    (fun entry _ hd => after_writeEntry hd entry) archive w h

/-- An archive that is extracted is written into the directory that was opened for it. -/
theorem writeTgz_ok [Archives] {tgz : List UInt8} (h : writeTgz p tgz w = .ok () w') :
    ∃ place w₁, openDir p w = .ok place w₁ ∧ WritesFiles (Inside place) w₁.disk w'.disk := by
  obtain ⟨place, w₁, hopen, hrest⟩ := bind_ok.mp h
  obtain ⟨archive, w₂, harchive, hentries⟩ := bind_ok.mp hrest
  obtain ⟨-, rfl⟩ := lift_ok harchive
  have hwrites := after_writeEntries (openDir_ok hopen) archive
  rw [after_ok hentries] at hwrites
  exact ⟨place, w₂, hopen, hwrites⟩

end Fs

namespace DeploymentDatabase

variable {root : Path} {info : DeploymentInfo} {now : DateTime} {tgz : List UInt8} {w w' : World}
  {place : Place}

/-- The path of the directory of a version. -/
def savePath (root : Path) (info : DeploymentInfo) (saved : SavedDeployment) : Path :=
  (appDir root info).join saved.dirName

/-- The path of the info file. -/
def infoPath (root : Path) (info : DeploymentInfo) : Path :=
  Component.normal infoFileName :: appDir root info

/-! ### Names that are single components -/

theorem appDir_eq (root : Path) (hname : Path.IsName info.name) :
    appDir root info = Component.normal info.name :: appRootDir root :=
  Path.join_name hname _

theorem savePath_eq (root : Path) (hname : Path.IsName info.name) (saved : SavedDeployment) :
    savePath root info saved =
      [saved.dirName, info.name].map Component.normal ++ appRootDir root := by
  unfold savePath
  rw [Path.join_name saved.isName_dirName, appDir_eq root hname]
  rfl

/-- Opening the directory of a version makes at most this directory and that of the application. -/
theorem openDir_savePath_addsDirs (h : Opened w.disk root place) (hname : Path.IsName info.name)
    (saved : SavedDeployment) :
    AddsDirs (fun q => q = info.name :: place ∨ q = saved.dirName :: info.name :: place) w.disk
      (after (openDir (savePath root info saved)) w) := by
  rw [savePath_eq root hname]
  refine (openDir_addsDirs h.dirAt).mono ?_
  rintro q ⟨below, hne, hsuffix, rfl⟩
  rcases List.suffix_cons_iff.mp hsuffix with rfl | hsuffix
  · exact .inr rfl
  · rcases List.suffix_cons_iff.mp hsuffix with rfl | hsuffix
    · exact .inl rfl
    · exact absurd (List.suffix_nil.mp hsuffix) hne

/-- The place of the directory of a version. -/
theorem openDir_savePath_place {w₁ : World} {q : Place} (h : Opened w.disk root place)
    (hname : Path.IsName info.name) {saved : SavedDeployment}
    (hopen : openDir (savePath root info saved) w = .ok q w₁) :
    q = saved.dirName :: info.name :: place := by
  have hadds := openDir_savePath_addsDirs h hname saved
  rw [after_ok hopen] at hadds
  have hdir := openDir_ok hopen
  rw [savePath_eq root hname] at hdir
  exact (hadds.keepsDirs.dirAt h.dirAt).resolve_names hdir.1

/-- The directory of the application, if it is there. -/
theorem dirAt_appDir {d : Disk} (h : Opened d root place) (hname : Path.IsName info.name)
    (hdir : d.node (info.name :: place) = some .dir) :
    d.DirAt (appDir root info) (info.name :: place) := by
  rw [appDir_eq root hname]
  exact ⟨h.dirAt.resolve_cons _, hdir⟩

/-- The info file is not in the directory of a version. -/
theorem not_inside_infoFile (name : String) (app : Place) :
    ¬ Inside (name :: app) (infoFileName :: app) := by
  rintro ⟨n, h⟩
  exact absurd (congrArg List.length h) (by simp)

/-! ### Saving -/

variable [Archives] [Crates]

/-- **A save that succeeds** has opened the directory of the version, written into it and written
the info. -/
theorem save_ok {saved : SavedDeployment} (h : save root info now tgz w = .ok saved w') :
    saved = ⟨now, sha256 tgz⟩ ∧ ∃ place w₁ w₂,
      openDir (savePath root info saved) w = .ok place w₁ ∧
      WritesFiles (Inside place) w₁.disk w₂.disk ∧
      write (infoPath root info) (encode info.into) w₂ = .ok () w' := by
  obtain ⟨⟨⟩, w₂, htgz, h⟩ := bind_ok.mp h
  obtain ⟨⟨⟩, w₃, hinfo, h⟩ := bind_ok.mp h
  obtain ⟨rfl, rfl⟩ := EStateM.Result.ok.inj h
  obtain ⟨place, w₁, hopen, hwrites⟩ := writeTgz_ok htgz
  unfold writeInfo at hinfo
  rw [Path.join_name isName_infoFileName] at hinfo
  exact ⟨rfl, place, w₁, w₂, hopen, hwrites, hinfo⟩

/-- **A save that fails** has not opened the directory of the version, or has written into it at
most the beginning of the archive, or has extracted the archive and not written the info. -/
theorem save_error {e : IoError} (h : save root info now tgz w = .error e w') :
    openDir (savePath root info ⟨now, sha256 tgz⟩) w = .error e w' ∨ ∃ place w₁,
      openDir (savePath root info ⟨now, sha256 tgz⟩) w = .ok place w₁ ∧
      (WritesFiles (Inside place) w₁.disk w'.disk ∨ ∃ w₂,
        writeTgz (savePath root info ⟨now, sha256 tgz⟩) tgz w = .ok () w₂ ∧
        WritesFiles (Inside place) w₁.disk w₂.disk ∧
        write (infoPath root info) (encode info.into) w₂ = .error e w') := by
  rcases bind_error.mp h with htgz | ⟨⟨⟩, w₂, htgz, h⟩
  · rcases bind_error.mp htgz with hopen | ⟨place, w₁, hopen, hrest⟩
    · exact .inl hopen
    · refine .inr ⟨place, w₁, hopen, .inl ?_⟩
      have hafter := after_lift_bind (x := entries tgz) (w := w₁)
        (P := fun d => WritesFiles (Inside place) w₁.disk d) (.refl _ _)
        fun archive _ => after_writeEntries (openDir_ok hopen) archive
      rwa [after_error hrest] at hafter
  · right
    obtain ⟨place, w₁, hopen, hwrites⟩ := writeTgz_ok htgz
    refine ⟨place, w₁, hopen, .inr ⟨w₂, htgz, hwrites, ?_⟩⟩
    rcases bind_error.mp h with hinfo | ⟨_, _, _, h⟩
    · unfold writeInfo at hinfo
      rwa [Path.join_name isName_infoFileName] at hinfo
    · exact absurd h pure_ne_error

/-- A save whose write of the info fails, after the archive was extracted. -/
theorem save_of_write_error {w₂ : World} {e : IoError}
    (htgz : writeTgz (savePath root info ⟨now, sha256 tgz⟩) tgz w = .ok () w₂)
    (hwrite : write (infoPath root info) (encode info.into) w₂ = .error e w') :
    save root info now tgz w = .error e w' := by
  refine bind_error.mpr (.inr ⟨(), w₂, htgz, bind_error.mpr (.inl ?_)⟩)
  unfold writeInfo
  rw [Path.join_name isName_infoFileName]
  exact hwrite

/-- What a save leaves: a directory for the application and for the version, the info, and nothing
else outside of the directory of the version. -/
structure SavedAt (root : Path) (place : Place) (info : DeploymentInfo) (saved : SavedDeployment)
    (d d' : Disk) : Prop where
  opened : Opened d' root place
  app : d'.node (info.name :: place) = some .dir
  version : d'.node (saved.dirName :: info.name :: place) = some .dir
  infoFile : d'.node (infoFileName :: info.name :: place) = some (.file (encode info.into))
  frame : ∀ q, q ≠ info.name :: place → q ≠ saved.dirName :: info.name :: place →
    q ≠ infoFileName :: info.name :: place → ¬ Inside (saved.dirName :: info.name :: place) q →
    d'.node q = d.node q

/-- **What a save that succeeds leaves.** -/
theorem save_savedAt {saved : SavedDeployment} (h : Opened w.disk root place)
    (hname : Path.IsName info.name) (hs : save root info now tgz w = .ok saved w') :
    SavedAt root place info saved w.disk w'.disk := by
  obtain ⟨-, q, w₁, w₂, hopen, hwrites, hinfo⟩ := save_ok hs
  obtain rfl := openDir_savePath_place h hname hopen
  have hadds := openDir_savePath_addsDirs h hname saved
  rw [after_ok hopen] at hadds
  have hversion := (openDir_ok hopen).2
  have happ := Disk.node_tail hversion
  have hopened₂ : Opened w₂.disk root place :=
    (h.of_addsDirs hadds).of_writesFiles hwrites (by
      rintro ⟨name, hq⟩
      exact absurd (congrArg List.length hq) (by simp))
  have happAt := dirAt_appDir hopened₂ hname (hwrites.keepsDirs _ happ)
  obtain ⟨q, hq, hfree, hnode⟩ := write_ok hinfo
  unfold infoPath at hq
  rw [happAt.resolve_cons] at hq
  obtain rfl := Except.ok.inj hq
  have hwrites' : WritesFiles (fun q => q = infoFileName :: info.name :: place) w₂.disk w'.disk :=
    .single hfree hnode rfl
  refine ⟨hopened₂.of_writesFiles hwrites' ?_, ?_, ?_, ?_, ?_⟩
  · intro hq
    exact absurd (congrArg List.length hq) (by simp)
  · exact hwrites'.keepsDirs _ happAt.2
  · exact hwrites'.keepsDirs _ (hwrites.keepsDirs _ hversion)
  · rw [hnode]
    exact if_pos rfl
  · intro q hne₁ hne₂ hne₃ hinside
    have h₁ : w₁.disk.node q = w.disk.node q := hadds.node_eq fun hq => by tauto
    rw [hwrites'.node_eq hne₃, hwrites.node_eq hinside, h₁]

namespace SavedAt

variable {saved : SavedDeployment} {d d' : Disk} {x name : String}

/-- Other names in the root directory are untouched. -/
theorem root_eq (h : SavedAt root place info saved d d') (hx : x ≠ info.name) :
    d'.node (x :: place) = d.node (x :: place) := by
  refine h.frame _ (fun hq => hx (List.cons.inj hq).1) ?_ ?_ ?_
  · exact fun hq => absurd (congrArg List.length hq) (by simp)
  · exact fun hq => absurd (congrArg List.length hq) (by simp)
  · rintro ⟨n, hq⟩
    exact absurd (congrArg List.length hq) (by simp)

/-- Other entries of the directories of applications are untouched. -/
theorem entry_eq (h : SavedAt root place info saved d d')
    (hx : x ≠ info.name ∨ (name ≠ saved.dirName ∧ name ≠ infoFileName)) :
    d'.node (name :: x :: place) = d.node (name :: x :: place) := by
  refine h.frame _ (fun hq => absurd (congrArg List.length hq) (by simp)) ?_ ?_ ?_
  · intro hq
    simp only [List.cons.injEq, and_true] at hq
    tauto
  · intro hq
    simp only [List.cons.injEq, and_true] at hq
    tauto
  · rintro ⟨n, hq⟩
    exact absurd (congrArg List.length hq) (by simp)

/-- **What is found two levels below the root directory**: the directory of the version, the info
file, or what was there. -/
theorem entry_cases (h : SavedAt root place info saved d d') (x name : String) :
    (x = info.name ∧ name = saved.dirName ∧ d'.node (name :: x :: place) = some .dir) ∨
    (x = info.name ∧ name = infoFileName ∧
      d'.node (name :: x :: place) = some (.file (encode info.into))) ∨
    ((x ≠ info.name ∨ (name ≠ saved.dirName ∧ name ≠ infoFileName)) ∧
      d'.node (name :: x :: place) = d.node (name :: x :: place)) := by
  by_cases hx : x = info.name
  · subst hx
    by_cases hv : name = saved.dirName
    · subst hv
      exact .inl ⟨rfl, rfl, h.version⟩
    · by_cases hi : name = infoFileName
      · subst hi
        exact .inr (.inl ⟨rfl, rfl, h.infoFile⟩)
      · exact .inr (.inr ⟨.inr ⟨hv, hi⟩, h.entry_eq (.inr ⟨hv, hi⟩)⟩)
  · exact .inr (.inr ⟨.inl hx, h.entry_eq (.inl hx)⟩)

end SavedAt

end DeploymentDatabase
end Laqista
