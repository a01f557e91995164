import Laqista.Deployment.Restart
import Laqista.Lib.Walk

/-! # Where a save writes

The name of an application is a text from a request, and joined to the root directory as a path. A
save creates the directories that the path of the version passes, and writes into the directory of
the version and next to it (`after_save`). For a name that is a single component this is one
directory in the root directory of the applications. `confined_iff` lists the names for which it is:
the path of the application passes nothing else than the way to the root directory and one directory
in it, where it ends. -/

namespace Laqista

open Laqista.Proto Laqista.Lib Laqista.Fs Laqista.DeploymentDatabase Lib.File

/-- The path of the directory of the applications with a name. -/
def namePath (root : Path) (name : String) : Path := (appRootDir root).join name

theorem appDir_eq_namePath (root : Path) (info : DeploymentInfo) :
    appDir root info = namePath root info.name := rfl

theorem savePath_eq_cons (root : Path) (info : DeploymentInfo) (saved : SavedDeployment) :
    savePath root info saved = .normal saved.dirName :: appDir root info :=
  Path.join_name saved.isName_dirName _

/-! ### Opening directories -/

theorem openDir_onWay (p : Path) (w : World) : AddsDirs p.Passes w.disk (after (openDir p) w) := by
  rcases after_openDir p w with hsame | ⟨w₁, hdisk, hcreate⟩
  · rw [hsame]
    exact AddsDirs.refl _ _
  · rw [hcreate, ← hdisk]
    exact createDirAll_onWay p w₁

/-- Without faults and without a file on the way, a directory is opened. -/
theorem openDir_succeeds {d : Disk} {p : Path} (h : d.Clear p) :
    ∃ d', openDir p ⟨d, []⟩ = .ok p.place ⟨d', []⟩ := by
  have hmissing : Lib.File.readDir p ⟨d, []⟩ = .error .notFound ⟨d, []⟩ →
      ∃ d', openDir p ⟨d, []⟩ = .ok p.place ⟨d', []⟩ := by
    intro hr
    obtain ⟨d', hall, hdir⟩ := createDirAll_succeeds h
    refine ⟨d', ?_⟩
    unfold openDir
    rw [attempt_bind_error hr]
    simp only [bind, EStateM.bind, hall, readDir_of_dirAt hdir]
  rcases h.cases with hdir | ⟨hr, hn⟩ | hr
  · refine ⟨d, ?_⟩
    unfold openDir
    rw [attempt_bind_ok (readDir_of_dirAt hdir)]
    rfl
  · refine hmissing (operation_free_error not_refused_nil ?_)
    simp only [hr, hn, bind, Except.bind]
  · refine hmissing (operation_free_error not_refused_nil ?_)
    simp only [hr, bind, Except.bind]

/-- The disk on which nothing but the root directory of the applications was created. -/
theorem exists_rootDisk (root : Path) : ∃ d : Disk,
    d.DirAt (appRootDir root) (appRootDir root).place ∧ (∀ p, d.Clear p) ∧
      ∀ q, d.node q = some .dir → (appRootDir root).Passes q := by
  obtain ⟨d, hall, hdir⟩ := createDirAll_succeeds (Disk.clear_blank (appRootDir root))
  have hadds := createDirAll_onWay (appRootDir root) ⟨.blank, []⟩
  rw [after_ok hall] at hadds
  refine ⟨d, hdir, fun p => (Disk.clear_blank p).of_addsDirs hadds, fun q hq => ?_⟩
  rcases hadds q with hsame | ⟨-, -, hpass⟩
  · rw [hq, Disk.node_blank] at hsame
    split_ifs at hsame with hnil
    subst hnil
    exact ⟨[], List.nil_suffix, rfl⟩
  · exact hpass

/-! ### Different names -/

/-- The names never lead to the same directory. -/
def Apart (root : Path) (name name' : String) : Prop :=
  ∀ (d : Disk) (q : Place), d.DirAt (namePath root name) q → ¬ d.DirAt (namePath root name') q

/-- Names are apart exactly when their paths lead to different places. -/
theorem apart_iff {root : Path} {name name' : String} : Apart root name name' ↔
    (namePath root name).place ≠ (namePath root name').place := by
  constructor
  · intro h hsame
    obtain ⟨d, hall, hdir⟩ := createDirAll_succeeds (Disk.clear_blank (namePath root name))
    have hadds := createDirAll_onWay (namePath root name) ⟨.blank, []⟩
    rw [after_ok hall] at hadds
    obtain ⟨d', hall', hdir'⟩ := createDirAll_succeeds
      ((Disk.clear_blank (namePath root name')).of_addsDirs hadds)
    have hadds' := createDirAll_onWay (namePath root name') ⟨d, []⟩
    rw [after_ok hall'] at hadds'
    refine h d' _ (hadds'.keepsDirs.dirAt hdir) ?_
    rw [hsame]
    exact hdir'
  · intro hne d q hq hq'
    exact hne ((Disk.resolve_place hq.1).symm.trans (Disk.resolve_place hq'.1))

/-! ### Direct names -/

/-- The path of a name ends in a directory in the root directory of the applications, and passes
only this directory, what is below it, and the way to the root directory. -/
def Direct (root : Path) (name : String) : Prop :=
  ∃ x, (namePath root name).place = x :: (appRootDir root).place ∧
    ∀ q, (namePath root name).Passes q →
      x :: (appRootDir root).place <:+ q ∨ (appRootDir root).Passes q

/-- A relative name without `..` is direct exactly when it has one component. -/
theorem direct_iff_of_relative {root : Path} {name : String} (hrel : name.toList.head? ≠ some '/')
    (hparent : .parent ∉ Path.ofText name) :
    Direct root name ↔ ∃ x, Path.ofText name = [.normal x] := by
  have hpath : namePath root name = Path.ofText name ++ appRootDir root := by
    unfold namePath Path.join
    rw [if_neg hrel]
  obtain ⟨names, hnames⟩ : ∃ names : List String, Path.ofText name = names.map .normal := by
    generalize Path.ofText name = p at hparent
    induction p with
    | nil => exact ⟨[], rfl⟩
    | cons c p ih =>
      obtain ⟨names, rfl⟩ := ih fun hp => hparent (List.mem_cons_of_mem _ hp)
      rcases c with _ | x
      · exact absurd (List.mem_cons_self ..) hparent
      · exact ⟨x :: names, rfl⟩
  unfold Direct
  rw [hpath, hnames, Path.place_names]
  constructor
  · rintro ⟨x, hplace, -⟩
    have hone : names = [x] := List.append_cancel_right (hplace.trans (List.singleton_append).symm)
    exact ⟨x, by rw [hone]; rfl⟩
  · rintro ⟨x, hx⟩
    have hone : names = [x] := by
      rcases names with _ | ⟨y, _ | ⟨z, names⟩⟩
      · simp at hx
      · obtain rfl := Component.normal.inj (List.cons.inj hx).1
        rfl
      · simp at hx
    subst hone
    refine ⟨x, rfl, fun q hq => ?_⟩
    rcases Path.passes_cons.mp hq with rfl | hq
    · exact .inl List.suffix_rfl
    · exact .inr hq

/-- A name that is a single component is direct, and leads to the directory of this name. -/
theorem direct_of_isName {root : Path} {name : String} (h : Path.IsName name) :
    Direct root name ∧ (namePath root name).place = name :: (appRootDir root).place := by
  have hpath : namePath root name = .normal name :: appRootDir root := Path.join_name h _
  unfold Direct
  rw [hpath]
  refine ⟨⟨name, rfl, fun q hq => ?_⟩, rfl⟩
  rcases Path.passes_cons.mp hq with rfl | hq
  · exact .inl List.suffix_rfl
  · exact .inr hq

section Confined

variable [Archives] [Crates] {root : Path} {name : String} {info : DeploymentInfo}
  {now : DateTime} {tgz : List UInt8} {w : World} {place : Place}

/-- The files that a save writes: those of the version, and the info. -/
def SavedFiles (root : Path) (info : DeploymentInfo) (saved : SavedDeployment) (q : Place) : Prop :=
  Inside (savePath root info saved).place q ∨ q = Path.place (infoPath root info)

/-- **A save creates directories on the way to the version, and then writes files**, into the
directory of the version and the info next to it. -/
theorem after_save (root : Path) (info : DeploymentInfo) (now : DateTime) (tgz : List UInt8)
    (w : World) :
    (∃ e w₁, openDir (savePath root info ⟨now, sha256 tgz⟩) w = .error e w₁ ∧
      after (save root info now tgz) w = w₁.disk) ∨
    ∃ q w₁, openDir (savePath root info ⟨now, sha256 tgz⟩) w = .ok q w₁ ∧
      WritesFiles (SavedFiles root info ⟨now, sha256 tgz⟩) w₁.disk
        (after (save root info now tgz) w) := by
  have hversion : ∀ {q : Place} {w₁ : World} {d d' : Disk},
      openDir (savePath root info ⟨now, sha256 tgz⟩) w = .ok q w₁ →
      WritesFiles (Inside q) d d' → WritesFiles (SavedFiles root info ⟨now, sha256 tgz⟩) d d' := by
    intro q w₁ d d' hopen hwrites
    have hq := Disk.resolve_place (openDir_ok hopen).1
    exact hwrites.mono fun r hr => .inl (by rw [← hq]; exact hr)
  have hinfo : ∀ {q : Place} {contents : List UInt8} {d d' : Disk},
      d.resolve (infoPath root info) = .ok q → d.node q ≠ some .dir →
      (∀ r, d'.node r = if r = q then some (.file contents) else d.node r) →
      WritesFiles (SavedFiles root info ⟨now, sha256 tgz⟩) d d' := by
    intro q contents d d' hq hfree hnode
    exact .single hfree hnode (.inr (Disk.resolve_place hq))
  rcases hs : save root info now tgz w with ⟨saved, w'⟩ | ⟨e, w'⟩
  · obtain ⟨rfl, q, w₁, w₂, hopen, hwrites, hwrite⟩ := save_ok hs
    obtain ⟨r, hr, hfree, hnode⟩ := write_ok hwrite
    rw [after_ok hs]
    exact .inr ⟨q, w₁, hopen, (hversion hopen hwrites).trans (hinfo hr hfree hnode)⟩
  · rw [after_error hs]
    rcases save_error hs with hopen | ⟨q, w₁, hopen, hwrites | ⟨w₂, -, hwrites, hwrite⟩⟩
    · exact .inl ⟨e, w', hopen, rfl⟩
    · exact .inr ⟨q, w₁, hopen, hversion hopen hwrites⟩
    · refine .inr ⟨q, w₁, hopen, (hversion hopen hwrites).trans ?_⟩
      rcases write_error hwrite with hsame | ⟨k, -, r, hr, hfree, hnode⟩
      · rw [hsame]
        exact .refl _ _
      · exact hinfo hr hfree hnode

/-- Without a file on the way, the directory of the version is there after a save. -/
theorem save_makes {d : Disk} (h : d.Clear (savePath root info ⟨now, sha256 tgz⟩)) :
    (after (save root info now tgz) ⟨d, []⟩).DirAt (savePath root info ⟨now, sha256 tgz⟩)
      (savePath root info ⟨now, sha256 tgz⟩).place := by
  obtain ⟨d', hopen⟩ := openDir_succeeds h
  rcases after_save root info now tgz ⟨d, []⟩ with ⟨e, w₁, herror, -⟩ | ⟨q, w₁, hok, hwrites⟩
  · rw [hopen] at herror
    exact absurd herror (by simp)
  · rw [hopen] at hok
    obtain ⟨rfl, rfl⟩ := EStateM.Result.ok.inj hok
    exact hwrites.keepsDirs.dirAt (openDir_ok hopen)

/-! ### Names that stay inside -/

/-- A save under this name creates directories and writes files only in one directory in the root
directory of the applications, or this directory, and it is the directory of the application. -/
def StaysInside (root : Path) (name : String) : Prop :=
  ∀ (w : World) (place : Place), w.disk.DirAt (appRootDir root) place →
    ∀ (info : DeploymentInfo) (now : DateTime) (tgz : List UInt8), info.name = name →
      ∃ x, (∀ q, (after (save root info now tgz) w).DirAt (appDir root info) q → q = x :: place) ∧
        ∀ q, (after (save root info now tgz) w).node q ≠ w.disk.node q → x :: place <:+ q

/-- A database with these names: each save stays inside, and different names have different
directories. -/
structure Confined (root : Path) (names : Set String) : Prop where
  inside : ∀ name ∈ names, StaysInside root name
  apart : ∀ name ∈ names, ∀ name' ∈ names, name ≠ name' → Apart root name name'

/-- **A save under a direct name stays inside.** -/
theorem Direct.staysInside (h : Direct root name) : StaysInside root name := by
  obtain ⟨x, hplace, hway⟩ := h
  rintro w place hroot info now tgz rfl
  obtain rfl := Disk.resolve_place hroot.1
  refine ⟨x, fun q hq => ?_, fun q hq => ?_⟩
  · exact (Disk.resolve_place hq.1).trans hplace
  · have hbelow : ∀ names : List String, x :: (appRootDir root).place <:+
        names ++ Path.place (appDir root info) := by
      intro names
      rw [appDir_eq_namePath, hplace]
      exact List.suffix_append _ _
    have hsaved : ∀ q, SavedFiles root info ⟨now, sha256 tgz⟩ q →
        x :: (appRootDir root).place <:+ q := by
      rintro q (⟨n, rfl⟩ | rfl)
      · rw [savePath_eq_cons]
        exact hbelow [n, _]
      · exact hbelow [infoFileName]
    have hadds := openDir_onWay (savePath root info ⟨now, sha256 tgz⟩) w
    have hadded : ∀ q, (after (openDir (savePath root info ⟨now, sha256 tgz⟩)) w).node q ≠
        w.disk.node q → x :: (appRootDir root).place <:+ q := by
      intro q hq
      rcases hadds q with hsame | ⟨hnone, -, hpass⟩
      · exact absurd hsame hq
      · rw [savePath_eq_cons, Path.passes_cons] at hpass
        rcases hpass with rfl | hpass
        · exact hbelow [_]
        · rcases hway q hpass with hx | hknown
          · exact hx
          · rw [hroot.node_of_passes hknown] at hnone
            exact absurd hnone (by simp)
    rcases after_save root info now tgz w with ⟨e, w₁, hopen, hsame⟩ | ⟨q', w₁, hopen, hwrites⟩
    · rw [after_error hopen] at hadded
      rw [hsame] at hq
      exact hadded q hq
    · rw [after_ok hopen] at hadded
      rcases hwrites q with hsame | ⟨-, -, hfile⟩
      · exact hadded q fun heq => hq (hsame.trans heq)
      · exact hsaved q hfile

/-- **Only direct names stay inside.** -/
theorem StaysInside.direct (h : StaysInside root name) : Direct root name := by
  obtain ⟨d, hroot, hclear, hknown⟩ := exists_rootDisk root
  obtain ⟨x, happ, hnew⟩ := h ⟨d, []⟩ _ hroot ⟨0, name, ""⟩ .epoch [] rfl
  have hmade : (after (save root ⟨0, name, ""⟩ .epoch []) ⟨d, []⟩).DirAt
      (savePath root ⟨0, name, ""⟩ ⟨.epoch, sha256 []⟩)
      (savePath root ⟨0, name, ""⟩ ⟨.epoch, sha256 []⟩).place := save_makes (hclear _)
  have hway : ∀ q, (namePath root name).Passes q →
      (after (save root ⟨0, name, ""⟩ .epoch []) ⟨d, []⟩).node q = some .dir := by
    intro q hq
    refine hmade.node_of_passes ?_
    rw [savePath_eq_cons]
    exact Path.passes_cons.mpr (.inr hq)
  refine ⟨x, ?_, fun q hq => ?_⟩
  · have hsuffix : namePath root name <:+ savePath root ⟨0, name, ""⟩ ⟨.epoch, sha256 []⟩ := by
      rw [savePath_eq_cons]
      exact List.suffix_cons _ _
    obtain ⟨q, hq⟩ := hmade.suffix hsuffix
    rw [← Disk.resolve_place hq.1]
    exact happ q hq
  · by_cases hdir : d.node q = some .dir
    · exact .inr (hknown q hdir)
    · refine .inl (hnew q fun hsame => hdir ?_)
      rw [← hsame]
      exact hway q hq

/-- **Saves stay inside exactly for names that are direct, and that lead to different places.** -/
theorem confined_iff (root : Path) (names : Set String) : Confined root names ↔
    (∀ name ∈ names, Direct root name) ∧
      Set.InjOn (fun name => (namePath root name).place) names := by
  constructor
  · intro h
    refine ⟨fun name hname => (h.inside name hname).direct, fun name hname name' hname' hsame => ?_⟩
    by_contra hne
    exact apart_iff.mp (h.apart name hname name' hname' hne) hsame
  · rintro ⟨hdirect, hinj⟩
    refine ⟨fun name hname => (hdirect name hname).staysInside, ?_⟩
    intro name hname name' hname' hne
    exact apart_iff.mpr fun hsame => hne (hinj hname hname' hsame)

/-- Saves under names that are single components stay inside. -/
theorem confined_isName (root : Path) : Confined root {name | Path.IsName name} := by
  refine ⟨fun name hname => (direct_of_isName hname).1.staysInside, ?_⟩
  intro name hname name' hname' hne
  rw [apart_iff, (direct_of_isName hname).2, (direct_of_isName hname').2]
  exact fun hsame => hne (List.cons.inj hsame).1

end Confined

section Examples

attribute [local instance] Crates.hyphenated Archives.sample

/-- An application whose name leads out of the root directory of the applications. -/
def outside : DeploymentInfo := ⟨7, "../outside", face.source⟩

theorem outside_nodes : freshDisk.node ["outside"] = none ∧
    (after (save [] outside older.timestamp emptyArchive) ⟨freshDisk, []⟩).node ["outside"] =
      some .dir := by
  decide +kernel

/-- **A save under this name creates a directory next to the root directory of the
applications.** -/
theorem outside_is_written : freshDisk.DirAt (appRootDir []) ["apps"] ∧
    freshDisk.node ["outside"] = none ∧
    (after (save [] outside older.timestamp emptyArchive) ⟨freshDisk, []⟩).node ["outside"] =
      some .dir ∧ ¬ Confined [] Set.univ := by
  obtain ⟨hnone, hdir⟩ := outside_nodes
  refine ⟨opened_freshDisk.dirAt, hnone, hdir, fun h => ?_⟩
  obtain ⟨x, -, hnew⟩ := h.inside outside.name (Set.mem_univ _) ⟨freshDisk, []⟩ _
    opened_freshDisk.dirAt outside older.timestamp emptyArchive rfl
  have hsuffix := hnew ["outside"] (by rw [hdir, hnone]; simp)
  have hlength := hsuffix.length_le
  simp at hlength

end Examples

end Laqista
