import Laqista.Deployment.Restart
import Laqista.Lib.Refused

/-! # When the directory of a version is not made

A save opens the directory of the version first, and makes it if it is missing, after that of the
application. `Barred` lists the reasons for which nothing is made, on the disk and the operations
that are refused (`after_openDir_eq_iff`). -/

namespace Laqista

open Laqista.Proto Laqista.Lib Laqista.Fs Laqista.DeploymentDatabase Lib.File

/-- The directory of a version is there, or a file is in its place or in that of the directory of
the application, or an operation is refused: to look for it, or to make it. When the directory of
the application is missing as well, it is made in between. -/
def Barred (place : Place) (d : Disk) (info : DeploymentInfo) (saved : SavedDeployment)
    (faults : List (Option Fault)) : Prop :=
  d.node (saved.dirName :: info.name :: place) ≠ none ∨
  (∃ contents, d.node (info.name :: place) = some (.file contents)) ∨
  Refused faults 0 ∨ Refused faults 1 ∨ (d.node (info.name :: place) = none ∧ Refused faults 2)

section Opening

variable {root p : Path} {place q : Place} {d : Disk} {faults : List (Option Fault)}

/-! ### Directories that are missing -/

theorem after_openDir_refused (p : Path) (hf : Refusals faults) (h₀ : Refused faults 0) :
    after (openDir p) ⟨d, faults⟩ = d := by
  obtain ⟨e, he, hr⟩ := operation_refused hf h₀
  exact after_openDir_error hr he

/-- A directory that is missing in a directory. -/
theorem after_openDir_in {name : String} (h : d.DirAt p q) (hn : d.node (name :: q) = none)
    (h₀ : ¬ Refused faults 0) : after (openDir (.normal name :: p)) ⟨d, faults⟩ =
      after (createDirAll (.normal name :: p)) ⟨d, faults.tail⟩ := by
  have hresolve : d.resolve (.normal name :: p) = .ok (name :: q) := h.resolve_cons _
  refine after_openDir_missing (operation_free_error h₀ ?_)
  simp only [hresolve, hn, bind, Except.bind]

/-- A directory in a directory that is missing as well. -/
theorem after_openDir_below {name : String} (h : d.DirAt p q) (hn : d.node (name :: q) = none)
    (c : Component) (h₀ : ¬ Refused faults 0) :
    after (openDir (c :: .normal name :: p)) ⟨d, faults⟩ =
      after (createDirAll (c :: .normal name :: p)) ⟨d, faults.tail⟩ := by
  refine after_openDir_missing (operation_free_error h₀ ?_)
  simp only [resolve_below h hn c, bind, Except.bind]

/-- The directory of an application is there, and that of the version is missing. -/
theorem after_openDir_in_eq_iff {name : String} (h : d.DirAt p q) (hn : d.node (name :: q) = none)
    (hf : Refusals faults) : after (openDir (.normal name :: p)) ⟨d, faults⟩ = d ↔
      Refused faults 0 ∨ Refused faults 1 := by
  by_cases h₀ : Refused faults 0
  · exact iff_of_true (after_openDir_refused _ hf h₀) (.inl h₀)
  · rw [after_openDir_in h hn h₀, or_iff_right h₀, ← refused_tail]
    constructor
    · intro hsame
      by_contra h₁
      have hmade := createDirAll_makes h hn h₁
      rw [hsame, hn] at hmade
      exact absurd hmade (by simp)
    · exact after_createDirAll_refused _ hf.tail

/-- Both are missing. -/
theorem after_openDir_below_eq_iff {name : String} (h : d.DirAt p q)
    (hn : d.node (name :: q) = none) (c : Component) (hf : Refusals faults) :
    after (openDir (c :: .normal name :: p)) ⟨d, faults⟩ = d ↔
      Refused faults 0 ∨ Refused faults 1 ∨ Refused faults 2 := by
  by_cases h₀ : Refused faults 0
  · exact iff_of_true (after_openDir_refused _ hf h₀) (.inl h₀)
  · rw [after_openDir_below h hn c h₀, or_iff_right h₀, ← refused_tail, ← refused_tail]
    by_cases h₁ : Refused faults.tail 0
    · exact iff_of_true (after_createDirAll_refused _ hf.tail h₁) (.inl h₁)
    · rw [or_iff_right h₁]
      constructor
      · intro hsame
        by_contra h₂
        have hmade := createDirAll_below_makes h hn h₁ c h₂
        rw [hsame, hn] at hmade
        exact absurd hmade (by simp)
      · exact after_createDirAll_below h hn h₁ c hf.tail

/-! ### The directory of a version -/

variable {info : DeploymentInfo} {saved : SavedDeployment}

/-- What is there is not made, nor anything where a file is in the way. -/
theorem after_openDir_there (ho : Opened d root place) (hname : Path.IsName info.name)
    (h : d.node (saved.dirName :: info.name :: place) ≠ none ∨
      ∃ contents, d.node (info.name :: place) = some (.file contents)) :
    after (openDir (savePath root info saved)) ⟨d, faults⟩ = d := by
  have hadds := openDir_savePath_addsDirs (w := ⟨d, faults⟩) ho hname saved
  have happ : d.node (info.name :: place) ≠ none := by
    rcases h with hv | ⟨contents, hc⟩
    · obtain ⟨node, hv⟩ := Option.ne_none_iff_exists'.mp hv
      rw [Disk.node_tail hv]
      simp
    · simp [hc]
  refine Disk.ext_node fun q => ?_
  rcases hadds q with hsame | ⟨hnone, hdir, rfl | rfl⟩
  · exact hsame
  · exact absurd hnone happ
  · rcases h with hv | ⟨contents, hc⟩
    · exact absurd hnone hv
    · -- a directory in a file
      rcases hadds (info.name :: place) with hsame | ⟨hnone', -⟩
      · rw [Disk.node_tail hdir] at hsame
        exact absurd (hsame.trans hc) (by simp)
      · exact absurd hnone' happ

/-- **Nothing is made exactly when there is a reason.** -/
theorem after_openDir_eq_iff (ho : Opened d root place) (hname : Path.IsName info.name)
    (hf : Refusals faults) : after (openDir (savePath root info saved)) ⟨d, faults⟩ = d ↔
      Barred place d info saved faults := by
  unfold Barred
  by_cases hv : d.node (saved.dirName :: info.name :: place) = none
  · have hpath : savePath root info saved =
        .normal saved.dirName :: .normal info.name :: appRootDir root :=
      savePath_eq root hname saved
    rcases hn : d.node (info.name :: place) with _ | contents | _
    · rw [hpath, after_openDir_below_eq_iff ho.dirAt hn _ hf]
      simp [hv]
    · exact iff_of_true (after_openDir_there ho hname (.inr ⟨contents, hn⟩)) (.inr (.inl ⟨_, rfl⟩))
    · have hdir : d.DirAt (.normal info.name :: appRootDir root) (info.name :: place) :=
        ⟨ho.dirAt.resolve_cons _, hn⟩
      rw [hpath, after_openDir_in_eq_iff hdir hv hf]
      simp [hv]
  · exact iff_of_true (after_openDir_there ho hname (.inl hv)) (.inl hv)

end Opening

/-! ### What is left for the next operations -/

theorem advances_openDir (p : Path) : Advances (openDir p) := by
  have hread : Advances (Lib.File.readDir p) := advances_operation _
  refine (advances_attempt hread).bind fun r => ?_
  split
  · exact .pure _
  · exact (advances_createDirAll p).bind fun _ => hread
  · exact .throw _

theorem advances_lift {α : Type} (r : Except IoError α) : Advances (lift r) := by
  rcases r with e | a
  · exact .throw e
  · exact .pure a

theorem advances_writeTgz [Archives] (p : Path) (tgz : List UInt8) : Advances (writeTgz p tgz) := by
  refine (advances_openDir p).bind fun _ => (advances_lift _).bind fun archive => ?_
  refine .forM (fun entry => ?_) archive
  refine (advances_lift _).bind fun entry => (advances_lift _).bind fun path => ?_
  exact (advances_lift _).bind fun name => (advances_lift _).bind fun contents =>
    advances_write _ contents

end Laqista
