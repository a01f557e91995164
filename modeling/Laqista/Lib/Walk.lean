import Laqista.Lib.Files

/-! # Where paths lead

There are no links, so the place that a path names can be read off the path. Creating the
directories of a path adds at most the places that the path passes (`createDirAll_onWay`). Without
faults, and without a file on the way, it makes all of them (`createDirAll_succeeds`). -/

namespace Laqista.Lib

/-- The place that a path names, if it names one. -/
def Path.place (p : Path) : Place := p.foldr Component.enter []

theorem Path.place_cons (c : Component) (p : Path) : Path.place (c :: p) = c.enter p.place := rfl

theorem Path.place_names (names : List String) (p : Path) :
    Path.place (names.map .normal ++ p) = names ++ p.place := by
  induction names with
  | nil => rfl
  | cons name names ih =>
    rw [List.map_cons, List.cons_append, Path.place_cons, ih]
    rfl

/-- The places that a path passes, the one that it names included. -/
def Path.Passes (p : Path) (q : Place) : Prop := ∃ s : Path, s <:+ p ∧ q = s.place

theorem Path.passes_place (p : Path) : p.Passes p.place := ⟨p, List.suffix_rfl, rfl⟩

theorem Path.passes_cons {c : Component} {p : Path} {q : Place} :
    Path.Passes (c :: p) q ↔ q = Path.place (c :: p) ∨ p.Passes q := by
  unfold Path.Passes
  simp only [List.suffix_cons_iff, or_and_right, exists_or, exists_eq_left]

namespace Disk

variable {d d' : Disk} {p : Path} {q : Place}

theorem resolve_place (h : d.resolve p = .ok q) : q = p.place := by
  induction p generalizing q with
  | nil => exact (Except.ok.inj h).symm
  | cons c p ih =>
    obtain ⟨r, hr, rfl⟩ := resolve_cons h
    rw [ih hr.1]
    rfl

/-- All places on the way to a directory are directories. -/
theorem DirAt.node_of_passes {place : Place} (h : d.DirAt p place) (hq : p.Passes q) :
    d.node q = some .dir := by
  obtain ⟨s, hs, rfl⟩ := hq
  obtain ⟨r, hr⟩ := h.suffix hs
  rw [← resolve_place hr.1]
  exact hr.2

/-- The directory around a directory. -/
theorem node_tail_dir {place : Place} (h : d.node place = some .dir) :
    d.node place.tail = some .dir := by
  rcases place with _ | ⟨name, place⟩
  · exact d.node_nil
  · exact node_tail h

/-- There is no file on the way. -/
def Clear (d : Disk) (p : Path) : Prop :=
  ∀ q, p.Passes q → ∀ contents, d.node q ≠ some (.file contents)

theorem Clear.tail {c : Component} (h : d.Clear (c :: p)) : d.Clear p :=
  fun q hq => h q (Path.passes_cons.mpr (.inr hq))

theorem clear_blank (p : Path) : blank.Clear p := by
  intro q _ contents hq
  rw [node_blank] at hq
  split_ifs at hq with hnil
  exact absurd (Option.some.inj hq) (by simp)

/-- Added directories are not files. -/
theorem Clear.of_addsDirs {A : Place → Prop} (h : d.Clear p) (hd : AddsDirs A d d') :
    d'.Clear p := by
  intro q hq contents hfile
  rcases hd q with hsame | ⟨-, hdir, -⟩
  · exact h q hq contents (hsame.symm.trans hfile)
  · rw [hdir] at hfile
    exact absurd (Option.some.inj hfile) (by simp)

/-- Without a file on the way, what a path leads to is a directory or missing. -/
theorem Clear.dirAt_or_none (h : d.Clear p) (hr : d.resolve p = .ok q) :
    d.DirAt p q ∨ d.node q = none := by
  rcases hn : d.node q with _ | contents | _
  · exact .inr rfl
  · rw [resolve_place hr] at hn
    exact absurd hn (h _ p.passes_place contents)
  · exact .inl ⟨hr, hn⟩

/-- Without a file on the way, a path leads to a directory, or to nothing, or a directory on the way
is missing. -/
theorem Clear.cases (h : d.Clear p) : d.DirAt p p.place ∨
    (d.resolve p = .ok p.place ∧ d.node p.place = none) ∨ d.resolve p = .error .notFound := by
  have hok : ∀ q, d.resolve p = .ok q → d.DirAt p p.place ∨
      (d.resolve p = .ok p.place ∧ d.node p.place = none) := by
    intro q hr
    obtain rfl := resolve_place hr
    exact (h.dirAt_or_none hr).imp_right fun hn => ⟨hr, hn⟩
  have herror : (∃ q, d.resolve p = .ok q) ∨ d.resolve p = .error .notFound := by
    clear hok
    induction p with
    | nil => exact .inl ⟨_, rfl⟩
    | cons c p ih =>
      rcases ih h.tail with ⟨q, hr⟩ | hr
      · rcases h.tail.dirAt_or_none hr with hdir | hn
        · exact .inl ⟨_, hdir.resolve_cons c⟩
        · right
          simp only [resolve, hr, hn]
      · right
        simp only [resolve, hr]
  rcases herror with ⟨q, hr⟩ | hr
  · exact (hok q hr).imp_right .inl
  · exact .inr (.inr hr)

/-- If the path before the last component is not one to a directory, it is missing. -/
theorem Clear.resolve_missing {c : Component} (h : d.Clear p) (hdir : ¬ d.DirAt p p.place) :
    d.resolve (c :: p) = .error .notFound := by
  rcases h.cases with hp | ⟨hr, hn⟩ | hr
  · exact absurd hp hdir
  · simp only [resolve, hr, hn]
  · simp only [resolve, hr]

end Disk

namespace File

variable {d : Disk} {p : Path}

/-- **Creating all directories on a path adds at most those that it passes.** -/
theorem createDirAll_onWay (p : Path) (w : World) :
    AddsDirs p.Passes w.disk (after (createDirAll p) w) :=
  createDirAll_keeps (R := AddsDirs p.Passes) (fun d => AddsDirs.refl _ d)
    (fun _ _ _ h₁ h₂ => h₁.trans h₂)
    (fun q hq w => (after_createDir q w).mono fun _ hr => ⟨q, hq, Disk.resolve_place hr⟩) w

/-! ### Operations that are not refused -/

/-- The operation with a number, from 0, is refused. -/
def Refused (faults : List (Option Fault)) (n : ℕ) : Prop := ∃ f, faults[n]? = some (some f)

theorem not_refused_nil {n : ℕ} : ¬ Refused [] n := by
  rintro ⟨f, hf⟩
  simp at hf

section Free

variable {α : Type} {faults : List (Option Fault)} {f : Disk → Except IoError (α × Disk)}
  (h₀ : ¬ Refused faults 0)

include h₀

theorem operation_free_ok {a : α} {d' : Disk} (hf : f d = .ok (a, d')) :
    operation f ⟨d, faults⟩ = .ok a ⟨d', faults.tail⟩ := by
  unfold operation
  split
  · next e he =>
    rw [List.head?_eq_getElem?] at he
    exact absurd ⟨e, he⟩ h₀
  · simp only [hf]

theorem operation_free_error {e : IoError} (hf : f d = .error e) :
    operation f ⟨d, faults⟩ = .error e ⟨d, faults.tail⟩ := by
  unfold operation
  split
  · next e' he =>
    rw [List.head?_eq_getElem?] at he
    exact absurd ⟨e', he⟩ h₀
  · simp only [hf]

/-- A directory in a directory is created. -/
theorem createDir_free {name : String} {place : Place} (h : d.DirAt p place)
    (hn : d.node (name :: place) = none) :
    ∃ d', createDir (.normal name :: p) ⟨d, faults⟩ = .ok () ⟨d', faults.tail⟩ ∧
      d'.node (name :: place) = some .dir := by
  refine ⟨d.put name place .dir h.2 (by simp [hn]), operation_free_ok h₀ ?_, ?_⟩
  · have hresolve : d.resolve (.normal name :: p) = .ok (name :: place) := h.resolve_cons _
    simp only [hresolve, bind, Except.bind, Disk.mkdir, dif_pos h.2, dif_pos hn, pure, Except.pure]
  · rw [Disk.node_put, if_pos rfl]

end Free

/-! ### Without faults -/

theorem createDir_missing (h : d.resolve p = .error .notFound) :
    createDir p ⟨d, []⟩ = .error .notFound ⟨d, []⟩ :=
  operation_free_error not_refused_nil (by simp only [h, bind, Except.bind])

theorem createDir_of_dirAt {q : Place} (h : d.DirAt p q) :
    createDir p ⟨d, []⟩ = .error .alreadyExists ⟨d, []⟩ := by
  have hmkdir : d.mkdir q = .error .alreadyExists := by
    rcases q with _ | ⟨name, place⟩
    · rfl
    · simp only [Disk.mkdir, dif_pos (Disk.node_tail h.2), h.2, reduceCtorEq, dite_false]
  exact operation_free_error not_refused_nil (by simp only [h.1, hmkdir, bind, Except.bind])

theorem isDir_of_dirAt {q : Place} (h : d.DirAt p q) : isDir p ⟨d, []⟩ = .ok true ⟨d, []⟩ := by
  unfold isDir stat operation
  simp only [List.head?_nil, h.1, h.2, bind, Except.bind, pure, Except.pure, List.tail_nil,
    decide_true]

/-- A directory in a directory is created, or it is there. -/
theorem createDir_in {c : Component} {place : Place} (h : d.DirAt p place)
    (hclear : d.Clear (c :: p)) : ∃ r d', attempt (createDir (c :: p)) ⟨d, []⟩ = .ok r ⟨d', []⟩ ∧
      r ≠ .error .notFound ∧ orIsDir (c :: p) r ⟨d', []⟩ = .ok () ⟨d', []⟩ ∧
      d'.DirAt (c :: p) (c.enter place) := by
  have hresolve := h.resolve_cons c
  rcases hclear.dirAt_or_none hresolve with hdir | hn
  · refine ⟨.error .alreadyExists, d, ?_, by simp, ?_, hdir⟩
    · unfold attempt
      rw [createDir_of_dirAt hdir]
    · unfold orIsDir
      simp only [bind, EStateM.bind, isDir_of_dirAt hdir]
      rfl
  · rcases c with _ | name
    · have htail := Disk.node_tail_dir h.2
      exact absurd (hn.symm.trans htail) (by simp)
    · obtain ⟨d', hc, hnode⟩ := createDir_free not_refused_nil h hn
      refine ⟨.ok (), d', ?_, by simp, rfl, ?_⟩
      · unfold attempt
        rw [hc]
        rfl
      · have hadds := after_createDir (.normal name :: p) ⟨d, []⟩
        rw [after_ok hc] at hadds
        exact ⟨(hadds.keepsDirs.dirAt h).resolve_cons _, hnode⟩

/-- **Without faults and without a file on the way, all directories on a path are created.** -/
theorem createDirAll_succeeds (h : d.Clear p) :
    ∃ d', createDirAll p ⟨d, []⟩ = .ok () ⟨d', []⟩ ∧ d'.DirAt p p.place := by
  induction p with
  | nil =>
    have hdir : d.DirAt [] [] := ⟨rfl, d.node_nil⟩
    refine ⟨d, ?_, hdir⟩
    rw [createDirAll, attempt_bind_error (createDir_of_dirAt hdir)]
    unfold orIsDir
    simp only [bind, EStateM.bind, isDir_of_dirAt hdir]
    rfl
  | cons c p ih =>
    by_cases hdir : d.DirAt p (Path.place p)
    · obtain ⟨r, d', hc, hr, hor, hdir'⟩ := createDir_in hdir h
      refine ⟨d', ?_, hdir'⟩
      rw [createDirAll]
      simp only [bind, EStateM.bind, hc]
      rcases r with e | ⟨⟩
      · cases e <;> exact hor
      · exact hor
    · obtain ⟨d₁, hall, hdir₁⟩ := ih h.tail
      have hadds := createDirAll_onWay p ⟨d, []⟩
      rw [after_ok hall] at hadds
      obtain ⟨r, d', hc, -, hor, hdir'⟩ := createDir_in hdir₁ (h.of_addsDirs hadds)
      refine ⟨d', ?_, hdir'⟩
      rw [createDirAll, attempt_bind_error (createDir_missing (h.tail.resolve_missing hdir))]
      simp only [bind, EStateM.bind, hall, hc, hor]

end File
end Laqista.Lib
