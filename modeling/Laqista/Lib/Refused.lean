import Laqista.Lib.Walk

/-! # Operations that are refused

The operations of a computation meet the entries of a list, one after the other, and what is left
for what follows is the end of the list (`Advances`). When the operation that would create a
directory is refused, nothing is created (`after_createDirAll_refused`); when it is not, the
directory is there afterwards (`createDirAll_makes`). -/

namespace Laqista.Lib

variable {ε α β : Type}

/-- The world that a computation leaves. -/
def leaves : EStateM.Result ε World α → World
  | .ok _ w => w
  | .error _ w => w

/-- The operations of a computation leave the end of what there was to meet. -/
def Advances (x : EStateM ε World α) : Prop := ∀ w, (leaves (x w)).faults <:+ w.faults

namespace Advances

theorem pure (a : α) : Advances (Pure.pure a : EStateM ε World α) := fun _ => List.suffix_rfl

theorem throw (e : ε) : Advances (MonadExcept.throw e : EStateM ε World α) :=
  fun _ => List.suffix_rfl

theorem bind {x : EStateM ε World α} {f : α → EStateM ε World β} (hx : Advances x)
    (hf : ∀ a, Advances (f a)) : Advances (x >>= f) := by
  intro w
  have h := hx w
  simp only [Bind.bind, EStateM.bind]
  rcases hr : x w with ⟨a, w₁⟩ | ⟨e, w₁⟩
  · rw [hr] at h
    exact (hf a w₁).trans h
  · rw [hr] at h
    exact h

theorem forM {f : α → EStateM ε World PUnit} (hf : ∀ a, Advances (f a)) (l : List α) :
    Advances (l.forM f) := by
  induction l with
  | nil => exact .pure _
  | cons a l ih => exact (hf a).bind fun _ => ih

/-- What is left after a success. -/
theorem ok {x : EStateM ε World α} (hx : Advances x) {w w' : World} {a : α} (h : x w = .ok a w') :
    w'.faults <:+ w.faults := by
  have hw := hx w
  rw [h] at hw
  exact hw

end Advances

namespace File

/-! ### What is left for the next operations -/

theorem advances_operation (f : Disk → Except IoError (α × Disk)) : Advances (operation f) := by
  intro w
  have htail := List.tail_suffix w.faults
  unfold operation
  split
  · exact htail
  · split
    · exact htail
    · exact htail

theorem advances_attempt {x : File α} (hx : Advances x) : Advances (attempt x) := by
  intro w
  have h := hx w
  unfold attempt
  rcases hr : x w with ⟨a, w₁⟩ | ⟨e, w₁⟩
  · rw [hr] at h
    exact h
  · rw [hr] at h
    exact h

theorem advances_isDir (p : Path) : Advances (isDir p) := by
  intro w
  have h : Advances (stat p) := advances_operation _
  have hw := h w
  unfold isDir
  rcases hr : stat p w with ⟨node, w₁⟩ | ⟨e, w₁⟩
  · rw [hr] at hw
    exact hw
  · rw [hr] at hw
    exact hw

theorem advances_orIsDir (p : Path) (r : Except IoError Unit) : Advances (orIsDir p r) := by
  rcases r with e | ⟨⟩
  · refine (advances_isDir p).bind fun b => ?_
    split
    · exact .pure ()
    · exact .throw e
  · exact .pure ()

theorem advances_createDirAll (p : Path) : Advances (createDirAll p) := by
  have hfirst : ∀ p, Advances (attempt (createDir p)) :=
    fun p => advances_attempt (advances_operation _)
  induction p with
  | nil =>
    rw [createDirAll]
    refine (hfirst []).bind fun r => ?_
    split
    · exact .throw _
    · exact advances_orIsDir _ _
  | cons c p ih =>
    rw [createDirAll]
    refine (hfirst (c :: p)).bind fun r => ?_
    split
    · exact ih.bind fun _ => (hfirst (c :: p)).bind fun r => advances_orIsDir _ r
    · exact advances_orIsDir _ _

theorem advances_write (p : Path) (contents : List UInt8) : Advances (write p contents) := by
  intro w
  have hall : ∀ cs, Advances (writeAll p cs) := fun cs => advances_operation _
  have hnone : ∀ cs, (leaves (writeAll p cs ⟨w.disk, none :: w.faults.tail⟩)).faults <:+
      w.faults := by
    intro cs
    refine List.IsSuffix.trans ?_ (List.tail_suffix w.faults)
    unfold writeAll operation
    simp only [List.head?_cons, List.tail_cons]
    split
    · exact List.suffix_rfl
    · exact List.suffix_rfl
  unfold write
  split
  · next e k _ =>
    split
    · have h := hnone (contents.take k)
      rcases hr : writeAll p (contents.take k) ⟨w.disk, none :: w.faults.tail⟩ with
        ⟨a, w₁⟩ | ⟨e', w₁⟩
      · rw [hr] at h
        exact h
      · rw [hr] at h
        exact h
    · exact hnone contents
  · exact hall contents w

/-! ### Refusals -/

/-- Operations are refused as a whole, and not as if something were missing. -/
def Refusals (faults : List (Option Fault)) : Prop :=
  ∀ f, some f ∈ faults → f.error ≠ .notFound ∧ f.written = none

variable {faults : List (Option Fault)} {d : Disk} {p : Path} {place : Place} {c : Component}

theorem refused_tail {n : ℕ} : Refused faults.tail n ↔ Refused faults (n + 1) := by
  unfold Refused
  rw [List.getElem?_tail]

theorem Refusals.tail (h : Refusals faults) : Refusals faults.tail :=
  fun f hf => h f (List.mem_of_mem_tail hf)

/-- No write is interrupted. -/
theorem Refusals.not_interrupted {w : World} {n k : ℕ} (h : Refusals faults)
    (hw : w.faults <:+ faults) : ¬ Interrupted w n k := by
  rintro ⟨-, e, hhead⟩
  have hmem := hw.subset (List.mem_of_head? hhead)
  exact absurd (h _ hmem).2 (by simp)

/-- An operation that is refused says so. -/
theorem operation_refused {f : Disk → Except IoError (α × Disk)} (h : Refusals faults)
    (h₀ : Refused faults 0) : ∃ e, e ≠ .notFound ∧
      operation f ⟨d, faults⟩ = .error e ⟨d, faults.tail⟩ := by
  obtain ⟨e, he⟩ := h₀
  refine ⟨e.error, (h e (List.mem_of_getElem? he)).1, ?_⟩
  rw [← List.head?_eq_getElem?] at he
  unfold operation
  simp only [he]

/-- **If the first operation is refused, no directory is created.** -/
theorem after_createDirAll_refused (p : Path) (h : Refusals faults) (h₀ : Refused faults 0) :
    after (createDirAll p) ⟨d, faults⟩ = d := by
  obtain ⟨e, he, hc⟩ : ∃ e, e ≠ .notFound ∧
    createDir p ⟨d, faults⟩ = .error e ⟨d, faults.tail⟩ := operation_refused h h₀
  have hrest := after_orIsDir p (.error e) ⟨d, faults.tail⟩
  rcases p with _ | ⟨c, p⟩
  · rw [createDirAll]
    unfold after at hrest ⊢
    rw [attempt_bind_error hc]
    cases e <;> first | exact absurd rfl he | exact hrest
  · rw [createDirAll]
    unfold after at hrest ⊢
    rw [attempt_bind_error hc]
    cases e <;> first | exact absurd rfl he | exact hrest

/-- **If it is not refused, a directory in a directory is created.** -/
theorem createDirAll_makes {name : String} (h : d.DirAt p place)
    (hn : d.node (name :: place) = none) (h₀ : ¬ Refused faults 0) :
    (after (createDirAll (.normal name :: p)) ⟨d, faults⟩).node (name :: place) = some .dir := by
  obtain ⟨d', hc, hnode⟩ := createDir_free h₀ h hn
  have hsame : after (createDirAll (.normal name :: p)) ⟨d, faults⟩ = d' := by
    have hrest := after_orIsDir (.normal name :: p) (.ok ()) ⟨d', faults.tail⟩
    rw [createDirAll]
    unfold after at hrest ⊢
    rw [attempt_bind_ok hc]
    exact hrest
  rw [hsame]
  exact hnode

/-! ### A directory in a directory that is missing -/

section Below

variable {name : String} (h : d.DirAt p place) (hn : d.node (name :: place) = none)
  (h₀ : ¬ Refused faults 0)

include h hn

theorem resolve_below (c : Component) :
    d.resolve (c :: .normal name :: p) = .error .notFound := by
  simp only [Disk.resolve, h.1, h.2, Component.enter, hn]

include h₀

/-- Then the directory that is missing is created first. -/
theorem createDirAll_below (c : Component) :
    createDirAll (c :: .normal name :: p) ⟨d, faults⟩ = (do
      createDirAll (.normal name :: p)
      orIsDir (c :: .normal name :: p) (← attempt (createDir (c :: .normal name :: p))) : File Unit)
      ⟨d, faults.tail⟩ := by
  have hc : createDir (c :: .normal name :: p) ⟨d, faults⟩ = .error .notFound ⟨d, faults.tail⟩ := by
    refine operation_free_error h₀ ?_
    simp only [resolve_below h hn c, bind, Except.bind]
  rw [createDirAll, attempt_bind_error hc]

/-- It is there afterwards, unless its creation is refused. -/
theorem createDirAll_below_makes (c : Component) (h₁ : ¬ Refused faults 1) :
    (after (createDirAll (c :: .normal name :: p)) ⟨d, faults⟩).node (name :: place) =
      some .dir := by
  have hmakes := createDirAll_makes h hn fun hr => h₁ (refused_tail.mp hr)
  unfold after
  rw [createDirAll_below h hn h₀ c]
  refine after_bind (P := fun d => d.node (name :: place) = some .dir) ?_ ?_
  · intro e w₁ hc
    rw [after_error hc] at hmakes
    exact hmakes
  · intro a w₁ hc
    rw [after_ok hc] at hmakes
    rw [after_attempt_orIsDir]
    exact (after_createDir _ w₁).keepsDirs _ hmakes

/-- If its creation is refused, nothing is created. -/
theorem after_createDirAll_below (c : Component) (hf : Refusals faults) (h₁ : Refused faults 1) :
    after (createDirAll (c :: .normal name :: p)) ⟨d, faults⟩ = d := by
  have hsame := after_createDirAll_refused (d := d) (.normal name :: p) hf.tail
    (refused_tail.mpr h₁)
  unfold after
  rw [createDirAll_below h hn h₀ c]
  refine after_bind (P := fun d' => d' = d) ?_ ?_
  · intro e w₁ hc
    rw [after_error hc] at hsame
    exact hsame
  · intro a w₁ hc
    rw [after_ok hc] at hsame
    rw [after_attempt_orIsDir]
    -- the parent is still missing
    rcases hc' : createDir (c :: .normal name :: p) w₁ with ⟨⟨⟩, w₂⟩ | ⟨e, w₂⟩
    · obtain ⟨q, hq, -⟩ := createDir_ok hc'
      rw [hsame, resolve_below h hn c] at hq
      exact absurd hq (by simp)
    · rw [after_error hc', createDir_error hc']
      exact hsame

end Below

end File

end Laqista.Lib
