import Mathlib.Tactic.Common

/-! # Computations that can fail

Inversion of `Except` computations: a sequence that succeeds has succeeding parts. -/

namespace Laqista.Lib

variable {ε α β γ : Type}

@[simp] theorem ok_bind (a : α) (f : α → Except ε β) : (Except.ok a >>= f) = f a := rfl

@[simp] theorem error_bind (e : ε) (f : α → Except ε β) :
    (Except.error e >>= f) = .error e := rfl

@[simp] theorem pure_eq_ok (a : α) : (pure a : Except ε α) = .ok a := rfl

/-- **A sequence that succeeds has succeeding parts.** -/
theorem bind_eq_ok {x : Except ε α} {f : α → Except ε β} {b : β} :
    (x >>= f) = .ok b ↔ ∃ a, x = .ok a ∧ f a = .ok b := by
  rcases x with e | a
  · simp
  · simp

theorem map_map (f : α → β) (g : β → γ) (x : Except ε α) : (x.map f).map g = x.map (g ∘ f) := by
  rcases x with e | a
  · rfl
  · rfl

/-- Applying a function to each element succeeds when it does at each of them. -/
theorem map_eq_ok {f : α → β} {x : Except ε α} {b : β} (h : x.map f = .ok b) :
    ∃ a, x = .ok a ∧ f a = b := by
  rcases x with e | a
  · simp [Except.map] at h
  · exact ⟨a, rfl, Except.ok.inj h⟩

theorem mapM_map_ok {f : β → Except ε γ} {g : α → β} {h : α → γ}
    (hf : ∀ a, f (g a) = .ok (h a)) (l : List α) : (l.map g).mapM f = .ok (l.map h) := by
  induction l with
  | nil => rfl
  | cons a l ih =>
    rw [List.map_cons, List.mapM_cons, hf, ih]
    rfl

/-- Applying a function to each element gives results with a property when it does at each. -/
theorem mapM_ok_of_forall {f : α → Except ε β} {P : β → Prop} {l : List α}
    (h : ∀ a ∈ l, ∃ b, f a = .ok b ∧ P b) :
    ∃ bs, l.mapM f = .ok bs ∧ bs.length = l.length ∧ ∀ b ∈ bs, P b := by
  induction l with
  | nil => exact ⟨[], rfl, rfl, by simp⟩
  | cons a l ih =>
    obtain ⟨b, hb, hP⟩ := h a (by simp)
    obtain ⟨bs, hbs, hlen, hPs⟩ := ih fun a ha => h a (List.mem_cons_of_mem _ ha)
    refine ⟨b :: bs, ?_, by simp [hlen], ?_⟩
    · rw [List.mapM_cons, hb, hbs]
      rfl
    · intro x hx
      rcases List.mem_cons.mp hx with rfl | hx
      · exact hP
      · exact hPs x hx

/-- A result that is there. -/
theorem isOk_bind {x : Except ε α} {f : α → Except ε β} :
    (∃ b, (x >>= f) = .ok b) ↔ ∃ a, x = .ok a ∧ ∃ b, f a = .ok b := by
  rcases x with e | a
  · simp
  · simp

/-- A function succeeds at all elements of a list exactly when it does at each. -/
theorem isOk_mapM {f : α → Except ε β} {l : List α} :
    (∃ bs, l.mapM f = .ok bs) ↔ ∀ a ∈ l, ∃ b, f a = .ok b := by
  induction l with
  | nil => simp
  | cons a l ih =>
    rw [List.mapM_cons, isOk_bind, List.forall_mem_cons]
    simp only [isOk_bind, pure_eq_ok, Except.ok.injEq, exists_eq', and_true]
    constructor
    · rintro ⟨b, hb, hl⟩
      exact ⟨⟨b, hb⟩, ih.mp hl⟩
    · rintro ⟨⟨b, hb⟩, hl⟩
      exact ⟨b, hb, ih.mpr hl⟩

/-- A fold whose steps succeed exactly at some elements succeeds exactly on lists of these. -/
theorem isOk_foldlM {f : β → α → Except ε β} {P : α → Prop}
    (hf : ∀ b a, (∃ b', f b a = .ok b') ↔ P a) {b : β} {l : List α} :
    (∃ b', l.foldlM f b = .ok b') ↔ ∀ a ∈ l, P a := by
  induction l generalizing b with
  | nil => simp
  | cons a l ih =>
    rw [List.foldlM_cons, isOk_bind, List.forall_mem_cons, ← hf b a]
    constructor
    · rintro ⟨b', hb, hl⟩
      exact ⟨⟨b', hb⟩, ih.mp hl⟩
    · rintro ⟨⟨b', hb⟩, hl⟩
      exact ⟨b', hb, ih.mpr hl⟩

end Laqista.Lib
