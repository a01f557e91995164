import Mathlib.Data.List.Infix
import Mathlib.Tactic.Common

/-! # Runs of a partial step function

A transition system is a function `step : σ → α → Option σ`: the action `a` is enabled in `s` if
`step s a` is a state. Whatever is not determined by the state (an order, an answer from outside,
which party moves) is part of the action, so a list of actions determines a run.

* `run_invariant`: what holds at the start and is kept by every step holds at the end of every run.
* `Always`, `EachStep`: a property of every state a run passes through, and a condition on every
  step it takes.
* `always_iff_eachStep`: if one step keeps the property exactly when the condition holds there, then
  a run keeps it throughout exactly when each of its steps meets the condition. -/

namespace Laqista.Lib.Runs

variable {σ α : Type*} (step : σ → α → Option σ)

/-- The state after the actions, if each of them is enabled in its turn. -/
def run (s : σ) : List α → Option σ
  | [] => some s
  | a :: as => (step s a).bind fun s' => run s' as

/-- Every state that the run of `as` from `s` passes through has the property. -/
def Always (P : σ → Prop) (s : σ) (as : List α) : Prop :=
  ∀ pre s', pre <+: as → run step s pre = some s' → P s'

/-- Every step of the run of `as` from `s` meets the condition, which sees the state before the
step and the action. -/
def EachStep (C : σ → α → Prop) (s : σ) (as : List α) : Prop :=
  ∀ pre a s₁ s₂, pre ++ [a] <+: as → run step s pre = some s₁ → step s₁ a = some s₂ → C s₁ a

variable {step}

@[simp] theorem run_nil (s : σ) : run step s [] = some s := rfl

@[simp] theorem run_cons (s : σ) (a : α) (as : List α) :
    run step s (a :: as) = (step s a).bind fun s' => run step s' as := rfl

theorem run_append (s : σ) (as bs : List α) :
    run step s (as ++ bs) = (run step s as).bind fun s' => run step s' bs := by
  induction as generalizing s with
  | nil => simp
  | cons a as ih =>
    rw [List.cons_append, run_cons, run_cons]
    rcases step s a with _ | s'
    · rfl
    · exact ih s'

/-- **The invariant rule.** -/
theorem run_invariant {I : σ → Prop} (hstep : ∀ s a s', I s → step s a = some s' → I s')
    {s s' : σ} {as : List α} (h0 : I s) (h : run step s as = some s') : I s' := by
  induction as generalizing s with
  | nil => cases h; exact h0
  | cons a as ih =>
    obtain ⟨s₁, h1, h2⟩ := Option.bind_eq_some_iff.mp h
    exact ih (hstep s a s₁ h0 h1) h2

/-- The invariant rule for runs whose actions are all of one kind. -/
theorem run_invariant_of {I : σ → Prop} {K : α → Prop}
    (hstep : ∀ s a s', K a → I s → step s a = some s' → I s')
    {s s' : σ} {as : List α} (h0 : I s) (hK : ∀ a ∈ as, K a) (h : run step s as = some s') :
    I s' := by
  induction as generalizing s with
  | nil => cases h; exact h0
  | cons a as ih =>
    obtain ⟨s₁, h1, h2⟩ := Option.bind_eq_some_iff.mp h
    exact ih (hstep s a s₁ (hK a (by simp)) h0 h1) (fun b hb => hK b (by simp [hb])) h2

/-- The invariant rule for a property of the state and of the actions that led to it. -/
theorem run_invariant_past {I : List α → σ → Prop}
    (hstep : ∀ past s a s', I past s → step s a = some s' → I (past ++ [a]) s')
    {past : List α} {s s' : σ} {as : List α} (h0 : I past s) (h : run step s as = some s') :
    I (past ++ as) s' := by
  induction as generalizing s past with
  | nil =>
    cases h
    rw [List.append_nil]
    exact h0
  | cons a as ih =>
    obtain ⟨s₁, h1, h2⟩ := Option.bind_eq_some_iff.mp h
    have hrest := ih (hstep past s a s₁ h0 h1) h2
    rw [List.append_assoc] at hrest
    exact hrest

theorem always_nil {P : σ → Prop} {s : σ} : Always step P s [] ↔ P s := by
  constructor
  · intro h
    exact h [] s List.prefix_rfl rfl
  · intro h pre s' hpre hrun
    rw [List.prefix_nil.mp hpre] at hrun
    obtain rfl := Option.some.inj hrun
    exact h

theorem always_cons {P : σ → Prop} {s : σ} {a : α} {as : List α} :
    Always step P s (a :: as) ↔ P s ∧ ∀ s', step s a = some s' → Always step P s' as := by
  constructor
  · intro h
    refine ⟨h [] s (by simp) rfl, fun s' hs pre t hpre hrun => ?_⟩
    exact h (a :: pre) t (by simpa using hpre) (by simpa [hs] using hrun)
  · rintro ⟨h0, h⟩ pre t hpre hrun
    rcases pre with _ | ⟨b, pre⟩
    · cases hrun; exact h0
    · obtain ⟨rfl, hpre'⟩ := List.cons_prefix_cons.mp hpre
      obtain ⟨s', hs, ht⟩ := Option.bind_eq_some_iff.mp hrun
      exact h s' hs pre t hpre' ht

theorem eachStep_nil {C : σ → α → Prop} {s : σ} : EachStep step C s [] := by
  intro pre a s₁ s₂ hpre
  simp at hpre

theorem eachStep_cons {C : σ → α → Prop} {s : σ} {a : α} {as : List α} :
    EachStep step C s (a :: as) ↔
      ∀ s', step s a = some s' → C s a ∧ EachStep step C s' as := by
  constructor
  · intro h s' hs
    refine ⟨h [] a s s' (by simp) rfl hs, fun pre b s₁ s₂ hpre hrun hstep => ?_⟩
    exact h (a :: pre) b s₁ s₂ (by simpa using hpre) (by simpa [hs] using hrun) hstep
  · intro h pre b s₁ s₂ hpre hrun hstep
    rcases pre with _ | ⟨c, pre⟩
    · obtain ⟨rfl, -⟩ := List.cons_prefix_cons.mp hpre
      obtain rfl := Option.some.inj hrun
      exact (h s₂ hstep).1
    · obtain ⟨rfl, hpre'⟩ := List.cons_prefix_cons.mp hpre
      obtain ⟨s', hs, ht⟩ := Option.bind_eq_some_iff.mp hrun
      exact (h s' hs).2 pre b s₁ s₂ hpre' ht hstep

/-- A condition that can be decided on each step can be decided on a run. -/
instance decidableEachStep {C : σ → α → Prop} [∀ s a, Decidable (C s a)] (s : σ) :
    (as : List α) → Decidable (EachStep step C s as)
  | [] => isTrue eachStep_nil
  | a :: as =>
    match h : step s a with
    | none => isTrue (eachStep_cons.mpr fun s' hs => by rw [h] at hs; cases hs)
    | some s' =>
      have := decidableEachStep (C := C) s' as
      decidable_of_iff (C s a ∧ EachStep step C s' as) (by
        rw [eachStep_cons]
        constructor
        · intro hc s₁ hs
          obtain rfl := Option.some.inj (h.symm.trans hs)
          exact hc
        · intro hc
          exact hc s' h)

/-- **Exact conditions.** `I` is kept as long as the property `P` holds, and where both hold, a
step leads to a state with `P` exactly when it meets `C`. Then a run keeps `P` throughout exactly
when each of its steps meets `C`. -/
theorem always_iff_eachStep {I P : σ → Prop} {C : σ → α → Prop}
    (hinv : ∀ s a s', I s → P s → step s a = some s' → P s' → I s')
    (hstep : ∀ s a s', I s → P s → step s a = some s' → (P s' ↔ C s a))
    {s : σ} {as : List α} (h0 : I s) (hP : P s) :
    Always step P s as ↔ EachStep step C s as := by
  induction as generalizing s with
  | nil => exact ⟨fun _ => eachStep_nil, fun _ => always_nil.mpr hP⟩
  | cons a as ih =>
    rw [always_cons, eachStep_cons]
    have key : ∀ s', step s a = some s' →
        (Always step P s' as ↔ C s a ∧ EachStep step C s' as) := by
      intro s' hs
      rw [← hstep s a s' h0 hP hs]
      constructor
      · intro h
        have hP' : P s' := h [] s' (by simp) rfl
        exact ⟨hP', (ih (hinv s a s' h0 hP hs hP') hP').mp h⟩
      · rintro ⟨hP', h⟩
        exact (ih (hinv s a s' h0 hP hs hP') hP').mpr h
    exact ⟨fun h s' hs => (key s' hs).mp (h.2 s' hs),
      fun h => ⟨hP, fun s' hs => (key s' hs).mpr (h s' hs)⟩⟩

/-- A condition on the steps that keeps an invariant gives what the invariant implies. -/
theorem always_of_eachStep {I P : σ → Prop} {C : σ → α → Prop}
    (hstep : ∀ s a s', I s → C s a → step s a = some s' → I s') (hP : ∀ s, I s → P s)
    {s : σ} {as : List α} (h0 : I s) (h : EachStep step C s as) : Always step P s as := by
  induction as generalizing s with
  | nil => exact always_nil.mpr (hP s h0)
  | cons a as ih =>
    rw [eachStep_cons] at h
    rw [always_cons]
    exact ⟨hP s h0, fun s' hs => ih (hstep s a s' h0 (h s' hs).1 hs) (h s' hs).2⟩

/-- Conditions that agree where an invariant holds are met by the same runs. -/
theorem eachStep_congr_of_invariant {I : σ → Prop} {C D : σ → α → Prop}
    (hinv : ∀ s a s', I s → step s a = some s' → I s')
    (h : ∀ s a s', I s → step s a = some s' → (C s a ↔ D s a)) {s : σ} {as : List α} (h0 : I s) :
    EachStep step C s as ↔ EachStep step D s as :=
  ⟨fun H pre a s₁ s₂ hp hr hs =>
      (h s₁ a s₂ (run_invariant hinv h0 hr) hs).mp (H pre a s₁ s₂ hp hr hs),
    fun H pre a s₁ s₂ hp hr hs =>
      (h s₁ a s₂ (run_invariant hinv h0 hr) hs).mpr (H pre a s₁ s₂ hp hr hs)⟩

/-- Conditions that agree on the steps that can be taken are met by the same runs. -/
theorem eachStep_congr {C D : σ → α → Prop}
    (h : ∀ s a s', step s a = some s' → (C s a ↔ D s a)) {s : σ} {as : List α} :
    EachStep step C s as ↔ EachStep step D s as :=
  eachStep_congr_of_invariant (I := fun _ => True) (fun _ _ _ _ _ => trivial)
    (fun s a s' _ hs => h s a s' hs) trivial

section Simulation

variable {σ' α' : Type*} {step' : σ' → α' → Option σ'}

/-- **Forward simulation.** If every step of the first system is matched by a run of the second one
between related states, so is every run. -/
theorem run_simulates {R : σ → σ' → Prop}
    (hsim : ∀ s a s₁ t, R s t → step s a = some s₁ → ∃ bs t₁, run step' t bs = some t₁ ∧ R s₁ t₁)
    {s s₁ : σ} {t : σ'} {as : List α} (h0 : R s t) (h : run step s as = some s₁) :
    ∃ bs t₁, run step' t bs = some t₁ ∧ R s₁ t₁ := by
  induction as generalizing s t with
  | nil => cases h; exact ⟨[], t, rfl, h0⟩
  | cons a as ih =>
    obtain ⟨s', hs, hrest⟩ := Option.bind_eq_some_iff.mp h
    obtain ⟨bs, t', hb, hR⟩ := hsim s a s' t h0 hs
    obtain ⟨cs, t₁, hc, hR₁⟩ := ih hR hrest
    exact ⟨bs ++ cs, t₁, by rw [run_append, hb]; exact hc, hR₁⟩

end Simulation

end Laqista.Lib.Runs
