import Laqista.Lib.Runs
import Mathlib.Data.List.Nodup

/-! # Tasks around one mutex

A *task system* describes concurrent tasks that share a state behind one mutex. A task is a state of
its own program: at a request for the mutex (`enters`), where it runs one critical section on the
shared state (`body`), or between two sections, where it waits for something outside (`await`). A
section has no waiting point inside; when it ends it normally gives the mutex back, but it may also
*keep* the guard and go on with it.

There are two semantics.

* `astep`: sections are atomic and the mutex is left out.
* `lstep`: the mutex is there, with an owner and a queue in the order of the requests. It is not
  reentrant: it is granted only when nobody owns it.

`locked_reaches_atomic`: forgetting the mutex is a simulation, so what holds in every atomic run
holds with the mutex. `noSelfWait_iff`: no task ever waits for the mutex while it owns it, in
exactly the runs in which no section keeps the guard. `selfWait_forever`: once one does, no section
ever runs again unless that task is cancelled. `granted_of_returns`: as long as none does, whoever
waits is served by the steps of the mutex alone. -/

namespace Laqista.Lib.Tasks

open Laqista.Lib.Runs

/-- What a critical section leaves behind. -/
structure Outcome (σ θ : Type) where
  shared : σ
  next : θ
  spawned : List θ
  keeps : Bool

/-- A task system: `σ` is the shared state, `θ` a task's state, `ρ` the requests that start tasks
and `ω` what a step is told from outside (an answer, an order of iteration). -/
structure TaskSystem (σ θ ρ ω : Type) where
  /-- The task that serves a request, if it can arrive now. -/
  start : σ → List θ → ρ → Option θ
  /-- The task is at a request for the mutex. -/
  enters : θ → Bool
  body : σ → θ → ω → Option (Outcome σ θ)
  await : θ → ω → Option θ
  /-- A task that has ended. -/
  halt : θ

variable {σ θ ρ ω : Type} (T : TaskSystem σ θ ρ ω)

/-! ### Atomic sections -/

/-- The shared state and the tasks. -/
structure Atomic (σ θ : Type) where
  shared : σ
  tasks : List θ

/-- The actions of the atomic semantics. -/
inductive Act (ρ ω : Type) where
  | start (r : ρ)
  | enter (i : ℕ) (w : ω)
  | await (i : ℕ) (w : ω)
  | cancel (i : ℕ)

namespace TaskSystem

/-- One step with atomic sections. -/
def astep (s : Atomic σ θ) : Act ρ ω → Option (Atomic σ θ)
  | .start r => (T.start s.shared s.tasks r).map fun t => ⟨s.shared, s.tasks ++ [t]⟩
  | .enter i w =>
    match s.tasks[i]? with
    | some t =>
      if T.enters t then
        (T.body s.shared t w).map fun o => ⟨o.shared, s.tasks.set i o.next ++ o.spawned⟩
      else none
    | none => none
  | .await i w =>
    match s.tasks[i]? with
    | some t =>
      if T.enters t then none
      else (T.await t w).map fun t' => ⟨s.shared, s.tasks.set i t'⟩
    | none => none
  | .cancel i => some ⟨s.shared, s.tasks.set i T.halt⟩

variable {T}

/-- **What one atomic step can do.** -/
theorem astep_cases {s s' : Atomic σ θ} {a : Act ρ ω} (h : T.astep s a = some s') :
    (∃ r t, a = .start r ∧ T.start s.shared s.tasks r = some t ∧
      s' = ⟨s.shared, s.tasks ++ [t]⟩) ∨
    (∃ i w t o, a = .enter i w ∧ s.tasks[i]? = some t ∧ T.enters t = true ∧
      T.body s.shared t w = some o ∧ s' = ⟨o.shared, s.tasks.set i o.next ++ o.spawned⟩) ∨
    (∃ i w t t', a = .await i w ∧ s.tasks[i]? = some t ∧ T.enters t = false ∧
      T.await t w = some t' ∧ s' = ⟨s.shared, s.tasks.set i t'⟩) ∨
    (∃ i, a = .cancel i ∧ s' = ⟨s.shared, s.tasks.set i T.halt⟩) := by
  cases a with
  | start r =>
    obtain ⟨t, ht, rfl⟩ := Option.map_eq_some_iff.mp h
    exact Or.inl ⟨r, t, rfl, ht, rfl⟩
  | enter i w =>
    simp only [astep] at h
    split at h
    · next t ht =>
      split_ifs at h with he
      obtain ⟨o, ho, rfl⟩ := Option.map_eq_some_iff.mp h
      exact Or.inr (Or.inl ⟨i, w, t, o, rfl, ht, he, ho, rfl⟩)
    · simp at h
  | await i w =>
    simp only [astep] at h
    split at h
    · next t ht =>
      split_ifs at h with he
      obtain ⟨t', ht', rfl⟩ := Option.map_eq_some_iff.mp h
      exact Or.inr (Or.inr (Or.inl ⟨i, w, t, t', rfl, ht, by simpa using he, ht', rfl⟩))
    · simp at h
  | cancel i =>
    obtain rfl := Option.some.inj h
    exact Or.inr (Or.inr (Or.inr ⟨i, rfl, rfl⟩))

/-- **Where a task comes from**: it was there, or it is new, or a step has led to it. -/
theorem task_of_astep {s s' : Atomic σ θ} {a : Act ρ ω} {k : ℕ} {t : θ}
    (h : T.astep s a = some s') (hk : s'.tasks[k]? = some t) :
    s.tasks[k]? = some t ∨
    (∃ r, a = .start r ∧ k = s.tasks.length ∧ T.start s.shared s.tasks r = some t) ∨
    (∃ i w t₀ o, a = .enter i w ∧ s.tasks[i]? = some t₀ ∧ T.body s.shared t₀ w = some o ∧
      (t = o.next ∨ t ∈ o.spawned)) ∨
    (∃ i w t₀, a = .await i w ∧ s.tasks[i]? = some t₀ ∧ T.await t₀ w = some t) ∨
    t = T.halt := by
  have hset : ∀ {i : ℕ} {t₁ : θ}, (s.tasks.set i t₁)[k]? = some t →
      s.tasks[k]? = some t ∨ t = t₁ := by
    intro i t₁ hget
    rw [List.getElem?_set] at hget
    split_ifs at hget with hi hlt
    · exact Or.inr (Option.some.inj hget).symm
    · exact Or.inl hget
  rcases astep_cases h with ⟨r, t₁, rfl, hr, rfl⟩ | ⟨i, w, t₁, o, rfl, ht, -, ho, rfl⟩ |
    ⟨i, w, t₁, t', rfl, ht, -, ht', rfl⟩ | ⟨i, rfl, rfl⟩
  · rcases Nat.lt_trichotomy k s.tasks.length with hlt | rfl | hgt
    · rw [List.getElem?_append_left hlt] at hk
      exact Or.inl hk
    · rw [List.getElem?_concat_length] at hk
      obtain rfl := Option.some.inj hk
      exact Or.inr (Or.inl ⟨r, rfl, rfl, hr⟩)
    · rw [List.getElem?_eq_none (by rw [List.length_append, List.length_singleton]; omega)] at hk
      cases hk
  · rcases Nat.lt_or_ge k (s.tasks.set i o.next).length with hlt | hge
    · rw [List.getElem?_append_left hlt] at hk
      exact (hset hk).imp id fun he => Or.inr (Or.inl ⟨i, w, t₁, o, rfl, ht, ho, Or.inl he⟩)
    · rw [List.getElem?_append_right hge] at hk
      exact Or.inr (Or.inr (Or.inl ⟨i, w, t₁, o, rfl, ht, ho, Or.inr (List.mem_of_getElem? hk)⟩))
  · refine (hset hk).imp id fun he => Or.inr (Or.inr (Or.inl ⟨i, w, t₁, rfl, ht, ?_⟩))
    rw [he]
    exact ht'
  · exact (hset hk).imp id fun he => Or.inr (Or.inr (Or.inr he))

/-- If the step is a section, its task meets the condition. -/
def AtSection (K : σ → θ → Prop) (s : Atomic σ θ) : Act ρ ω → Prop
  | .enter i _ => ∀ t, s.tasks[i]? = some t → K s.shared t
  | _ => True

/-- **Only sections change the shared state**: if a section keeps a property exactly under a
condition on its task, so does a step, under the condition on the task whose section it is. -/
theorem astep_keeps_iff {P : σ → Prop} {K : σ → θ → Prop}
    (hbody : ∀ sh t w o, P sh → T.body sh t w = some o → (P o.shared ↔ K sh t))
    {s s' : Atomic σ θ} {a : Act ρ ω} (h : P s.shared) (hs : T.astep s a = some s') :
    P s'.shared ↔ AtSection K s a := by
  rcases astep_cases hs with ⟨r, t, rfl, -, rfl⟩ | ⟨i, w, t, o, rfl, ht, -, ho, rfl⟩ |
    ⟨i, w, t, t', rfl, -, -, -, rfl⟩ | ⟨i, rfl, rfl⟩
  · exact iff_of_true h trivial
  · rw [hbody _ t w o h ho]
    constructor
    · intro hk u hu
      obtain rfl := Option.some.inj (ht.symm.trans hu)
      exact hk
    · intro hk
      exact hk t ht
  · exact iff_of_true h trivial
  · exact iff_of_true h trivial

end TaskSystem

/-! ### The mutex -/

/-- The shared state and the tasks, with the mutex: who owns it, whether the owner is inside the
section it asked for, and who waits for it. -/
structure Locked (σ θ : Type) extends Atomic σ θ where
  owner : Option ℕ
  inside : Bool
  queue : List ℕ

/-- The actions of the semantics with the mutex. -/
inductive LAct (ρ ω : Type) where
  | start (r : ρ)
  | request (i : ℕ)
  | grant
  | body (w : ω)
  | await (i : ℕ) (w : ω)
  | cancel (i : ℕ)

/-- The mutex is free and nobody has asked for it. -/
def unlocked (sh : σ) : Locked σ θ := ⟨⟨sh, []⟩, none, false, []⟩

namespace TaskSystem

/-- One step with the mutex. A section ends with the release of the mutex unless it keeps the
guard; a task that is cancelled drops its guard and its place in the queue. -/
def lstep (s : Locked σ θ) : LAct ρ ω → Option (Locked σ θ)
  | .start r =>
    (T.start s.shared s.tasks r).map fun t => { s with tasks := s.tasks ++ [t] }
  | .request i =>
    match s.tasks[i]? with
    | some t =>
      if T.enters t ∧ i ∉ s.queue ∧ ¬ (s.owner = some i ∧ s.inside) then
        some { s with queue := s.queue ++ [i] }
      else none
    | none => none
  | .grant =>
    match s.owner, s.queue with
    | none, i :: q => some { s with owner := some i, inside := true, queue := q }
    | _, _ => none
  | .body w =>
    match s.owner, s.inside with
    | some i, true =>
      match s.tasks[i]? with
      | some t =>
        (T.body s.shared t w).map fun o =>
          ⟨⟨o.shared, s.tasks.set i o.next ++ o.spawned⟩, if o.keeps then some i else none, false,
            s.queue⟩
      | none => none
    | _, _ => none
  | .await i w =>
    match s.tasks[i]? with
    | some t =>
      if T.enters t then none
      else (T.await t w).map fun t' => { s with tasks := s.tasks.set i t' }
    | none => none
  | .cancel i =>
    if s.owner = some i ∧ s.inside then none
    else some ⟨⟨s.shared, s.tasks.set i T.halt⟩, if s.owner = some i then none else s.owner,
      s.inside, s.queue.filter (· ≠ i)⟩

/-- **A task owns the mutex and is at a request for it.** -/
def SelfWait (s : Locked σ θ) : Prop :=
  ∃ i t, s.owner = some i ∧ s.inside = false ∧ s.tasks[i]? = some t ∧ T.enters t = true

/-- The section that the owner runs next gives the mutex back when it ends. -/
def Returns (s : Locked σ θ) : LAct ρ ω → Prop
  | .body w => ∀ i t o, s.owner = some i → s.tasks[i]? = some t →
      T.body s.shared t w = some o → o.keeps = false
  | _ => True

variable {T}

/-- **What one step with the mutex can do.** -/
theorem lstep_cases {s s' : Locked σ θ} {a : LAct ρ ω} (h : T.lstep s a = some s') :
    (∃ r t, a = .start r ∧ T.start s.shared s.tasks r = some t ∧
      s' = { s with tasks := s.tasks ++ [t] }) ∨
    (∃ i t, a = .request i ∧ s.tasks[i]? = some t ∧ T.enters t = true ∧
      s' = { s with queue := s.queue ++ [i] }) ∨
    (∃ i q, a = .grant ∧ s.owner = none ∧ s.queue = i :: q ∧
      s' = { s with owner := some i, inside := true, queue := q }) ∨
    (∃ i w t o, a = .body w ∧ s.owner = some i ∧ s.inside = true ∧ s.tasks[i]? = some t ∧
      T.body s.shared t w = some o ∧
      s' = ⟨⟨o.shared, s.tasks.set i o.next ++ o.spawned⟩, if o.keeps then some i else none, false,
        s.queue⟩) ∨
    (∃ i w t t', a = .await i w ∧ s.tasks[i]? = some t ∧ T.enters t = false ∧
      T.await t w = some t' ∧ s' = { s with tasks := s.tasks.set i t' }) ∨
    (∃ i, a = .cancel i ∧ ¬ (s.owner = some i ∧ s.inside = true) ∧
      s' = ⟨⟨s.shared, s.tasks.set i T.halt⟩, if s.owner = some i then none else s.owner,
        s.inside, s.queue.filter (· ≠ i)⟩) := by
  cases a with
  | start r =>
    obtain ⟨t, ht, rfl⟩ := Option.map_eq_some_iff.mp h
    exact Or.inl ⟨r, t, rfl, ht, rfl⟩
  | request i =>
    simp only [lstep] at h
    split at h
    · next t ht =>
      split_ifs at h with hc
      obtain rfl := Option.some.inj h
      exact Or.inr (Or.inl ⟨i, t, rfl, ht, hc.1, rfl⟩)
    · simp at h
  | grant =>
    simp only [lstep] at h
    split at h
    · next i q ho hq => cases h; exact Or.inr (Or.inr (Or.inl ⟨i, q, rfl, ho, hq, rfl⟩))
    · simp at h
  | body w =>
    simp only [lstep] at h
    split at h
    · next i ho hin =>
      split at h
      · next t ht =>
        obtain ⟨o, hb, rfl⟩ := Option.map_eq_some_iff.mp h
        exact Or.inr (Or.inr (Or.inr (Or.inl ⟨i, w, t, o, rfl, ho, hin, ht, hb, rfl⟩)))
      · simp at h
    · simp at h
  | await i w =>
    simp only [lstep] at h
    split at h
    · next t ht =>
      split_ifs at h with he
      obtain ⟨t', ht', rfl⟩ := Option.map_eq_some_iff.mp h
      exact Or.inr (Or.inr (Or.inr (Or.inr (Or.inl
        ⟨i, w, t, t', rfl, ht, by simpa using he, ht', rfl⟩))))
    · simp at h
  | cancel i =>
    simp only [lstep] at h
    split_ifs at h with hc
    all_goals
      obtain rfl := Option.some.inj h
      refine Or.inr (Or.inr (Or.inr (Or.inr (Or.inr ⟨i, rfl, hc, ?_⟩))))
      simp [*]

end TaskSystem

/-! ### Forgetting the mutex -/

/-- Whoever is in the queue is at a request, and so is the owner before its section has run. -/
structure Orderly (s : Locked σ θ) : Prop where
  queue : ∀ i ∈ s.queue, ∃ t, s.tasks[i]? = some t ∧ T.enters t = true
  inside : ∀ i, s.owner = some i → s.inside = true →
    i ∉ s.queue ∧ ∃ t, s.tasks[i]? = some t ∧ T.enters t = true
  nodup : s.queue.Nodup

theorem orderly_unlocked (sh : σ) : Orderly T (unlocked sh) where
  queue := by intro i hi; simp [unlocked] at hi
  inside := by intro i hi; simp [unlocked] at hi
  nodup := by simp [unlocked]

variable {T}

theorem getElem?_append_of_some {l l' : List θ} {i : ℕ} {t : θ} (h : l[i]? = some t) :
    (l ++ l')[i]? = some t := by
  obtain ⟨hi, -⟩ := List.getElem?_eq_some_iff.mp h
  rw [List.getElem?_append_left hi, h]

/-- Overwriting one task leaves the others at their request. -/
theorem at_request_set {l : List θ} {i j : ℕ} {t : θ} (hij : j ≠ i)
    (h : ∃ u, l[j]? = some u ∧ T.enters u = true) :
    ∃ u, (l.set i t)[j]? = some u ∧ T.enters u = true := by
  obtain ⟨u, hu, he⟩ := h
  exact ⟨u, by rw [List.getElem?_set_ne (Ne.symm hij), hu], he⟩

theorem at_request_append {l l' : List θ} {j : ℕ}
    (h : ∃ u, l[j]? = some u ∧ T.enters u = true) :
    ∃ u, (l ++ l')[j]? = some u ∧ T.enters u = true := by
  obtain ⟨u, hu, he⟩ := h
  exact ⟨u, getElem?_append_of_some hu, he⟩

theorem orderly_step {s s' : Locked σ θ} {a : LAct ρ ω} (hs : Orderly T s)
    (h : T.lstep s a = some s') : Orderly T s' := by
  obtain ⟨hq, hi, hn⟩ := hs
  rcases TaskSystem.lstep_cases h with ⟨r, t, rfl, -, rfl⟩ | ⟨i, t, rfl, ht, he, rfl⟩ |
    ⟨i, q, rfl, ho, hqi, rfl⟩ | ⟨i, w, t, o, rfl, ho, hin, ht, hb, rfl⟩ |
    ⟨i, w, t, t', rfl, ht, he, hw, rfl⟩ | ⟨i, rfl, hc, rfl⟩
  · -- a new task is behind all others
    exact ⟨fun j hj => at_request_append (hq j hj),
      fun j hj hin => ⟨(hi j hj hin).1, at_request_append (hi j hj hin).2⟩, hn⟩
  · -- a request: the task was not in the queue
    have hc : i ∉ s.queue ∧ ¬ (s.owner = some i ∧ s.inside = true) := by
      simp only [TaskSystem.lstep, ht] at h
      split_ifs at h with hc
      exact hc.2
    refine ⟨fun j hj => ?_, fun j hj hin => ⟨?_, (hi j hj hin).2⟩, ?_⟩
    · rcases List.mem_append.mp hj with hj | hj
      · exact hq j hj
      · rw [List.mem_singleton.mp hj]; exact ⟨t, ht, he⟩
    · intro hmem
      rcases List.mem_append.mp hmem with hmem | hmem
      · exact (hi j hj hin).1 hmem
      · rw [List.mem_singleton.mp hmem] at hj
        exact hc.2 ⟨hj, hin⟩
    · rw [← List.concat_eq_append]
      exact List.Nodup.concat hc.1 hn
  · -- the grant takes the head of the queue
    have hn' : (i :: q).Nodup := hqi ▸ hn
    refine ⟨fun j hj => hq j (by rw [hqi]; simp [hj]), fun j hj _ => ?_, (List.nodup_cons.mp hn').2⟩
    obtain rfl := Option.some.inj hj
    exact ⟨(List.nodup_cons.mp hn').1, hq i (by rw [hqi]; simp)⟩
  · -- the owner leaves its section and is not in the queue
    refine ⟨fun j hj => at_request_append (at_request_set ?_ (hq j hj)),
      fun j _ hin' => by simp at hin', hn⟩
    rintro rfl
    exact (hi j ho hin).1 hj
  · -- a task that waits outside is in neither place
    have hne : ∀ j, (∃ u, s.tasks[j]? = some u ∧ T.enters u = true) → j ≠ i := by
      rintro j ⟨u, hu, hue⟩ rfl
      rw [ht] at hu
      obtain rfl := Option.some.inj hu
      rw [he] at hue
      simp at hue
    exact ⟨fun j hj => at_request_set (hne j (hq j hj)) (hq j hj), fun j hj hin =>
      ⟨(hi j hj hin).1, at_request_set (hne j (hi j hj hin).2) (hi j hj hin).2⟩, hn⟩
  · -- a cancelled task leaves the queue, and is not inside a section
    refine ⟨fun j hj => ?_, fun j hj hin => ?_, hn.filter _⟩
    · obtain ⟨hj, hne⟩ := List.mem_filter.mp hj
      exact at_request_set (by simpa using hne) (hq j hj)
    · have hne : s.owner ≠ some i := by
        intro he
        simp only [he, if_true] at hj
        simp at hj
      rw [if_neg hne] at hj
      have hji : j ≠ i := by rintro rfl; exact hne hj
      exact ⟨fun hmem => (hi j hj hin).1 (List.mem_filter.mp hmem).1,
        at_request_set hji (hi j hj hin).2⟩

/-- **Forgetting the mutex is a simulation**: a section with the mutex is the atomic section, and a
request or a grant is no step at all. -/
theorem locked_reaches_atomic {s s' : Locked σ θ} {as : List (LAct ρ ω)} (hs : Orderly T s)
    (h : run T.lstep s as = some s') :
    ∃ bs, run T.astep s.toAtomic bs = some s'.toAtomic := by
  have hsim : ∀ (l : Locked σ θ) (a : LAct ρ ω) (l₁ : Locked σ θ) (t : Atomic σ θ),
      (Orderly T l ∧ t = l.toAtomic) → T.lstep l a = some l₁ →
        ∃ bs t₁, run T.astep t bs = some t₁ ∧ Orderly T l₁ ∧ t₁ = l₁.toAtomic := by
    rintro l a l₁ _ ⟨hl, rfl⟩ hstep
    have key : ∃ bs, run T.astep l.toAtomic bs = some l₁.toAtomic := by
      rcases TaskSystem.lstep_cases hstep with ⟨r, t, rfl, ht, rfl⟩ | ⟨i, t, rfl, ht, he, rfl⟩ |
        ⟨i, q, rfl, ho, hqi, rfl⟩ | ⟨i, w, t, o, rfl, ho, hin, ht, hb, rfl⟩ |
        ⟨i, w, t, t', rfl, ht, he, hw, rfl⟩ | ⟨i, rfl, hc, rfl⟩
      · exact ⟨[.start r], by simp [TaskSystem.astep, ht]⟩
      · exact ⟨[], rfl⟩
      · exact ⟨[], rfl⟩
      · obtain ⟨u, hu, he⟩ := (hl.inside i ho hin).2
        have htu : t = u := by rw [ht] at hu; exact Option.some.inj hu
        subst htu
        exact ⟨[.enter i w], by simp [TaskSystem.astep, ht, he, hb]⟩
      · exact ⟨[.await i w], by simp [TaskSystem.astep, ht, he, hw]⟩
      · exact ⟨[.cancel i], by simp [TaskSystem.astep]⟩
    obtain ⟨bs, hb⟩ := key
    exact ⟨bs, l₁.toAtomic, hb, orderly_step hl hstep, rfl⟩
  obtain ⟨bs, t, hb, -, rfl⟩ :=
    run_simulates (R := fun l a => Orderly T l ∧ a = l.toAtomic) hsim ⟨hs, rfl⟩ h
  exact ⟨bs, hb⟩

/-! ### Waiting for oneself -/

/-- The owner of the mutex is inside a section. -/
def OwnerInside (s : Locked σ θ) : Prop := ∀ i, s.owner = some i → s.inside = true

theorem OwnerInside.not_selfWait {s : Locked σ θ} (h : OwnerInside s) : ¬ T.SelfWait s := by
  rintro ⟨i, t, ho, hin, -⟩
  rw [h i ho] at hin
  simp at hin

/-- A step that returns the guard, if it is a section, leaves the mutex free or its owner inside. -/
theorem ownerInside_step {s s' : Locked σ θ} {a : LAct ρ ω} (hs : OwnerInside s)
    (h : T.lstep s a = some s') (hr : T.Returns s a) : OwnerInside s' := by
  rcases TaskSystem.lstep_cases h with ⟨r, t, rfl, ht, rfl⟩ | ⟨i, t, rfl, ht, he, rfl⟩ |
    ⟨i, q, rfl, ho, hqi, rfl⟩ | ⟨i, w, t, o, rfl, ho, hin, ht, hb, rfl⟩ |
    ⟨i, w, t, t', rfl, ht, he, hw, rfl⟩ | ⟨i, rfl, hc, rfl⟩
  · exact hs
  · exact hs
  · intro j _; rfl
  · intro j hj
    rw [hr i t o ho ht hb] at hj
    simp at hj
  · exact hs
  · intro j hj
    dsimp only at hj
    split_ifs at hj
    exact hs j hj

/-- A section that keeps the guard leaves its task waiting for itself. -/
theorem selfWait_of_keeps (hkeep : ∀ sh t w o, T.body sh t w = some o → o.keeps = true →
      T.enters o.next = true) {s s' : Locked σ θ} {a : LAct ρ ω} (h : T.lstep s a = some s')
    (hr : ¬ T.Returns s a) : T.SelfWait s' := by
  rcases TaskSystem.lstep_cases h with ⟨r, t, rfl, ht, rfl⟩ | ⟨i, t, rfl, ht, he, rfl⟩ |
    ⟨i, q, rfl, ho, hqi, rfl⟩ | ⟨i, w, t, o, rfl, ho, hin, ht, hb, rfl⟩ |
    ⟨i, w, t, t', rfl, ht, he, hw, rfl⟩ | ⟨i, rfl, hc, rfl⟩
  all_goals first | exact absurd trivial hr | skip
  have hk : o.keeps = true := by
    by_contra hk
    refine hr fun j u o' hj hu ho' => ?_
    rw [ho] at hj
    obtain rfl := Option.some.inj hj
    rw [ht] at hu
    obtain rfl := Option.some.inj hu
    rw [hb] at ho'
    obtain rfl := Option.some.inj ho'
    simpa using hk
  obtain ⟨hi, -⟩ := List.getElem?_eq_some_iff.mp ht
  refine ⟨i, o.next, by rw [if_pos hk], rfl, getElem?_append_of_some ?_, hkeep _ _ _ _ hb hk⟩
  rw [List.getElem?_set_self hi]

/-- **No task waits for the mutex while it owns it, exactly when no section keeps the guard**, in a
system where a task that keeps the guard is at a request next. -/
theorem noSelfWait_iff (hkeep : ∀ sh t w o, T.body sh t w = some o → o.keeps = true →
      T.enters o.next = true) {sh : σ} {as : List (LAct ρ ω)} :
    Always T.lstep (fun s => ¬ T.SelfWait s) (unlocked sh) as ↔
      EachStep T.lstep T.Returns (unlocked sh) as := by
  have hstep : ∀ s a s', OwnerInside s → ¬ T.SelfWait s → T.lstep s a = some s' →
      (¬ T.SelfWait s' ↔ T.Returns s a) := by
    intro s a s' hI _ h
    constructor
    · intro hP
      by_contra hr
      exact hP (selfWait_of_keeps hkeep h hr)
    · intro hr
      exact (ownerInside_step hI h hr).not_selfWait
  have h0 : OwnerInside (unlocked sh : Locked σ θ) := by
    intro i hi
    cases hi
  exact always_iff_eachStep
    (fun s a s' hI hP h hP' => ownerInside_step hI h ((hstep s a s' hI hP h).mp hP')) hstep h0
    h0.not_selfWait

/-- **A task that waits for itself stops everyone.** Until it is cancelled it stays where it is, and
the shared state does not change. -/
theorem selfWait_forever {s s' : Locked σ θ} {i : ℕ} {t : θ} {as : List (LAct ρ ω)}
    (ho : s.owner = some i) (hin : s.inside = false) (ht : s.tasks[i]? = some t)
    (he : T.enters t = true) (hc : ∀ a ∈ as, a ≠ .cancel i) (h : run T.lstep s as = some s') :
    s'.owner = some i ∧ s'.inside = false ∧ s'.tasks[i]? = some t ∧ s'.shared = s.shared := by
  refine run_invariant_of (K := fun a => a ≠ .cancel i)
    (I := fun u : Locked σ θ => u.owner = some i ∧ u.inside = false ∧ u.tasks[i]? = some t ∧
      u.shared = s.shared) ?_ ⟨ho, hin, ht, rfl⟩ hc h
  rintro u a u' ha ⟨ho, hin, ht, hsh⟩ hstep
  rcases TaskSystem.lstep_cases hstep with ⟨r, v, rfl, hv, rfl⟩ | ⟨j, v, rfl, hv, -, rfl⟩ |
    ⟨j, q, rfl, hn, hqi, rfl⟩ | ⟨j, w, v, o, rfl, -, hin', hv, hb, rfl⟩ |
    ⟨j, w, v, v', rfl, hv, hve, hw, rfl⟩ | ⟨j, rfl, hj, rfl⟩
  · exact ⟨ho, hin, getElem?_append_of_some ht, hsh⟩
  · exact ⟨ho, hin, ht, hsh⟩
  · rw [ho] at hn; cases hn
  · rw [hin] at hin'; cases hin'
  · have hne : j ≠ i := by
      rintro rfl
      rw [ht] at hv
      obtain rfl := Option.some.inj hv
      rw [he] at hve
      simp at hve
    exact ⟨ho, hin, by rw [← ht]; exact List.getElem?_set_ne hne, hsh⟩
  · have hne : j ≠ i := by rintro rfl; exact ha rfl
    refine ⟨?_, hin, by rw [← ht]; exact List.getElem?_set_ne hne, hsh⟩
    dsimp only
    rw [if_neg (by rw [ho]; simpa using Ne.symm hne), ho]

/-! ### Being served -/

/-- A step of the mutex: it is granted, or its owner runs its section. -/
def LAct.OfMutex : LAct ρ ω → Prop
  | .grant | .body _ => True
  | _ => False

/-- The owner of the mutex runs its section, and leaves the queue as it is. -/
theorem exists_body (hbody : ∀ sh t, T.enters t = true → ∃ w o, T.body sh t w = some o)
    {s : Locked σ θ} {i : ℕ} (hs : Orderly T s) (ho : s.owner = some i) (hin : s.inside = true) :
    ∃ w s', T.lstep s (.body w) = some s' ∧ s'.queue = s.queue ∧
      (T.Returns s (.body w) → s'.owner = none) := by
  obtain ⟨-, t, ht, he⟩ := hs.inside i ho hin
  obtain ⟨w, o, hb⟩ := hbody s.shared t he
  refine ⟨w, ⟨⟨o.shared, s.tasks.set i o.next ++ o.spawned⟩, if o.keeps then some i else none,
    false, s.queue⟩, ?_, rfl, fun hr => ?_⟩
  · simp only [TaskSystem.lstep, ho, hin, ht, hb, Option.map_some]
  · have hk : o.keeps = false := hr i t o ho ht hb
    simp [hk]

section Served

variable {I : Locked σ θ → Prop}
  (hbody : ∀ sh t, T.enters t = true → ∃ w o, T.body sh t w = some o)
  (hI : ∀ s a s', I s → a.OfMutex → T.lstep s a = some s' → I s' ∧ T.Returns s a)

include hbody hI

/-- A free mutex goes through the queue, two steps for each task. -/
theorem granted_of_free {s : Locked σ θ} {i : ℕ} (h : I s) (hs : Orderly T s)
    (ho : s.owner = none) (hi : i ∈ s.queue) :
    ∃ bs s', (∀ b ∈ bs, b.OfMutex) ∧ bs.length + 1 ≤ 2 * s.queue.length ∧
      run T.lstep s bs = some s' ∧ s'.owner = some i ∧ s'.inside = true := by
  obtain ⟨q, hq⟩ : ∃ q, s.queue = q := ⟨_, rfl⟩
  induction q generalizing s with
  | nil =>
    rw [hq] at hi
    exact absurd hi (by simp)
  | cons j q ih =>
    have hgrant : T.lstep s .grant =
        some { s with owner := some j, inside := true, queue := q } := by
      simp only [TaskSystem.lstep, ho, hq]
    have hs₁ := orderly_step hs hgrant
    have hI₁ := (hI s .grant _ h trivial hgrant).1
    by_cases hij : i = j
    · refine ⟨[.grant], { s with owner := some j, inside := true, queue := q }, fun b hb => ?_, ?_,
        ?_, ?_, rfl⟩
      · rw [List.mem_singleton.mp hb]
        trivial
      · rw [hq, List.length_singleton, List.length_cons]
        omega
      · rw [run_cons, hgrant]
        rfl
      · rw [hij]
    · -- the first of the queue runs its section, and the rest is waited for
      obtain ⟨w, s₂, hw, hq₂, howner⟩ := exists_body hbody hs₁ rfl rfl
      obtain ⟨hI₂, hr⟩ := hI _ (.body w) _ hI₁ trivial hw
      have hi₂ : i ∈ s₂.queue := by
        rw [hq₂]
        rw [hq] at hi
        exact (List.mem_cons.mp hi).resolve_left hij
      obtain ⟨bs, s', hbs, hlen, hrun, howner', hin'⟩ :=
        ih hI₂ (orderly_step hs₁ hw) (howner hr) hi₂ hq₂
      refine ⟨.grant :: .body w :: bs, s', ?_, ?_, ?_, howner', hin'⟩
      · rintro b (_ | ⟨_, _ | ⟨_, hb⟩⟩)
        · trivial
        · trivial
        · exact hbs b hb
      · rw [hq₂] at hlen
        rw [hq, List.length_cons, List.length_cons, List.length_cons]
        dsimp only at hlen
        omega
      · rw [run_cons, hgrant, Option.bind_some, run_cons, hw, Option.bind_some]
        exact hrun

/-- **Whoever waits for the mutex is served** by steps of the mutex alone, at most two for each task
in the queue: in a system in which tasks at a request have a section to run, from a state in whose
kind sections give the mutex back. -/
theorem granted_of_returns {s : Locked σ θ} {i : ℕ} (h : I s) (hs : Orderly T s)
    (hin : OwnerInside s) (hi : i ∈ s.queue) :
    ∃ bs s', (∀ b ∈ bs, b.OfMutex) ∧ bs.length ≤ 2 * s.queue.length ∧
      run T.lstep s bs = some s' ∧ s'.owner = some i ∧ s'.inside = true := by
  rcases ho : s.owner with _ | j
  · obtain ⟨bs, s', hbs, hlen, hrun⟩ := granted_of_free hbody hI h hs ho hi
    exact ⟨bs, s', hbs, by omega, hrun⟩
  · -- the owner runs its section first
    obtain ⟨w, s₁, hw, hq₁, howner⟩ := exists_body hbody hs ho (hin j ho)
    obtain ⟨hI₁, hr⟩ := hI s (.body w) _ h trivial hw
    rw [← hq₁] at hi
    obtain ⟨bs, s', hbs, hlen, hrun, hserved⟩ :=
      granted_of_free hbody hI hI₁ (orderly_step hs hw) (howner hr) hi
    refine ⟨.body w :: bs, s', ?_, ?_, ?_, hserved⟩
    · rintro b (_ | ⟨_, hb⟩)
      · trivial
      · exact hbs b hb
    · rw [hq₁] at hlen
      rw [List.length_cons]
      omega
    · rw [run_cons, hw, Option.bind_some]
      exact hrun

end Served

end Laqista.Lib.Tasks
