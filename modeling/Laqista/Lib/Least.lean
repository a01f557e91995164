import Mathlib.Data.List.MinMax
import Mathlib.Order.Bounds.Basic
import Mathlib.Tactic.Common

/-! # The loop for a least element, and elections by least key

`leastBy f a l` is the loop that starts with `a` and takes every later element whose key is strictly
smaller. It is Mathlib's `List.argmin` (`argmin_eq_leastBy`), which gives its specification.
`leastBelow` is the loop that carries the key along, from a pair that need not belong together: it
finds a least element only below the key it starts with.

An election by least key needs no communication: whoever sees a candidate elects the smallest key it
sees. `eq_of_mutual` is why this can work: two parties whose views contain each other's choice make
the same choice. -/

namespace Laqista.Lib.Least

variable {α β : Type*} [LinearOrder β]

/-- The loop: keep the first of the elements with the smallest key. -/
def leastBy (f : α → β) (a : α) (l : List α) : α :=
  l.foldl (fun low x => if f x < f low then x else low) a

theorem argmin_eq_leastBy (f : α → β) (a : α) (l : List α) :
    List.argmin f (a :: l) = some (leastBy f a l) := by
  have key : ∀ (l : List α) (a : α),
      l.foldl (List.argAux fun b c => f b < f c) (some a) = some (leastBy f a l) := by
    intro l
    induction l with
    | nil => intro a; rfl
    | cons x l ih =>
      intro a
      simp only [leastBy, List.foldl_cons, List.argAux]
      split_ifs with h
      · exact ih x
      · exact ih a
  exact key l a

theorem leastBy_mem (f : α → β) (a : α) (l : List α) : leastBy f a l ∈ a :: l :=
  List.argmin_mem (argmin_eq_leastBy f a l)

theorem leastBy_le {f : α → β} {a : α} {l : List α} {x : α} (hx : x ∈ a :: l) :
    f (leastBy f a l) ≤ f x :=
  List.le_of_mem_argmin hx (argmin_eq_leastBy f a l)

/-- The loop with the key beside the element: the pair is replaced when the key gets smaller. -/
def leastBelow (f : α → β) (acc : α × β) (l : List α) : α × β :=
  l.foldl (fun low x => if f x < low.2 then (x, f x) else low) acc

/-- **What the loop with a given first key finds**: nothing if no key is below it, and otherwise an
element with a least key. -/
theorem leastBelow_cases (f : α → β) (acc : α × β) (l : List α) :
    (leastBelow f acc l = acc ∧ ∀ x ∈ l, acc.2 ≤ f x) ∨
      ∃ x ∈ l, leastBelow f acc l = (x, f x) ∧ f x < acc.2 ∧ ∀ y ∈ l, f x ≤ f y := by
  induction l generalizing acc with
  | nil => exact Or.inl ⟨rfl, by simp⟩
  | cons a l ih =>
    have hstep : leastBelow f acc (a :: l) =
        leastBelow f (if f a < acc.2 then (a, f a) else acc) l := rfl
    rw [hstep]
    by_cases h : f a < acc.2
    · rw [if_pos h]
      right
      rcases ih (a, f a) with ⟨heq, hle⟩ | ⟨x, hx, heq, hlt, hle⟩
      · refine ⟨a, by simp, heq, h, fun y hy => ?_⟩
        rcases List.mem_cons.mp hy with rfl | hy
        · exact le_rfl
        · exact hle y hy
      · refine ⟨x, by simp [hx], heq, hlt.trans h, fun y hy => ?_⟩
        rcases List.mem_cons.mp hy with rfl | hy
        · exact hlt.le
        · exact hle y hy
    · rw [if_neg h]
      rcases ih acc with ⟨heq, hle⟩ | ⟨x, hx, heq, hlt, hle⟩
      · refine Or.inl ⟨heq, fun y hy => ?_⟩
        rcases List.mem_cons.mp hy with rfl | hy
        · exact not_lt.mp h
        · exact hle y hy
      · refine Or.inr ⟨x, by simp [hx], heq, hlt, fun y hy => ?_⟩
        rcases List.mem_cons.mp hy with rfl | hy
        · exact hlt.le.trans (not_lt.mp h)
        · exact hle y hy

/-- **Views that contain each other's choice agree.** -/
theorem eq_of_mutual {A B : Set β} {a b : β} (ha : IsLeast A a) (hb : IsLeast B b) (hab : a ∈ B)
    (hba : b ∈ A) : a = b :=
  le_antisymm (ha.2 hba) (hb.2 hab)

end Laqista.Lib.Least
