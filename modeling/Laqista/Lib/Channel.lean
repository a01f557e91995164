import Mathlib.Tactic.Common

/-! # Channels of bounded capacity

A channel holds what was sent and not received yet, the oldest first, and never more than its
capacity: a sender waits until there is room. When the receiver is dropped, what is in the channel
is lost, and sending fails. -/

namespace Laqista.Lib

structure Channel (α : Type*) (cap : ℕ) where
  buffer : List α
  closed : Bool
  bounded : buffer.length ≤ cap
  deriving DecidableEq

namespace Channel

variable {α : Type*} {cap : ℕ}

def new : Channel α cap := ⟨[], false, Nat.zero_le cap⟩

/-- A send, which waits where there is no room. -/
def send (c : Channel α cap) (a : α) : Option (Except Unit (Channel α cap)) :=
  if c.closed then some (.error ())
  else if h : c.buffer.length < cap then
    some (.ok ⟨c.buffer ++ [a], false, by rw [List.length_append, List.length_singleton]; exact h⟩)
  else none

/-- A receive, which waits where there is nothing. -/
def recv (c : Channel α cap) : Option (α × Channel α cap) :=
  match h : c.buffer with
  | [] => none
  | a :: rest => some (a, ⟨rest, c.closed, by
      have := c.bounded
      rw [h, List.length_cons] at this
      omega⟩)

/-- The receiver is dropped. -/
def close (_ : Channel α cap) : Channel α cap := ⟨[], true, Nat.zero_le cap⟩

@[simp] theorem buffer_new : (new : Channel α cap).buffer = [] := rfl

@[simp] theorem buffer_close (c : Channel α cap) : c.close.buffer = [] := rfl

@[simp] theorem closed_close (c : Channel α cap) : c.close.closed = true := rfl

variable {c c' : Channel α cap} {a : α}

/-- **What is sent is behind what is there.** -/
theorem send_ok (h : c.send a = some (.ok c')) :
    c.closed = false ∧ c'.closed = false ∧ c'.buffer = c.buffer ++ [a] := by
  unfold send at h
  split_ifs at h with hc hl
  · cases h
  · cases h
    exact ⟨by simpa using hc, rfl, rfl⟩

theorem send_error (h : c.send a = some (.error ())) : c.closed = true := by
  unfold send at h
  split_ifs at h with hc hl
  · exact hc
  · cases h

/-- **What is received was the oldest.** -/
theorem recv_some (h : c.recv = some (a, c')) :
    c.buffer = a :: c'.buffer ∧ c'.closed = c.closed := by
  unfold recv at h
  split at h
  · cases h
  · next b rest hb =>
    cases h
    exact ⟨hb, rfl⟩

end Channel

end Laqista.Lib
