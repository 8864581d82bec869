import Mathlib.Tactic

/-!
# The bounded FIFO queue

What the queue is for, without positions, slots or threads: a list of at most
`bound` items, pushed at the end while the queue is open and popped at the
front.
-/

namespace BcConcurrency.Queue

/-- A FIFO queue that never holds more than `bound` items. -/
@[ext] structure Fifo (α : Type*) (bound : ℕ) where
  items : List α
  closed : Bool
  length_le : items.length ≤ bound

namespace Fifo

variable {α : Type*} {bound : ℕ}

/-- The empty open queue. -/
@[simps] def empty : Fifo α bound := ⟨[], false, Nat.zero_le _⟩

/-- Append an item exactly when the queue is open and not full. -/
def push (f : Fifo α bound) (item : α) : Bool × Fifo α bound :=
  if h : f.closed = false ∧ f.items.length < bound then
    (true, ⟨f.items ++ [item], f.closed, by simpa using h.2⟩)
  else (false, f)

/-- Take the oldest item, if there is one. -/
def pop (f : Fifo α bound) : Option α × Fifo α bound :=
  match hf : f.items with
  | [] => (none, f)
  | item :: rest => (some item, ⟨rest, f.closed, by have := f.length_le; simp [hf] at this; omega⟩)

/-- Refuse further pushes. -/
@[simps] def close (f : Fifo α bound) : Fifo α bound := { f with closed := true }

lemma push_of_room (f : Fifo α bound) (item : α) (hclosed : f.closed = false)
    (hroom : f.items.length < bound) :
    (f.push item).1 = true ∧ (f.push item).2.items = f.items ++ [item] ∧
      (f.push item).2.closed = f.closed := by
  simp [push, hclosed, hroom]

lemma push_of_not_room (f : Fifo α bound) (item : α)
    (h : f.closed = true ∨ bound ≤ f.items.length) : f.push item = (false, f) := by
  rw [push, dif_neg]
  rintro ⟨h₁, h₂⟩
  rcases h with h | h
  · simp [h₁] at h
  · omega

lemma pop_of_nil (f : Fifo α bound) (h : f.items = []) : f.pop = (none, f) := by
  rw [pop]
  split
  · rfl
  · simp_all

lemma pop_of_cons (f : Fifo α bound) {item : α} {rest : List α} (h : f.items = item :: rest) :
    f.pop.1 = some item ∧ f.pop.2.items = rest ∧ f.pop.2.closed = f.closed := by
  rw [pop]
  split <;> simp_all

end Fifo

end BcConcurrency.Queue
