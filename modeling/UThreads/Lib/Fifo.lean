import UThreads.Lib.Machine

/-!
# The plain FIFO list

The specification of a queue: whole chains go in at the end, single elements come out at the
front, and a consumer may be told that the queue is empty, but only when it is.
-/

namespace Fifo

variable {α : Type*}

inductive Op (α : Type*)
  | enqueue (c : List α)
  | dequeue
  /-- Report that the queue is empty. -/
  | empty

/-- The elements in the queue, and what the consumer was given so far. -/
structure State (α : Type*) where
  queue : List α
  results : List (Option α)

def step (s : State α) : Op α → Option (State α)
  | .enqueue c => some { s with queue := s.queue ++ c }
  | .dequeue =>
    match s.queue with
    | [] => none
    | a :: q => some ⟨q, s.results ++ [some a]⟩
  | .empty =>
    match s.queue with
    | [] => some ⟨[], s.results ++ [none]⟩
    | _ :: _ => none

def machine (α : Type*) : Machine (State α) (Op α) where
  init := fun s => s = ⟨[], []⟩
  step := step

end Fifo
