import Mathlib.Data.List.Basic

/-!
# First in, first out

A queue together with its history: everything ever put in, everything taken out, and what is
waiting. That nothing is lost, repeated or reordered is a field of the structure, so every queue
built from the operations has it.
-/

namespace GameServer.Lib

universe u

structure Fifo (α : Type u) where
  written : List α
  read : List α
  pending : List α
  conserved : written = read ++ pending

namespace Fifo

variable {α : Type u}

def empty : Fifo α := ⟨[], [], [], rfl⟩

def enqueue (q : Fifo α) (xs : List α) : Fifo α where
  written := q.written ++ xs
  read := q.read
  pending := q.pending ++ xs
  conserved := by rw [q.conserved, List.append_assoc]

/-- Takes the first `n` elements, or all of them. -/
def dequeue (q : Fifo α) (n : Nat) : Fifo α where
  written := q.written
  read := q.read ++ q.pending.take n
  pending := q.pending.drop n
  conserved := by rw [q.conserved, List.append_assoc, List.take_append_drop]

end Fifo

end GameServer.Lib
