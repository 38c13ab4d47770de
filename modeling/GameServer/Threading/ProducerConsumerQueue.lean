import Mathlib.Data.List.Basic

/-!
# `ProducerConsumerQueue`

A queue with a shutdown flag. Each operation runs under the lock of the queue, so it is a function
of the state; the operations that notify say whom in their docstring. `WaitAndPop()` is split at
its wait: `waitCondition` is the predicate it waits for and `popWaited` what it does after it, and
the same goes for `WaitAndPop(T &)` with `waitConditionInto` and `popWaitedInto`.
-/

namespace GameServer.Threading

structure ProducerConsumerQueue (α : Type) where
  queue : List α
  shutdown : Bool
  deriving DecidableEq, Repr

namespace ProducerConsumerQueue

variable {α : Type}

def empty : ProducerConsumerQueue α := ⟨[], false⟩

/-- `Push`; one waiting thread is notified. -/
def push (q : ProducerConsumerQueue α) (value : α) : ProducerConsumerQueue α :=
  { q with queue := q.queue ++ [value] }

/-- `Pop`: the value, if there is one. -/
def pop (q : ProducerConsumerQueue α) : Option α × ProducerConsumerQueue α :=
  match q.queue with
  | [] => (none, q)
  | value :: rest => if q.shutdown then (none, q) else (some value, { q with queue := rest })

/-- The predicate of the wait in `WaitAndPop()`. -/
def waitCondition (q : ProducerConsumerQueue α) : Bool := !q.queue.isEmpty && !q.shutdown

/-- The rest of `WaitAndPop()`: the front, or a value-initialized `T`. -/
def popWaited [Inhabited α] (q : ProducerConsumerQueue α) : α × ProducerConsumerQueue α :=
  match q.queue with
  | [] => (default, q)
  | value :: rest => if q.shutdown then (default, q) else (value, { q with queue := rest })

/-- The predicate of the wait in `WaitAndPop(T &)`. -/
def waitConditionInto (q : ProducerConsumerQueue α) : Bool := q.queue.isEmpty && !q.shutdown

/-- The rest of `WaitAndPop(T &)`: the front is assigned to `value`, or `value` stays as it is. -/
def popWaitedInto (q : ProducerConsumerQueue α) (value : α) : α × ProducerConsumerQueue α :=
  match q.queue with
  | [] => (value, q)
  | front :: rest => if q.shutdown then (value, q) else (front, { q with queue := rest })

/-- `Clear`: the values are deleted; all waiting threads are notified. -/
def clear (_ : ProducerConsumerQueue α) : ProducerConsumerQueue α := ⟨[], true⟩

/-- A value that `Pop` gives was the front. -/
theorem pop_eq_some {q rest : ProducerConsumerQueue α} {value : α}
    (h : q.pop = (some value, rest)) : q.queue = value :: rest.queue := by
  unfold pop at h
  cases hq : q.queue with
  | nil =>
    rw [hq] at h
    cases h
  | cons front tail =>
    rw [hq] at h
    dsimp only at h
    split at h
    · cases h
    · cases h
      rfl

/-- If `Pop` gives no value, nothing is removed. -/
theorem pop_eq_none {q rest : ProducerConsumerQueue α} (h : q.pop = (none, rest)) : rest = q := by
  unfold pop at h
  split at h
  · cases h
    rfl
  · split at h
    · cases h
      rfl
    · cases h

/-! ## The two overloads of `WaitAndPop` -/

/-- After the wait `WaitAndPop(T &)` does what `Pop` does. -/
theorem popWaitedInto_eq (q : ProducerConsumerQueue α) (value : α) :
    q.popWaitedInto value = (q.pop.1.getD value, q.pop.2) := by
  unfold popWaitedInto pop
  split
  · rfl
  · split <;> rfl

theorem popWaited_eq [Inhabited α] (q : ProducerConsumerQueue α) :
    q.popWaited = (q.pop.1.getD default, q.pop.2) := by
  unfold popWaited pop
  split
  · rfl
  · split <;> rfl

/-- `WaitAndPop(T &)` waits for the opposite of a queue with an element or a shutdown. -/
theorem waitConditionInto_eq_true_iff (q : ProducerConsumerQueue α) :
    q.waitConditionInto = true ↔ ¬(q.queue ≠ [] ∨ q.shutdown = true) := by
  simp [waitConditionInto]

/-- `WaitAndPop()` waits for a queue with an element, and not for a shutdown. -/
theorem waitCondition_eq_true_iff (q : ProducerConsumerQueue α) :
    q.waitCondition = true ↔ q.queue ≠ [] ∧ q.shutdown = false := by
  simp [waitCondition]

/-! ## The shutdown flag -/

@[simp] theorem pop_shutdown (q : ProducerConsumerQueue α) : q.pop.2.shutdown = q.shutdown := by
  unfold pop
  split
  · rfl
  · split <;> rfl

@[simp] theorem popWaited_shutdown [Inhabited α] (q : ProducerConsumerQueue α) :
    q.popWaited.2.shutdown = q.shutdown := by
  rw [popWaited_eq, pop_shutdown]

/-- Once the queue is shut down nothing waited for will come. -/
theorem waitCondition_of_shutdown {q : ProducerConsumerQueue α} (h : q.shutdown = true) :
    q.waitCondition = false := by
  rw [waitCondition, h, Bool.not_true, Bool.and_false]

end ProducerConsumerQueue

end GameServer.Threading
