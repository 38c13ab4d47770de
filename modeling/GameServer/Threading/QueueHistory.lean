import Mathlib.Data.List.Nodup
import Mathlib.Data.List.Range
import GameServer.Threading.QueueThreads

/-!
# Every pushed element once, in order

Whatever the threads do, the elements delivered, those deleted by `Clear` and those still queued
are the elements pushed, each once and in push order, and nothing is delivered once a `Clear` has
the lock (`queueThreads_conserved`).

* `LockStep` says what a step does to the lock, `QueueEffect` what it does to the elements;
  `step_effect` has one case for each statement of the source.
* `Ledger` is the invariant. Its part about `Clear` is what the order rests on: between its first
  deletion and the flag the lock keeps every consumer out, and after it the flag does.
-/

namespace GameServer.Threading

open GameServer.Lib Happening

namespace Happening

variable {α : Type} (history : List (Happening α)) (t : Nat) (e : Nat × α)

@[simp] theorem pushedOf_pushed : pushedOf (history ++ [pushed e]) = pushedOf history ++ [e] := by
  simp [pushedOf]

@[simp] theorem pushedOf_delivered :
    pushedOf (history ++ [delivered t e]) = pushedOf history := by
  simp [pushedOf]

@[simp] theorem pushedOf_deleted : pushedOf (history ++ [deleted e]) = pushedOf history := by
  simp [pushedOf]

@[simp] theorem pushedOf_cleared :
    pushedOf (history ++ [(cleared : Happening α)]) = pushedOf history := by
  simp [pushedOf]

@[simp] theorem deliveredOf_pushed :
    deliveredOf (history ++ [pushed e]) = deliveredOf history := by
  simp [deliveredOf]

@[simp] theorem deliveredOf_delivered :
    deliveredOf (history ++ [delivered t e]) = deliveredOf history ++ [(t, e)] := by
  simp [deliveredOf]

@[simp] theorem deliveredOf_deleted :
    deliveredOf (history ++ [deleted e]) = deliveredOf history := by
  simp [deliveredOf]

@[simp] theorem deliveredOf_cleared :
    deliveredOf (history ++ [(cleared : Happening α)]) = deliveredOf history := by
  simp [deliveredOf]

@[simp] theorem deletedOf_pushed : deletedOf (history ++ [pushed e]) = deletedOf history := by
  simp [deletedOf]

@[simp] theorem deletedOf_delivered :
    deletedOf (history ++ [delivered t e]) = deletedOf history := by
  simp [deletedOf]

@[simp] theorem deletedOf_deleted :
    deletedOf (history ++ [deleted e]) = deletedOf history ++ [e] := by
  simp [deletedOf]

@[simp] theorem deletedOf_cleared :
    deletedOf (history ++ [(cleared : Happening α)]) = deletedOf history := by
  simp [deletedOf]

end Happening

namespace QueuePlace

variable {α : Type}

/-- The thread has the lock. -/
def holds : QueuePlace α → Bool
  | pushing _ | notifying | popping | testing | taking | clearing | closing | unlocking => true
  | idle | locking _ | waiting _ => false

/-- The thread is in `Clear`, before the flag is raised. -/
def clears : QueuePlace α → Bool
  | clearing | closing => true
  | _ => false

end QueuePlace

namespace QueueSystem

variable {α : Type}

/-- What the claim of the queue is: order, exactly one place for each element, and no delivery
once a `Clear` has begun. -/
structure Conserved (s : QueueSystem α) : Prop where
  order : pushedOf s.history =
    (deliveredOf s.history).map Prod.snd ++ deletedOf s.history ++ s.queue.queue
  once : ∀ n < (pushedOf s.history).length,
    ((deliveredOf s.history).map fun d => d.2.1).count n +
      ((deletedOf s.history).map Prod.fst).count n + (s.queue.queue.map Prod.fst).count n = 1
  closed : ∀ before after, s.history = before ++ cleared :: after → deliveredOf after = []

/-! ## What a step does -/

variable {s s' : QueueSystem α} {t u : Nat}

/-- The lock and the thread `t` around a step of `t`. -/
inductive LockStep (s s' : QueueSystem α) (t : Nat) : Prop
  | inside (h : (s.threads t).holds = true) (h' : (s'.threads t).holds = true)
      (howner : s'.owner = s.owner)
  | outside (h : (s.threads t).holds = false) (h' : (s'.threads t).holds = false)
      (howner : s'.owner = s.owner)
  | acquire (h : (s.threads t).holds = false) (h' : (s'.threads t).holds = true)
      (hfree : s.owner = none) (howner : s'.owner = some t)
  | release (h : (s.threads t).holds = true) (h' : (s'.threads t).holds = false)
      (howner : s'.owner = none)

/-- The elements around a step of `t`. -/
inductive QueueEffect (s s' : QueueSystem α) (t : Nat) : Prop
  | keep (hclears : (s'.threads t).clears = (s.threads t).clears) (hqueue : s'.queue = s.queue)
      (hhistory : s'.history = s.history)
  | push (value : α) (hclears : (s'.threads t).clears = (s.threads t).clears)
      (hqueue : s'.queue = s.queue.push ((pushedOf s.history).length, value))
      (hhistory : s'.history = s.history ++ [pushed ((pushedOf s.history).length, value)])
  | deliver (e : Nat × α) (hholds : (s.threads t).holds = true)
      (hnot : (s.threads t).clears = false)
      (hclears : (s'.threads t).clears = false) (hopen : s.queue.shutdown = false)
      (hqueue : s.queue.queue = e :: s'.queue.queue) (hdown : s'.queue.shutdown = false)
      (hhistory : s'.history = s.history ++ [delivered t e])
  | delete (e : Nat × α) (hclears : (s.threads t).clears = true)
      (hclears' : (s'.threads t).clears = true)
      (hqueue : s.queue.queue = e :: s'.queue.queue)
      (hdown : s'.queue.shutdown = s.queue.shutdown)
      (hhistory : s'.history = s.history ++ [deleted e])
  | begin (hnot : (s.threads t).clears = false) (hclears : (s'.threads t).clears = true)
      (hqueue : s'.queue = s.queue) (hhistory : s'.history = s.history ++ [cleared])
  | finish (hclears' : (s'.threads t).clears = false) (hdown : s'.queue.shutdown = true)
      (hqueue : s'.queue.queue = s.queue.queue) (hhistory : s'.history = s.history)

/-- The step of `t` leaves the other threads where they are, as far as the lock goes. -/
structure StepEffect (s s' : QueueSystem α) (t : Nat) : Prop where
  others : ∀ u ≠ t, (s'.threads u).holds = (s.threads u).holds ∧
    (s'.threads u).clears = (s.threads u).clears
  lock : LockStep s s' t
  queue : QueueEffect s s' t

@[simp] theorem moveTo_self (s : QueueSystem α) (t : Nat) (place : QueuePlace α) :
    (s.moveTo t place).threads t = place := Function.update_self ..

theorem moveTo_other (s : QueueSystem α) (place : QueuePlace α) (hu : u ≠ t) :
    (s.moveTo t place).threads u = s.threads u := Function.update_of_ne hu ..

/-- What holds of a thread after `t` has moved held of it before, if it held of `t`. -/
theorem of_moveTo (P : QueuePlace α → Prop) {place : QueuePlace α}
    (h : P ((s.moveTo t place).threads u)) (hplace : P place → P (s.threads t)) :
    P (s.threads u) := by
  by_cases hu : u = t
  · subst hu
    rw [moveTo_self] at h
    exact hplace h
  · rwa [moveTo_other _ _ hu] at h

theorem others_moveTo (place : QueuePlace α) (hthreads : s.threads = s'.threads) :
    ∀ u ≠ t, (((s.moveTo t place).threads u).holds = (s'.threads u).holds) ∧
      ((s.moveTo t place).threads u).clears = (s'.threads u).clears := by
  intro u hu
  rw [moveTo_other s place hu, hthreads]
  exact ⟨rfl, rfl⟩

/-- A thread moves and nothing else happens. -/
theorem moveTo_effect {place : QueuePlace α} (hholds : place.holds = (s.threads t).holds)
    (hclears : place.clears = (s.threads t).clears) : StepEffect s (s.moveTo t place) t where
  others := others_moveTo place rfl
  lock := by
    cases h : (s.threads t).holds with
    | true => exact .inside h (by rw [moveTo_self, hholds, h]) rfl
    | false => exact .outside h (by rw [moveTo_self, hholds, h]) rfl
  queue := .keep (by rw [moveTo_self, hclears]) rfl rfl

theorem lock_effect {place : QueuePlace α} (h : (s.threads t).holds = false)
    (hc : (s.threads t).clears = false) (hholds : place.holds = true)
    (hclears : place.clears = false) (hs : s.lock t place = some s') : StepEffect s s' t := by
  unfold lock at hs
  split at hs
  · next hfree =>
    cases hs
    refine ⟨others_moveTo place rfl, .acquire h ?_ hfree rfl, .keep ?_ rfl rfl⟩
    · rw [moveTo_self, hholds]
    · rw [moveTo_self, hclears, hc]
  · cases hs

theorem unlock_effect {place : QueuePlace α} (h : (s.threads t).holds = true)
    (hc : (s.threads t).clears = false) (hholds : place.holds = false)
    (hclears : place.clears = false) : StepEffect s (s.unlock t place) t := by
  refine ⟨others_moveTo place rfl, .release h ?_ rfl, .keep ?_ rfl rfl⟩
  · exact (congrArg QueuePlace.holds (moveTo_self _ t place)).trans hholds
  · rw [hc]
    exact (congrArg QueuePlace.clears (moveTo_self _ t place)).trans hclears

theorem take_effect (h : (s.threads t).holds = true) (hc : (s.threads t).clears = false) :
    StepEffect s (s.take t) t := by
  unfold take ProducerConsumerQueue.pop
  split
  · exact moveTo_effect h.symm hc.symm
  · next e queue heq =>
    split at heq
    · cases heq
    · next value rest hq =>
      split at heq
      · cases heq
      · next hopen =>
        cases heq
        refine ⟨others_moveTo _ rfl, .inside h ?_ rfl, .deliver e h hc ?_ ?_ hq ?_ rfl⟩
        · rw [moveTo_self]
          rfl
        · rw [moveTo_self]
          rfl
        · exact Bool.eq_false_iff.2 hopen
        · exact Bool.eq_false_iff.2 hopen

theorem clearFront_effect (h : s.threads t = .clearing) : StepEffect s (s.clearFront t) t := by
  have hholds : (s.threads t).holds = true := by rw [h]; rfl
  have hclears : (s.threads t).clears = true := by rw [h]; rfl
  unfold clearFront
  split
  · exact moveTo_effect hholds.symm hclears.symm
  · next e rest hq =>
    exact ⟨fun _ _ => ⟨rfl, rfl⟩, .inside hholds hholds rfl,
      .delete e hclears hclears hq rfl rfl⟩

theorem push_effect {value : α} (h : s.threads t = .pushing value) :
    StepEffect s (s.push t value) t := by
  have hholds : (s.threads t).holds = true := by rw [h]; rfl
  refine ⟨others_moveTo _ rfl, .inside hholds ?_ rfl, .push value ?_ rfl rfl⟩
  · exact congrArg QueuePlace.holds (moveTo_self _ t _)
  · rw [h]
    unfold push
    rw [moveTo_self]
    rfl

theorem close_effect (h : s.threads t = .closing) : StepEffect s (s.close t) t := by
  have hholds : (s.threads t).holds = true := by rw [h]; rfl
  refine ⟨?_, .inside hholds ?_ rfl, .finish ?_ rfl rfl rfl⟩
  · intro u hu
    rw [close, moveTo_other _ _ hu]
    dsimp only
    cases s.threads u <;> exact ⟨rfl, rfl⟩
  · exact congrArg QueuePlace.holds (moveTo_self _ t _)
  · exact congrArg QueuePlace.clears (moveTo_self _ t _)

/-- `notify_one` and the step to the unlock: the woken thread stays outside of the lock. -/
theorem notify_effect {woken : Option Nat} (h : s.threads t = .notifying)
    (hs : s.notifyOne woken = some s') : StepEffect s (s'.moveTo t .unlocking) t := by
  have hholds : (s.threads t).holds = true := by rw [h]; rfl
  have hclears : (s.threads t).clears = false := by rw [h]; rfl
  unfold notifyOne at hs
  split at hs
  · cases hs
    exact moveTo_effect hholds.symm hclears.symm
  · next v =>
    split at hs
    · next notified hv =>
      cases hs
      refine ⟨?_, .inside hholds (by rw [moveTo_self]; rfl) rfl,
        .keep (by rw [moveTo_self, hclears]; rfl) rfl rfl⟩
      intro u hu
      rw [moveTo_other _ _ hu]
      by_cases huv : u = v
      · subst huv
        rw [moveTo_self, hv]
        exact ⟨rfl, rfl⟩
      · rw [moveTo_other _ _ huv]
        exact ⟨rfl, rfl⟩
    · cases hs

theorem advance_effect {woken : Option Nat} (hs : s.advance t woken = some s') :
    StepEffect s s' t := by
  unfold advance at hs
  split at hs
  · cases hs
  · next h =>
    -- `Clear` takes the lock
    obtain ⟨v, hv, rfl⟩ := Option.map_eq_some_iff.1 hs
    unfold lock at hv
    split at hv
    · next hfree =>
      cases hv
      refine ⟨others_moveTo _ rfl, .acquire (by rw [h]; rfl) ?_ hfree rfl,
        .begin (by rw [h]; rfl) ?_ rfl rfl⟩
      · exact congrArg QueuePlace.holds (moveTo_self _ t _)
      · exact congrArg QueuePlace.clears (moveTo_self _ t _)
    · cases hv
  · next call hnot h =>
    refine lock_effect (by rw [h]; rfl) (by rw [h]; rfl) ?_ ?_ hs
    · cases call <;> rfl
    · cases call with
      | clear => exact absurd rfl hnot
      | push _ => rfl
      | pop => rfl
      | waitAndPop => rfl
  · next h => cases hs; exact push_effect h
  · next h =>
    obtain ⟨v, hv, rfl⟩ := Option.map_eq_some_iff.1 hs
    exact notify_effect h hv
  · next h => cases hs; exact take_effect (by rw [h]; rfl) (by rw [h]; rfl)
  · next h =>
    split at hs
    · cases hs
      exact moveTo_effect (by rw [h]; rfl) (by rw [h]; rfl)
    · cases hs
      exact unlock_effect (by rw [h]; rfl) (by rw [h]; rfl) rfl rfl
  · next notified h =>
    split at hs
    · exact lock_effect (by rw [h]; rfl) (by rw [h]; rfl) rfl rfl hs
    · cases hs
  · next h => cases hs; exact take_effect (by rw [h]; rfl) (by rw [h]; rfl)
  · next h => cases hs; exact clearFront_effect h
  · next h => cases hs; exact close_effect h
  · next h => cases hs; exact unlock_effect (by rw [h]; rfl) (by rw [h]; rfl) rfl rfl

/-- **Every step** is the step of one thread. -/
theorem step_effect {e : QueueEvent α} (hs : (queueThreads α).step s e = some s') :
    ∃ t, StepEffect s s' t := by
  cases e with
  | call t call =>
    simp only [queueThreads] at hs
    split at hs
    · next h =>
      cases hs
      exact ⟨t, moveTo_effect (by rw [h]; rfl) (by rw [h]; rfl)⟩
    · cases hs
  | advance t woken => exact ⟨t, advance_effect hs⟩
  | wakeSpuriously t =>
    simp only [queueThreads] at hs
    split at hs
    · next h =>
      cases hs
      exact ⟨t, moveTo_effect (by rw [h]; rfl) (by rw [h]; rfl)⟩
    · cases hs

/-! ## The invariant -/

structure Ledger (s : QueueSystem α) : Prop where
  holds_iff : ∀ t, (s.threads t).holds = true ↔ s.owner = some t
  order : pushedOf s.history =
    (deliveredOf s.history).map Prod.snd ++ deletedOf s.history ++ s.queue.queue
  numbers : (pushedOf s.history).map Prod.fst = List.range (pushedOf s.history).length
  intact : cleared ∉ s.history → deletedOf s.history = []
  clearing : ∀ t, (s.threads t).clears = true → cleared ∈ s.history
  shut : cleared ∈ s.history → s.queue.shutdown = true ∨ ∃ t, (s.threads t).clears = true
  closed : ∀ before after, s.history = before ++ cleared :: after → deliveredOf after = []

theorem initial_ledger : (initial : QueueSystem α).Ledger where
  holds_iff := fun _ => ⟨nofun, nofun⟩
  order := rfl
  numbers := rfl
  intact := fun _ => rfl
  clearing := nofun
  shut := nofun
  closed := fun before after h => by cases before <;> cases h

namespace Ledger

theorem conserved (h : s.Ledger) : s.Conserved where
  order := h.order
  once := by
    intro n hn
    have hcount : ((pushedOf s.history).map Prod.fst).count n = 1 := by
      rw [h.numbers]
      exact List.count_eq_one_of_mem List.nodup_range (List.mem_range.2 hn)
    rw [h.order, List.map_append, List.map_append, List.map_map, List.count_append,
      List.count_append] at hcount
    exact hcount
  closed := h.closed

/-- A thread in `Clear` has the lock. -/
theorem clears_holds {place : QueuePlace α} (h : place.clears = true) : place.holds = true := by
  cases place <;> first | rfl | cases h

/-- Two threads with the lock are the same thread. -/
theorem unique (h : s.Ledger) (ht : (s.threads t).holds = true)
    (hu : (s.threads u).holds = true) : t = u := by
  have h₁ := (h.holds_iff t).1 ht
  rw [(h.holds_iff u).1 hu] at h₁
  exact (Option.some.inj h₁).symm

theorem holds_iff_step (h : s.Ledger) (he : StepEffect s s' t) (u : Nat) :
    (s'.threads u).holds = true ↔ s'.owner = some u := by
  by_cases hu : u = t
  · subst hu
    cases he.lock with
    | inside hh hh' howner => rw [howner, ← h.holds_iff, hh, hh']
    | outside hh hh' howner => rw [howner, ← h.holds_iff, hh, hh']
    | acquire _ hh' _ howner => exact iff_of_true hh' howner
    | release _ hh' howner => rw [howner, hh']; exact iff_of_false nofun nofun
  · rw [(he.others u hu).1, h.holds_iff]
    cases he.lock with
    | inside _ _ howner => rw [howner]
    | outside _ _ howner => rw [howner]
    | acquire _ _ hfree howner =>
      rw [hfree, howner]
      exact iff_of_false nofun fun heq => hu (Option.some.inj heq).symm
    | release hh _ howner =>
      rw [howner, (h.holds_iff t).1 hh]
      exact iff_of_false (fun heq => hu (Option.some.inj heq).symm) nofun

/-- A thread that delivers sees no `Clear`: none is at work, as it has the lock, and none has
finished, as the flag is down. -/
theorem not_cleared (h : s.Ledger) (hholds : (s.threads t).holds = true)
    (hnot : (s.threads t).clears = false) (hopen : s.queue.shutdown = false) :
    cleared ∉ s.history := by
  intro hmem
  rcases h.shut hmem with hdown | ⟨u, hu⟩
  · rw [hopen] at hdown
    cases hdown
  · rw [h.unique hholds (clears_holds hu), hu] at hnot
    cases hnot

/-- The records after a `Clear` when one more is appended. -/
theorem closed_append {history : List (Happening α)} {x : Happening α}
    (h : ∀ before after, history = before ++ cleared :: after → deliveredOf after = [])
    (hx : ∀ t e, x = .delivered t e → cleared ∉ history) :
    ∀ before after, history ++ [x] = before ++ cleared :: after → deliveredOf after = [] := by
  intro before after heq
  rcases List.eq_nil_or_concat after with rfl | ⟨rest, last, rfl⟩
  · rfl
  · rw [List.concat_eq_append, ← List.cons_append, ← List.append_assoc] at heq
    obtain ⟨hrest, hlast⟩ := List.append_inj' heq rfl
    cases hlast
    have hnone := h before rest hrest
    rw [List.concat_eq_append]
    cases x with
    | delivered t e =>
      refine absurd ?_ (hx t e rfl)
      rw [hrest]
      exact List.mem_append_right _ List.mem_cons_self
    | pushed e => rw [deliveredOf_pushed, hnone]
    | deleted e => rw [deliveredOf_deleted, hnone]
    | cleared => rw [deliveredOf_cleared, hnone]

/-- Who is in `Clear` after a step that does not begin or finish one. -/
theorem clears_step (he : StepEffect s s' t)
    (ht : (s'.threads t).clears = (s.threads t).clears) (u : Nat) :
    (s'.threads u).clears = (s.threads u).clears := by
  by_cases hu : u = t
  · rw [hu, ht]
  · exact (he.others u hu).2

theorem order_step (h : s.Ledger) (he : QueueEffect s s' t) : pushedOf s'.history =
    (deliveredOf s'.history).map Prod.snd ++ deletedOf s'.history ++ s'.queue.queue := by
  cases he with
  | keep _ hqueue hhistory =>
    rw [hhistory, hqueue]
    exact h.order
  | push value _ hqueue hhistory =>
    rw [hhistory, pushedOf_pushed, deliveredOf_pushed, deletedOf_pushed, hqueue, h.order]
    exact List.append_assoc ..
  | deliver e hholds hnot _ hopen hqueue _ hhistory =>
    have hintact := h.intact (h.not_cleared hholds hnot hopen)
    rw [hhistory, pushedOf_delivered, deliveredOf_delivered, deletedOf_delivered, h.order, hintact,
      hqueue]
    simp
  | delete e _ _ hqueue _ hhistory =>
    rw [hhistory, pushedOf_deleted, deliveredOf_deleted, deletedOf_deleted, h.order, hqueue]
    simp
  | begin _ _ hqueue hhistory =>
    rw [hhistory, pushedOf_cleared, deliveredOf_cleared, deletedOf_cleared, hqueue]
    exact h.order
  | finish _ _ hqueue hhistory =>
    rw [hhistory, hqueue]
    exact h.order

theorem numbers_step (h : s.Ledger) (he : QueueEffect s s' t) :
    (pushedOf s'.history).map Prod.fst = List.range (pushedOf s'.history).length := by
  cases he with
  | keep _ _ hhistory => rw [hhistory, h.numbers]
  | push value _ _ hhistory =>
    rw [hhistory, pushedOf_pushed, List.map_append, h.numbers, List.length_append,
      List.length_singleton, List.range_succ]
    rfl
  | deliver _ _ _ _ _ _ _ hhistory => rw [hhistory, pushedOf_delivered, h.numbers]
  | delete _ _ _ _ _ hhistory => rw [hhistory, pushedOf_deleted, h.numbers]
  | begin _ _ _ hhistory => rw [hhistory, pushedOf_cleared, h.numbers]
  | finish _ _ _ hhistory => rw [hhistory, h.numbers]

/-- What is deleted is deleted by a `Clear`. -/
theorem intact_step (h : s.Ledger) (he : QueueEffect s s' t) (hnot : cleared ∉ s'.history) :
    deletedOf s'.history = [] := by
  cases he with
  | keep _ _ hhistory =>
    rw [hhistory] at hnot ⊢
    exact h.intact hnot
  | push _ _ _ hhistory =>
    rw [hhistory] at hnot ⊢
    rw [deletedOf_pushed]
    exact h.intact fun hmem => hnot (List.mem_append_left _ hmem)
  | deliver _ _ _ _ _ _ _ hhistory =>
    rw [hhistory] at hnot ⊢
    rw [deletedOf_delivered]
    exact h.intact fun hmem => hnot (List.mem_append_left _ hmem)
  | delete _ hclears _ _ _ hhistory =>
    rw [hhistory] at hnot
    exact absurd (List.mem_append_left _ (h.clearing t hclears)) hnot
  | begin _ _ _ hhistory =>
    rw [hhistory] at hnot
    exact absurd (List.mem_append_right _ (List.mem_singleton_self _)) hnot
  | finish _ _ _ hhistory =>
    rw [hhistory] at hnot ⊢
    exact h.intact hnot

theorem clearing_step (h : s.Ledger) (he : StepEffect s s' t)
    (hu : (s'.threads u).clears = true) : cleared ∈ s'.history := by
  cases he.queue with
  | keep hclears _ hhistory =>
    rw [hhistory]
    exact h.clearing u (clears_step he hclears u ▸ hu)
  | push _ hclears _ hhistory =>
    rw [hhistory]
    exact List.mem_append_left _ (h.clearing u (clears_step he hclears u ▸ hu))
  | deliver _ _ hnot hclears _ _ _ hhistory =>
    rw [hhistory]
    exact List.mem_append_left _
      (h.clearing u (clears_step he (hclears.trans hnot.symm) u ▸ hu))
  | delete _ hclears _ _ _ hhistory =>
    rw [hhistory]
    exact List.mem_append_left _ (h.clearing t hclears)
  | begin _ _ _ hhistory =>
    rw [hhistory]
    exact List.mem_append_right _ (List.mem_singleton_self _)
  | finish hclears _ _ hhistory =>
    rw [hhistory]
    by_cases hut : u = t
    · rw [hut, hclears] at hu
      cases hu
    · exact h.clearing u ((he.others u hut).2 ▸ hu)

theorem shut_step (h : s.Ledger) (he : StepEffect s s' t) (hmem : cleared ∈ s'.history) :
    s'.queue.shutdown = true ∨ ∃ u, (s'.threads u).clears = true := by
  cases he.queue with
  | keep hclears hqueue hhistory =>
    rw [hhistory] at hmem
    simp only [hqueue, clears_step he hclears]
    exact h.shut hmem
  | push _ hclears hqueue hhistory =>
    rw [hhistory] at hmem
    simp only [hqueue, clears_step he hclears]
    exact h.shut (by simpa using hmem)
  | deliver _ hholds hnot _ hopen _ _ hhistory =>
    rw [hhistory] at hmem
    exact absurd (by simpa using hmem) (h.not_cleared hholds hnot hopen)
  | delete _ _ hclears _ _ _ => exact .inr ⟨t, hclears⟩
  | begin _ hclears _ _ => exact .inr ⟨t, hclears⟩
  | finish _ hdown _ _ => exact .inl hdown

theorem closed_step (h : s.Ledger) (he : QueueEffect s s' t) :
    ∀ before after, s'.history = before ++ cleared :: after → deliveredOf after = [] := by
  cases he with
  | keep _ _ hhistory =>
    rw [hhistory]
    exact h.closed
  | push _ _ _ hhistory =>
    rw [hhistory]
    exact closed_append h.closed nofun
  | deliver _ hholds hnot _ hopen _ _ hhistory =>
    rw [hhistory]
    exact closed_append h.closed fun _ _ _ => h.not_cleared hholds hnot hopen
  | delete _ _ _ _ _ hhistory =>
    rw [hhistory]
    exact closed_append h.closed nofun
  | begin _ _ _ hhistory =>
    rw [hhistory]
    exact closed_append h.closed nofun
  | finish _ _ _ hhistory =>
    rw [hhistory]
    exact h.closed

theorem step (h : s.Ledger) (he : StepEffect s s' t) : s'.Ledger where
  holds_iff := h.holds_iff_step he
  order := h.order_step he.queue
  numbers := h.numbers_step he.queue
  intact := h.intact_step he.queue
  clearing _ hu := h.clearing_step he hu
  shut := h.shut_step he
  closed := h.closed_step he.queue

end Ledger

end QueueSystem

open QueueSystem

/-- **Exactly once, in order.** In every state that any threads reach in any interleaving, the
elements are conserved. -/
theorem queueThreads_conserved {α : Type} {s : QueueSystem α} (h : (queueThreads α).Reach s) :
    s.Conserved := by
  refine Ledger.conserved (h.invariant (I := Ledger) ?_ ?_)
  · rintro s rfl
    exact initial_ledger
  · intro s e s' hs _ hstep
    obtain ⟨t, he⟩ := step_effect hstep
    exact hs.step he

/-- Two values are pushed, one is popped by another thread, and a third thread clears the rest. -/
def pushPopClear : List (QueueEvent String) :=
  [.call 0 (.push "a"), .advance 0 none, .advance 0 none, .advance 0 none, .advance 0 none,
    .call 0 (.push "b"), .call 1 .pop, .advance 0 none, .advance 0 none, .advance 0 none,
    .advance 0 none, .advance 1 none, .advance 1 none, .advance 1 none, .call 2 .clear,
    .advance 2 none, .advance 2 none, .advance 2 none, .advance 2 none]

theorem queueThreads_conserved_pushPopClear : ∃ s : QueueSystem String,
    (queueThreads String).run .initial pushPopClear = some s ∧
      s.history = [.pushed (0, "a"), .pushed (1, "b"), .delivered 1 (0, "a"), .cleared,
        .deleted (1, "b")] ∧ s.Conserved := by
  have hrun : ∃ s : QueueSystem String,
      (queueThreads String).run .initial pushPopClear = some s ∧
        s.history = [.pushed (0, "a"), .pushed (1, "b"), .delivered 1 (0, "a"), .cleared,
          .deleted (1, "b")] := ⟨_, rfl, rfl⟩
  obtain ⟨s, hs, hhistory⟩ := hrun
  exact ⟨s, hs, hhistory, queueThreads_conserved (Machine.reach_of_run rfl hs)⟩

end GameServer.Threading
