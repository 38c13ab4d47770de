import GameServer.Threading.QueueHistory

/-!
# Tasks that are pushed after the shutdown

`Clear` empties the queue and raises the flag under one lock. `Pop` and `WaitAndPop()` take nothing
once the flag is raised; `Push` does not read it, and what it pushes then stays in the queue.

`QueueChange` says what a step does to the queue. `Drained` is the invariant of the runs without such
a push: the queue is empty once the flag is raised, and before, when a `Clear` is about to raise it.
-/

namespace GameServer.Threading

open GameServer.Lib Happening

namespace QueueSystem

variable {α : Type}

/-- Once the flag is raised, the queue is empty, and everything that was pushed was delivered or
deleted. -/
structure NoneStranded (s : QueueSystem α) : Prop where
  empty : s.queue.shutdown = true → s.queue.queue = []
  settled : s.queue.shutdown = true → ∀ e ∈ pushedOf s.history,
    e ∈ (deliveredOf s.history).map Prod.snd ∨ e ∈ deletedOf s.history

/-- `Push` does not push once the flag is raised. -/
def PushesInTime (s : QueueSystem α) : QueueEvent α → Prop
  | .advance t _ => s.queue.shutdown = true → ∀ value, s.threads t ≠ .pushing value
  | _ => True

/-! ## What a step does to the queue -/

variable {s s' : QueueSystem α} {t u : Nat} {e : QueueEvent α}

/-- The queue around a step, and the threads that are about to raise the flag. -/
inductive QueueChange (s s' : QueueSystem α) (e : QueueEvent α) : Prop
  | keep (hqueue : s'.queue = s.queue)
      (hclosing : ∀ u, s'.threads u = .closing → s.threads u = .closing ∨ s.queue.queue = [])
  | push (t : Nat) (woken : Option Nat) (value : α) (he : e = .advance t woken)
      (ht : s.threads t = .pushing value) (hs : s' = s.push t value)
  | shrink (x : Nat × α) (hqueue : s.queue.queue = x :: s'.queue.queue)
      (hdown : s'.queue.shutdown = s.queue.shutdown)
      (hclosing : ∀ u, s'.threads u = .closing → s.threads u = .closing)
  | close (t : Nat) (woken : Option Nat) (he : e = .advance t woken)
      (ht : s.threads t = .closing) (hs : s' = s.close t)

theorem closing_moveTo {place : QueuePlace α} (h : (s.moveTo t place).threads u = .closing)
    (hplace : place ≠ .closing) : s.threads u = .closing :=
  of_moveTo (· = .closing) h fun hclosing => absurd hclosing hplace

/-- A thread moves, but not to where the flag is raised. -/
theorem QueueChange.moveTo {place : QueuePlace α} (hplace : place ≠ .closing)
    (hqueue : s'.queue = s.queue) (hthreads : s'.threads = s.threads) :
    QueueChange s (s'.moveTo t place) e := by
  refine .keep hqueue fun u hu => .inl ?_
  have hu' := closing_moveTo hu hplace
  rwa [hthreads] at hu'

theorem lock_keeps {place : QueuePlace α} (hs : s.lock t place = some s')
    (hplace : place ≠ .closing) :
    s'.queue = s.queue ∧ ∀ u, s'.threads u = .closing → s.threads u = .closing := by
  unfold lock at hs
  split at hs
  · cases hs
    exact ⟨rfl, fun u hu => closing_moveTo hu hplace⟩
  · cases hs

theorem lock_change {place : QueuePlace α} (hs : s.lock t place = some s')
    (hplace : place ≠ .closing) : QueueChange s s' e :=
  .keep (lock_keeps hs hplace).1 fun u hu => .inl ((lock_keeps hs hplace).2 u hu)

theorem take_change : QueueChange s (s.take t) e := by
  unfold take
  split
  · exact .moveTo nofun rfl rfl
  · next element queue hpop =>
    have hdown : queue.shutdown = s.queue.shutdown := by
      rw [← ProducerConsumerQueue.pop_shutdown s.queue, hpop]
    exact .shrink element (ProducerConsumerQueue.pop_eq_some hpop) hdown
      fun u hu => closing_moveTo hu nofun

theorem clearFront_change : QueueChange s (s.clearFront t) e := by
  unfold clearFront
  split
  · next hempty => exact .keep rfl fun u _ => .inr hempty
  · next element rest hqueue => exact .shrink element hqueue rfl fun u hu => hu

theorem notify_change {woken : Option Nat} (hs : s.notifyOne woken = some s') :
    QueueChange s (s'.moveTo t .unlocking) e := by
  unfold notifyOne at hs
  split at hs
  · cases hs
    exact .moveTo nofun rfl rfl
  · split at hs
    · cases hs
      exact .keep rfl fun u hu => .inl (closing_moveTo (closing_moveTo hu nofun) nofun)
    · cases hs

theorem advance_change {woken : Option Nat} (hs : s.advance t woken = some s') :
    QueueChange s s' (.advance t woken) := by
  unfold advance at hs
  split at hs
  · cases hs
  · -- `Clear` takes the lock
    obtain ⟨v, hv, rfl⟩ := Option.map_eq_some_iff.1 hs
    obtain ⟨hqueue, hclosing⟩ := lock_keeps hv nofun
    exact .keep hqueue fun u hu => .inl (hclosing u hu)
  · next call hnot h =>
    refine lock_change hs ?_
    cases call <;> nofun
  · next value h =>
    cases hs
    exact .push t woken value rfl h rfl
  · obtain ⟨v, hv, rfl⟩ := Option.map_eq_some_iff.1 hs
    exact notify_change hv
  · cases hs
    exact take_change
  · split at hs
    · cases hs
      exact .moveTo nofun rfl rfl
    · cases hs
      exact .moveTo nofun rfl rfl
  · split at hs
    · exact lock_change hs nofun
    · cases hs
  · cases hs
    exact take_change
  · cases hs
    exact clearFront_change
  · next h =>
    cases hs
    exact .close t woken rfl h rfl
  · cases hs
    exact .moveTo nofun rfl rfl

theorem step_change (hs : (queueThreads α).step s e = some s') : QueueChange s s' e := by
  cases e with
  | call t call =>
    simp only [queueThreads] at hs
    split at hs
    · cases hs
      refine .moveTo (fun h => ?_) rfl rfl
      cases h
    · cases hs
  | advance t woken => exact advance_change hs
  | wakeSpuriously t =>
    simp only [queueThreads] at hs
    split at hs
    · cases hs
      refine .moveTo (fun h => ?_) rfl rfl
      cases h
    · cases hs

/-! ## The invariant -/

structure Drained (s : QueueSystem α) : Prop where
  ledger : s.Ledger
  empty : s.queue.shutdown = true → s.queue.queue = []
  closing : ∀ t, s.threads t = .closing → s.queue.queue = []

theorem initial_drained : (initial : QueueSystem α).Drained :=
  ⟨initial_ledger, fun _ => rfl, nofun⟩

namespace Drained

theorem noneStranded (h : s.Drained) : s.NoneStranded where
  empty := h.empty
  settled hdown x hx := by
    rw [h.ledger.order, h.empty hdown, List.append_nil] at hx
    exact List.mem_append.1 hx

theorem step (h : s.Drained) (hc : s.PushesInTime e) (hs : (queueThreads α).step s e = some s') :
    s'.Drained := by
  obtain ⟨v, heffect⟩ := step_effect hs
  have hledger : s'.Ledger := h.ledger.step heffect
  cases step_change hs with
  | keep hqueue hclosing =>
    refine ⟨hledger, ?_, fun u hu => ?_⟩
    · rw [hqueue]
      exact h.empty
    · rw [hqueue]
      rcases hclosing u hu with hu | hempty
      · exact h.closing u hu
      · exact hempty
  | push t woken value he ht hpush =>
    subst he hpush
    refine ⟨hledger, fun hdown => absurd ht (hc hdown value), fun u hu => ?_⟩
    -- the thread that pushes has the lock, so no `Clear` is under way
    have hu' : s.threads u = .closing := closing_moveTo hu nofun
    have htu : t = u := h.ledger.unique (by rw [ht]; rfl) (by rw [hu']; rfl)
    rw [htu, hu'] at ht
    cases ht
  | shrink x hqueue hdown hclosing =>
    refine ⟨hledger, fun hshut => ?_, fun u hu => ?_⟩
    · rw [h.empty (hdown ▸ hshut)] at hqueue
      cases hqueue
    · rw [h.closing u (hclosing u hu)] at hqueue
      cases hqueue
  | close t _ _ ht hclose =>
    subst hclose
    exact ⟨hledger, fun _ => h.closing t ht, fun _ _ => h.closing t ht⟩

/-- A push after the shutdown leaves its element in the queue. -/
theorem not_noneStranded (hc : ¬s.PushesInTime e) (hs : (queueThreads α).step s e = some s') :
    ¬s'.NoneStranded := by
  intro hnone
  cases e with
  | advance t woken =>
    obtain ⟨hdown, hpush⟩ := Classical.not_imp.1 hc
    obtain ⟨value, hvalue⟩ := Classical.not_forall.1 hpush
    have ht : s.threads t = .pushing value := Classical.not_not.1 hvalue
    simp only [queueThreads, advance, ht, Option.some.injEq] at hs
    subst hs
    exact List.append_ne_nil_of_right_ne_nil _ (List.cons_ne_nil _ _) (hnone.empty hdown)
  | call t call => exact hc trivial
  | wakeSpuriously t => exact hc trivial

end Drained

end QueueSystem

open QueueSystem

/-- **Nothing is stranded** in any state of a run exactly if no `Push` of the run pushes after the
shutdown. -/
theorem noneStranded_along_iff {α : Type} (events : List (QueueEvent α)) :
    (queueThreads α).Along NoneStranded .initial events ↔
      (queueThreads α).Meets PushesInTime .initial events :=
  Machine.along_iff_meets (I := Drained) (fun _ h => h.noneStranded)
    (fun _ _ _ h hc hs => h.step hc hs) (fun _ _ _ _ hc hs => Drained.not_noneStranded hc hs)
    initial_drained

/-- A `Clear` from beginning to end, and then a `Push` by another thread. -/
theorem task_stranded : ¬∀ events : List (QueueEvent String),
    (queueThreads String).Along NoneStranded .initial events := by
  intro h
  have hlast := (((((((h [.call 0 .clear, .advance 0 none, .advance 0 none, .advance 0 none,
    .call 1 (.push "task"), .advance 0 none, .advance 1 none, .advance 1 none]).2 _ rfl).2 _ rfl).2
      _ rfl).2 _ rfl).2 _ rfl).2 _ rfl).2 _ rfl
  have hempty := (hlast.2 _ rfl).empty rfl
  cases hempty

end GameServer.Threading
