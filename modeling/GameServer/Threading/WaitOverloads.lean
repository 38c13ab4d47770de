import GameServer.Threading.StrandedTasks

/-!
# The two overloads of `WaitAndPop`

Threads that call `Push`, `Pop`, both overloads of `WaitAndPop` and `Clear`, in any interleaving. The
overloads differ in the predicate of their wait and in nothing else: `WaitAndPop(T &)` has the
opposite of the one that it should have, and `WaitAndPop()` one that does not let go of its thread
after a shutdown. `equivalent_along_iff` says in which runs no thread is in a wait with the wrong
predicate.

A state is one of `QueueSystem` with the overload that each thread has called; a step is one of
`queueThreads` except for the test of the wait condition (`step_of_value`).
-/

namespace GameServer.Threading

open GameServer.Lib Happening

inductive WaitOverload where
  /-- `WaitAndPop(T &)`. -/
  | into
  /-- `WaitAndPop()`. -/
  | value
  deriving DecidableEq, Repr

/-- The predicate of the wait. -/
def WaitOverload.condition {α : Type} : WaitOverload → ProducerConsumerQueue α → Bool
  | into, q => q.waitConditionInto
  | value, q => q.waitCondition

structure OverloadSystem (α : Type) where
  system : QueueSystem α
  /-- The overload that a thread has called, if it is in `WaitAndPop`. -/
  overload : Nat → WaitOverload

inductive OverloadEvent (α : Type) where
  | call (t : Nat) (call : QueueCall α) (overload : WaitOverload)
  | advance (t : Nat) (woken : Option Nat)
  | wakeSpuriously (t : Nat)
  deriving DecidableEq, Repr

namespace OverloadSystem

variable {α : Type}

def initial : OverloadSystem α := ⟨.initial, fun _ => .value⟩

/-- The test of the wait condition. -/
def test (s : OverloadSystem α) (t : Nat) : QueueSystem α :=
  if (s.overload t).condition s.system.queue then s.system.moveTo t .taking
  else s.system.unlock t (.waiting false)

/-- The next statement of the thread `t`. -/
def advance (s : OverloadSystem α) (t : Nat) (woken : Option Nat) : Option (QueueSystem α) :=
  match s.system.threads t with
  | .testing => some (s.test t)
  | _ => s.system.advance t woken

end OverloadSystem

def overloadThreads (α : Type) : Machine (OverloadSystem α) (OverloadEvent α) where
  init s := s = .initial
  step s
    | .call t call overload =>
      ((queueThreads α).step s.system (.call t call)).map fun system =>
        ⟨system, Function.update s.overload t overload⟩
    | .advance t woken => (s.advance t woken).map fun system => { s with system }
    | .wakeSpuriously t =>
      ((queueThreads α).step s.system (.wakeSpuriously t)).map fun system => { s with system }

namespace QueuePlace

variable {α : Type}

/-- The thread is in the wait of `WaitAndPop`, at its predicate or blocked. -/
def inWait : QueuePlace α → Bool
  | testing | waiting _ => true
  | _ => false

end QueuePlace

namespace OverloadSystem

variable {α : Type}

/-- A thread in a wait may proceed exactly if the queue has an element or is shut down, whichever
overload it has called. -/
def Equivalent (s : OverloadSystem α) : Prop :=
  ∀ t, (s.system.threads t).inWait = true →
    ((s.overload t).condition s.system.queue = true ↔
      s.system.queue.queue ≠ [] ∨ s.system.queue.shutdown = true)

/-- The lock is taken for a `WaitAndPop` only by `WaitAndPop()` and only before the shutdown, and
`Clear` raises the flag only when no thread is in a wait. -/
def WaitsInTime (s : OverloadSystem α) : OverloadEvent α → Prop
  | .advance t _ =>
    (s.system.threads t = .locking .waitAndPop →
      s.overload t = .value ∧ s.system.queue.shutdown = false) ∧
    (s.system.threads t = .closing → ∀ u, (s.system.threads u).inWait = false)
  | _ => True

/-- What a call does that proceeds after the wait, and that this is what the rest of either overload
does. -/
structure Proceeds (s s' : OverloadSystem α) (t : Nat) : Prop where
  handsOver : ∀ front rest, s.system.queue.queue = front :: rest →
    s.system.queue.shutdown = false → s'.system.queue.queue = rest ∧
      s'.system.history = s.system.history ++ [.delivered t front]
  afterShutdown : s.system.queue.shutdown = true → s'.system.queue = s.system.queue ∧
    s'.system.history = s.system.history
  into : ∀ value, s.system.queue.popWaitedInto value =
    (s.system.queue.pop.1.getD value, s'.system.queue)
  value : ∀ [Inhabited α], s.system.queue.popWaited =
    (s.system.queue.pop.1.getD default, s'.system.queue)

variable {s s' : OverloadSystem α} {t u : Nat}

/-- Without `WaitAndPop(T &)` the steps are those of `queueThreads`. -/
theorem step_of_value (h : s.overload t = .value) (woken : Option Nat) :
    (overloadThreads α).step s (.advance t woken) =
      ((queueThreads α).step s.system (.advance t woken)).map fun system => { s with system } := by
  have htest : s.test t = if s.system.queue.waitCondition then s.system.moveTo t .taking
      else s.system.unlock t (.waiting false) := by
    rw [test, h]
    rfl
  simp only [overloadThreads, queueThreads, advance]
  split
  · next ht =>
    simp only [QueueSystem.advance, ht, htest]
    split <;> rfl
  · rfl

/-! ## Waits with the right predicate -/

theorem condition_into (q : ProducerConsumerQueue α) :
    ¬(WaitOverload.into.condition q = true ↔ q.queue ≠ [] ∨ q.shutdown = true) := by
  rw [WaitOverload.condition, q.waitConditionInto_eq_true_iff]
  exact not_iff_self

theorem condition_value_iff (q : ProducerConsumerQueue α) :
    (WaitOverload.value.condition q = true ↔ q.queue ≠ [] ∨ q.shutdown = true) ↔
      q.shutdown = false := by
  rw [WaitOverload.condition, q.waitCondition_eq_true_iff]
  cases q.shutdown <;> simp

theorem equivalent_iff : s.Equivalent ↔ ∀ t, (s.system.threads t).inWait = true →
    s.overload t = .value ∧ s.system.queue.shutdown = false := by
  refine forall_congr' fun t => imp_congr_right fun _ => ?_
  cases s.overload t with
  | into => exact iff_of_false (condition_into _) nofun
  | value => rw [condition_value_iff, and_iff_right rfl]

/-! ## Who is in a wait after a step -/

section InWait

variable {q q' : QueueSystem α}

/-- A thread that moves comes into a wait only at a place of a wait. -/
theorem inWait_moveTo {place : QueuePlace α} (h : ((q.moveTo t place).threads u).inWait = true)
    (hplace : place.inWait = true → (q.threads t).inWait = true) :
    (q.threads u).inWait = true :=
  QueueSystem.of_moveTo (fun place => place.inWait = true) h hplace

theorem inWait_lock {place : QueuePlace α} (hs : q.lock t place = some q')
    (h : (q'.threads u).inWait = true)
    (hplace : place.inWait = true → (q.threads t).inWait = true) :
    (q.threads u).inWait = true := by
  unfold QueueSystem.lock at hs
  split at hs
  · cases hs
    exact inWait_moveTo h hplace
  · cases hs

theorem inWait_take (h : ((q.take t).threads u).inWait = true) : (q.threads u).inWait = true := by
  unfold QueueSystem.take at h
  split at h
  · exact inWait_moveTo h nofun
  · exact inWait_moveTo h nofun

theorem inWait_notifyOne {woken : Option Nat} (hs : q.notifyOne woken = some q')
    (h : (q'.threads u).inWait = true) : (q.threads u).inWait = true := by
  unfold QueueSystem.notifyOne at hs
  split at hs
  · cases hs
    exact h
  · split at hs
    · next hv =>
      cases hs
      exact inWait_moveTo h fun _ => by rw [hv]; rfl
    · cases hs

theorem inWait_notify (place : QueuePlace α) :
    (QueueSystem.notify place).inWait = place.inWait := by
  cases place <;> rfl

/-- **A thread comes into a wait** when it takes the lock for it. -/
theorem inWait_advance {woken : Option Nat} (hs : q.advance t woken = some q')
    (h : (q'.threads u).inWait = true) :
    (q.threads u).inWait = true ∨ (u = t ∧ q.threads t = .locking .waitAndPop) := by
  by_cases hwait : u = t ∧ q.threads t = .locking .waitAndPop
  · exact .inr hwait
  · refine .inl ?_
    unfold QueueSystem.advance at hs
    split at hs
    · cases hs
    · obtain ⟨v, hv, rfl⟩ := Option.map_eq_some_iff.1 hs
      exact inWait_lock hv h nofun
    · next call _ ht =>
      cases call with
      | waitAndPop =>
        unfold QueueSystem.lock at hs
        split at hs
        · cases hs
          rwa [QueueSystem.moveTo_other _ _ fun hu => hwait ⟨hu, ht⟩] at h
        · cases hs
      | push _ => exact inWait_lock hs h nofun
      | pop => exact inWait_lock hs h nofun
      | clear => exact inWait_lock hs h nofun
    · cases hs
      exact inWait_moveTo h nofun
    · obtain ⟨v, hv, rfl⟩ := Option.map_eq_some_iff.1 hs
      exact inWait_notifyOne hv (inWait_moveTo h nofun)
    · cases hs
      exact inWait_take h
    · next ht =>
      have htest : (q.threads t).inWait = true := by rw [ht]; rfl
      split at hs
      · cases hs
        exact inWait_moveTo h fun _ => htest
      · cases hs
        exact inWait_moveTo h fun _ => htest
    · next ht =>
      split at hs
      · exact inWait_lock hs h fun _ => by rw [ht]; rfl
      · cases hs
    · cases hs
      exact inWait_take h
    · cases hs
      unfold QueueSystem.clearFront at h
      split at h
      · exact inWait_moveTo h nofun
      · exact h
    · cases hs
      have h' := inWait_moveTo h nofun
      rwa [inWait_notify] at h'
    · cases hs
      exact inWait_moveTo h nofun

/-- The flag is raised by the end of `Clear` only. -/
theorem shutdown_advance {woken : Option Nat} (hs : q.advance t woken = some q') :
    q.threads t = .closing ∨ q'.queue.shutdown = q.queue.shutdown := by
  cases QueueSystem.advance_change hs with
  | keep hqueue _ => exact .inr (congrArg _ hqueue)
  | push _ _ _ _ _ hpush =>
    subst hpush
    exact .inr rfl
  | shrink _ _ hdown _ => exact .inr hdown
  | close _ _ he ht _ =>
    cases he
    exact .inl ht

end InWait

/-! ## Steps -/

theorem advance_eq (ht : s.system.threads t ≠ .testing) (woken : Option Nat) :
    s.advance t woken = s.system.advance t woken := by
  unfold advance
  split
  · next h => exact absurd h ht
  · rfl

theorem inWait_test (ht : s.system.threads t = .testing)
    (h : ((s.test t).threads u).inWait = true) : (s.system.threads u).inWait = true := by
  have htest : (s.system.threads t).inWait = true := by rw [ht]; rfl
  unfold test at h
  split at h
  · exact inWait_moveTo h fun _ => htest
  · exact inWait_moveTo h fun _ => htest

theorem test_queue : (s.test t).queue = s.system.queue := by
  unfold test
  split <;> rfl

theorem Equivalent.call {call : QueueCall α} {overload : WaitOverload} (h : s.Equivalent)
    (hs : (overloadThreads α).step s (.call t call overload) = some s') : s'.Equivalent := by
  rw [equivalent_iff] at h ⊢
  obtain ⟨system, hsystem, rfl⟩ := Option.map_eq_some_iff.1 hs
  simp only [queueThreads] at hsystem
  split at hsystem
  · next hidle =>
    cases hsystem
    intro u hu
    have hwait : (s.system.threads u).inWait = true :=
      inWait_moveTo hu fun h => absurd h Bool.false_ne_true
    have hut : u ≠ t := by
      rintro rfl
      rw [hidle] at hwait
      cases hwait
    dsimp only
    rw [Function.update_of_ne hut]
    exact h u hwait
  · cases hsystem

theorem Equivalent.advance {woken : Option Nat} (h : s.Equivalent)
    (hc : s.WaitsInTime (.advance t woken))
    (hs : (overloadThreads α).step s (.advance t woken) = some s') : s'.Equivalent := by
  rw [equivalent_iff] at h ⊢
  obtain ⟨system, hsystem, rfl⟩ := Option.map_eq_some_iff.1 hs
  intro u hu
  by_cases ht : s.system.threads t = .testing
  · simp only [OverloadSystem.advance, ht, Option.some.injEq] at hsystem
    subst hsystem
    dsimp only
    rw [test_queue]
    exact h u (inWait_test ht hu)
  · rw [advance_eq ht] at hsystem
    rcases inWait_advance hsystem hu with hwait | ⟨rfl, hlocking⟩
    · rcases shutdown_advance hsystem with hclosing | hdown
      · rw [hc.2 hclosing u] at hwait
        cases hwait
      · dsimp only
        rw [hdown]
        exact h u hwait
    · rcases shutdown_advance hsystem with hclosing | hdown
      · rw [hlocking] at hclosing
        cases hclosing
      · dsimp only
        rw [hdown]
        exact hc.1 hlocking

theorem Equivalent.wakeSpuriously (h : s.Equivalent)
    (hs : (overloadThreads α).step s (.wakeSpuriously t) = some s') : s'.Equivalent := by
  rw [equivalent_iff] at h ⊢
  obtain ⟨system, hsystem, rfl⟩ := Option.map_eq_some_iff.1 hs
  simp only [queueThreads] at hsystem
  split at hsystem
  · next ht =>
    cases hsystem
    exact fun u hu => h u (inWait_moveTo hu fun _ => by rw [ht]; rfl)
  · cases hsystem

theorem Equivalent.step {e : OverloadEvent α} (h : s.Equivalent) (hc : s.WaitsInTime e)
    (hs : (overloadThreads α).step s e = some s') : s'.Equivalent := by
  cases e with
  | call t call overload => exact h.call hs
  | advance t woken => exact h.advance hc hs
  | wakeSpuriously t => exact h.wakeSpuriously hs

/-- A thread that takes the lock for the other overload, or too late. -/
theorem not_equivalent_locking {woken : Option Nat}
    (ht : s.system.threads t = .locking .waitAndPop)
    (hlate : ¬(s.overload t = .value ∧ s.system.queue.shutdown = false))
    (hs : (overloadThreads α).step s (.advance t woken) = some s') : ¬s'.Equivalent := by
  intro hequiv
  obtain ⟨system, hsystem, rfl⟩ := Option.map_eq_some_iff.1 hs
  rw [advance_eq (by rw [ht]; nofun)] at hsystem
  simp only [QueueSystem.advance, ht, QueueSystem.lock, QueueSystem.entry] at hsystem
  split at hsystem
  · cases hsystem
    refine hlate (equivalent_iff.1 hequiv t ?_)
    dsimp only
    rw [QueueSystem.moveTo_self]
    rfl
  · cases hsystem

/-- The flag is raised while a thread is in the wait. -/
theorem not_equivalent_closing {woken : Option Nat} (ht : s.system.threads t = .closing)
    (hu : (s.system.threads u).inWait = true)
    (hs : (overloadThreads α).step s (.advance t woken) = some s') : ¬s'.Equivalent := by
  intro hequiv
  obtain ⟨system, hsystem, rfl⟩ := Option.map_eq_some_iff.1 hs
  rw [advance_eq (by rw [ht]; nofun)] at hsystem
  simp only [QueueSystem.advance, ht, Option.some.injEq] at hsystem
  subst hsystem
  have hut : u ≠ t := by
    rintro rfl
    rw [ht] at hu
    cases hu
  have hwait : ((s.system.close t).threads u).inWait = true := by
    rw [QueueSystem.close, QueueSystem.moveTo_other _ _ hut, inWait_notify]
    exact hu
  have hdown := (equivalent_iff.1 hequiv u hwait).2
  cases hdown

theorem not_equivalent_step {e : OverloadEvent α} (hc : ¬s.WaitsInTime e)
    (hs : (overloadThreads α).step s e = some s') : ¬s'.Equivalent := by
  cases e with
  | advance t woken =>
    rcases Classical.not_and_iff_not_or_not.1 hc with hlate | hwait
    · obtain ⟨ht, hlate⟩ := Classical.not_imp.1 hlate
      exact not_equivalent_locking ht hlate hs
    · obtain ⟨ht, hwait⟩ := Classical.not_imp.1 hwait
      obtain ⟨u, hu⟩ := Classical.not_forall.1 hwait
      exact not_equivalent_closing ht (Bool.not_eq_false _ ▸ hu) hs
  | call t call overload => exact absurd trivial hc
  | wakeSpuriously t => exact absurd trivial hc

theorem take_queue (q : QueueSystem α) (t : Nat) : (q.take t).queue = q.queue.pop.2 := by
  unfold QueueSystem.take
  split
  · next rest hpop =>
    rw [hpop]
    exact (ProducerConsumerQueue.pop_eq_none hpop).symm
  · next hpop =>
    rw [hpop]
    rfl

/-- After the wait both overloads take the front, unless the queue is shut down. -/
theorem proceeds {woken : Option Nat} (ht : s.system.threads t = .taking)
    (hs : (overloadThreads α).step s (.advance t woken) = some s') : s.Proceeds s' t := by
  obtain ⟨system, hsystem, rfl⟩ := Option.map_eq_some_iff.1 hs
  rw [advance_eq (by rw [ht]; nofun)] at hsystem
  simp only [QueueSystem.advance, ht, Option.some.injEq] at hsystem
  subst hsystem
  refine ⟨?_, ?_, fun value => ?_, ?_⟩
  · intro front rest hqueue hopen
    simp only [QueueSystem.take, ProducerConsumerQueue.pop, hqueue, hopen]
    exact ⟨rfl, rfl⟩
  · intro hdown
    have hpop : s.system.queue.pop = (none, s.system.queue) := by
      unfold ProducerConsumerQueue.pop
      split
      · rfl
      · rw [if_pos hdown]
    simp only [QueueSystem.take, hpop]
    exact ⟨rfl, rfl⟩
  · rw [ProducerConsumerQueue.popWaitedInto_eq, take_queue]
  · intro hinhabited
    rw [ProducerConsumerQueue.popWaited_eq, take_queue]

end OverloadSystem

open OverloadSystem

/-- **The overloads of `WaitAndPop`.** The threads in a wait may proceed in the same states, those
with an element or after a shutdown, throughout a run exactly if no thread waits in
`WaitAndPop(T &)` and none is in the wait of `WaitAndPop()` after a shutdown. What a call does that
proceeds is the same for both, and right, in every state. -/
theorem equivalent_along_iff {α : Type} (events : List (OverloadEvent α)) :
    ((overloadThreads α).Along Equivalent .initial events ↔
        (overloadThreads α).Meets WaitsInTime .initial events) ∧
      ∀ (s s' : OverloadSystem α) (t : Nat) (woken : Option Nat), s.system.threads t = .taking →
        (overloadThreads α).step s (.advance t woken) = some s' → s.Proceeds s' t := by
  refine ⟨?_, fun s s' t woken ht hs => proceeds ht hs⟩
  exact Machine.along_iff_meets (fun _ h => h) (fun _ _ _ h hc hs => h.step hc hs)
    (fun _ _ _ _ hc hs => not_equivalent_step hc hs) fun _ hu => nomatch hu

/-- One thread calls `WaitAndPop(T &)`; the queue is empty, and the thread does not wait. -/
theorem empty_queue_passed : ¬∀ events : List (OverloadEvent String),
    (overloadThreads String).Along Equivalent .initial events := by
  intro h
  have hequiv := ((h [.call 0 .waitAndPop .into, .advance 0 none]).2 _ rfl).2 _ rfl
  rcases (hequiv 0 rfl).1 rfl with hne | hdown
  · exact hne rfl
  · cases hdown

end GameServer.Threading
