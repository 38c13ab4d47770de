import GameServer.Database.DatabaseWorker

/-!
# A worker whose tasks throw

One worker serves a queue that is never shut down. The handlers of `WorkThread` stand around its
loop: an exception is logged and ends the thread. The tasks executed are always a prefix of the
tasks pushed, and a worker in its loop executes the next one (`exists_run_executes`); the worker
is in its loop as long as something is left to do exactly in the runs of `serving_along_iff`.

`pushed`, `executed` and `thrown` are the tasks handed in, those whose `Execute` has ended, and
those that threw; no code reads them.
-/

namespace GameServer.Database

open GameServer.Lib GameServer.Threading

structure TaskWorker where
  system : WorkerSystem
  /-- How many exceptions `WorkThread` has logged. -/
  logged : Nat
  pushed : List Nat
  executed : List Nat
  thrown : List Nat
  deriving DecidableEq, Repr

inductive TaskEvent where
  | push (operation : Nat) (woken : Option Nat)
  /-- The next step of the worker; `throws` says how `Execute` ends. -/
  | work (throws : Bool)
  | wakeSpuriously
  deriving DecidableEq, Repr

namespace TaskWorker

def started : TaskWorker := ⟨.started 1, 0, [], [], []⟩

/-- The end of `Execute`: back to the loop, or to the handler behind it. -/
def finish (s : TaskWorker) (w : DatabaseWorker) (operation : Nat) (throws : Bool) : TaskWorker :=
  let s := { s with executed := s.executed ++ [operation] }
  if throws then
    { s with
      system := s.system.setWorker 0 { w with place := .exited }
      logged := s.logged + 1
      thrown := s.thrown ++ [operation] }
  else { s with system := s.system.setWorker 0 { w with place := .top } }

def workThread (s : TaskWorker) (w : DatabaseWorker) (throws : Bool) : Option TaskWorker :=
  match w.place with
  | .executing operation => some (s.finish w operation throws)
  | _ => (s.system.workThread 0 w).map fun system => { s with system }

end TaskWorker

def taskWorker : Machine TaskWorker TaskEvent where
  init s := s = .started
  step s
    | .push operation woken =>
      ((workerMachine 1).step s.system (.push (some operation) woken)).map fun system =>
        { s with system, pushed := s.pushed ++ [operation] }
    | .work throws =>
      match s.system.workers[0]? with
      | none => none
      | some w => s.workThread w throws
    | .wakeSpuriously =>
      ((workerMachine 1).step s.system (.wakeSpuriously 0)).map fun system => { s with system }

namespace TaskWorker

/-- `WorkThread` has not returned. -/
def InLoop (s : TaskWorker) : Prop :=
  ∃ w, s.system.workers[0]? = some w ∧ w.place ≠ .exited

/-- What is executed is a prefix of what was pushed; as long as something is left the worker is in
its loop and can execute the next task; and every exception was logged. -/
structure Serving (s : TaskWorker) : Prop where
  inOrder : s.executed <+: s.pushed
  serves : s.executed ≠ s.pushed → s.InLoop ∧ ∃ next steps t,
    s.executed ++ [next] <+: s.pushed ∧
      taskWorker.run s (List.replicate steps (.work false)) = some t ∧
      t.executed = s.executed ++ [next] ∧ t.pushed = s.pushed
  logged : s.logged = s.thrown.length

/-- A task throws only if nothing is queued behind it, and nothing is pushed after that. -/
def Unharmed (s : TaskWorker) : TaskEvent → Prop
  | .push _ _ => s.InLoop
  | .work throws => throws = true →
    (∀ w operation, s.system.workers[0]? = some w → w.place = .executing operation →
      s.system.queue.queue = [])
  | .wakeSpuriously => True

/-! ## The invariant -/

/-- The task that the worker has taken and not executed yet. -/
def heldAt : WorkerPlace → List Nat
  | .holding (some operation) => [operation]
  | .executing operation => [operation]
  | _ => []

/-- The worker at its place `w`, and the tasks that are queued. -/
structure At (s : TaskWorker) (w : DatabaseWorker) (queued : List Nat) : Prop where
  workers : s.system.workers = [w]
  queue : s.system.queue = ⟨queued.map some, false⟩
  canceling : w.canceling = false
  holding : w.place ≠ .holding none
  /-- A worker that sleeps with tasks in the queue has been notified. -/
  awake : w.place = .waiting false → queued = []
  pushed : s.pushed = s.executed ++ heldAt w.place ++ queued
  logged : s.logged = s.thrown.length

variable {s t : TaskWorker} {w : DatabaseWorker} {queued : List Nat}

theorem at_started : At started ⟨.top, false, .notCalled⟩ [] :=
  ⟨rfl, rfl, rfl, nofun, fun _ => rfl, rfl, rfl⟩

theorem At.worker_eq (h : At s w queued) {v : DatabaseWorker}
    (hv : s.system.workers[0]? = some v) : v = w := by
  rw [h.workers] at hv
  exact (Option.some.inj hv).symm

theorem At.work_eq (h : At s w queued) (throws : Bool) :
    taskWorker.step s (.work throws) = s.workThread w throws := by
  simp only [taskWorker, h.workers, List.getElem?_cons_zero]

/-- The worker goes to another place, with the queue and the ghosts as they are. -/
theorem At.move (h : At s w queued) (place : WorkerPlace) (hheld : heldAt place = heldAt w.place)
    (hholding : place ≠ .holding none) (hawake : place = .waiting false → queued = []) :
    At { s with system := s.system.setWorker 0 { w with place } } { w with place } queued where
  workers := by
    simp only [WorkerSystem.setWorker, h.workers, List.set_cons_zero]
  queue := h.queue
  canceling := h.canceling
  holding := hholding
  awake := hawake
  pushed := by
    rw [hheld]
    exact h.pushed
  logged := h.logged

/-- A worker that is not canceled executes the task it has taken. -/
theorem At.workThread_holding (h : At s w queued) {operation : Nat}
    (hplace : w.place = .holding (some operation)) : s.system.workThread 0 w =
      some (s.system.setWorker 0 { w with place := .executing operation }) := by
  have hgo : (if w.canceling = true then WorkerPlace.exited else .executing operation) =
      .executing operation := by
    rw [h.canceling]
    rfl
  unfold WorkerSystem.workThread
  rw [hplace]
  simp only [hgo]

/-- **The test of the wait condition** takes the front task, or the worker sleeps. -/
theorem At.testWait (h : At s w queued) (hheld : heldAt w.place = []) :
    (queued = [] ∧ At { s with system := s.system.testWait 0 w }
      { w with place := .waiting false } []) ∨
    ∃ next rest, queued = next :: rest ∧ At { s with system := s.system.testWait 0 w }
      { w with place := .holding (some next) } rest := by
  have hpushed := h.pushed
  rw [hheld, List.append_nil] at hpushed
  cases queued with
  | nil =>
    left
    have heq : s.system.testWait 0 w = s.system.setWorker 0 { w with place := .waiting false } := by
      unfold WorkerSystem.testWait
      rw [h.queue]
      rfl
    rw [heq]
    exact ⟨rfl, h.move _ hheld.symm nofun fun _ => rfl⟩
  | cons next rest =>
    right
    refine ⟨next, rest, rfl, ?_⟩
    have heq : s.system.testWait 0 w =
        ⟨⟨rest.map some, false⟩, [{ w with place := .holding (some next) }]⟩ := by
      unfold WorkerSystem.testWait WorkerSystem.setWorker
      rw [h.queue, h.workers]
      rfl
    rw [heq]
    refine ⟨rfl, rfl, h.canceling, nofun, nofun, ?_, h.logged⟩
    rw [hpushed, List.append_assoc]
    rfl

/-- The end of `Execute`. -/
theorem At.finish (h : At s w queued) {operation : Nat} (hplace : w.place = .executing operation)
    (throws : Bool) : At (s.finish w operation throws)
      { w with place := if throws then .exited else .top } queued := by
  have hpushed := h.pushed
  rw [hplace] at hpushed
  cases throws with
  | false =>
    refine ⟨?_, h.queue, h.canceling, nofun, nofun, ?_, h.logged⟩
    · simp [TaskWorker.finish, WorkerSystem.setWorker, h.workers]
    · simpa [TaskWorker.finish, heldAt] using hpushed
  | true =>
    refine ⟨?_, h.queue, h.canceling, nofun, nofun, ?_, ?_⟩
    · simp [TaskWorker.finish, WorkerSystem.setWorker, h.workers]
    · simpa [TaskWorker.finish, heldAt] using hpushed
    · simp [TaskWorker.finish, h.logged]

/-! ## Steps -/

/-- The task that an event pushes. -/
def pushedBy : TaskEvent → List Nat
  | .push operation _ => [operation]
  | _ => []

/-- The thread has ended after the event: it had before, or `Execute` throws. -/
def Ends (w : DatabaseWorker) : TaskEvent → Prop
  | .push _ _ => w.place = .exited
  | .work throws => throws = true ∧ ∃ operation, w.place = .executing operation
  | .wakeSpuriously => False

/-- The state after an event: where the worker is and what is queued. -/
def After (t : TaskWorker) (w : DatabaseWorker) (queued : List Nat) (e : TaskEvent) : Prop :=
  ∃ v rest, At t v rest ∧ (v.place = .exited ↔ Ends w e) ∧
    (v.place = .exited → rest = queued ++ pushedBy e)

theorem At.push (h : At s w queued) {operation : Nat} {woken : Option Nat}
    (ht : taskWorker.step s (.push operation woken) = some t) :
    After t w queued (.push operation woken) := by
  obtain ⟨system, hsystem, rfl⟩ := Option.map_eq_some_iff.1 ht
  have hpushed : s.pushed ++ [operation] =
      s.executed ++ heldAt w.place ++ (queued ++ [operation]) := by
    rw [h.pushed, List.append_assoc _ queued]
  have hqueue : (s.system.queue.push (some operation)) =
      ⟨(queued ++ [operation]).map some, false⟩ := by
    rw [h.queue, List.map_append]
    rfl
  cases woken with
  | none =>
    -- nobody sleeps
    simp only [workerMachine, WorkerSystem.notifyOne] at hsystem
    obtain ⟨hall, rfl⟩ := Option.ite_none_right_eq_some.1 hsystem |>.imp_right Option.some.inj
    have hawake : w.place ≠ .waiting false := by
      rw [h.workers] at hall
      simpa using hall
    exact ⟨w, queued ++ [operation], ⟨h.workers, hqueue, h.canceling, h.holding,
      fun hp => absurd hp hawake, hpushed, h.logged⟩, Iff.rfl, fun _ => rfl⟩
  | some u =>
    simp only [workerMachine, WorkerSystem.notifyOne] at hsystem
    split at hsystem
    · cases hsystem
    · next v hv =>
      obtain ⟨hplace, rfl⟩ := Option.ite_none_right_eq_some.1 hsystem |>.imp_right Option.some.inj
      rw [h.workers] at hv
      obtain ⟨rfl, rfl⟩ : 0 = u ∧ w = v := by
        cases u with
        | zero => exact ⟨rfl, Option.some.inj hv⟩
        | succ u => cases hv
      refine ⟨{ w with place := .waiting true }, queued ++ [operation], ⟨?_, hqueue, h.canceling,
        nofun, nofun, ?_, h.logged⟩, ?_, nofun⟩
      · simp only [WorkerSystem.setWorker, h.workers, List.set_cons_zero]
      · rw [hpushed, hplace]
        rfl
      · simp [Ends, hplace]

theorem At.wake (h : At s w queued) (ht : taskWorker.step s .wakeSpuriously = some t) :
    After t w queued .wakeSpuriously := by
  obtain ⟨system, hsystem, rfl⟩ := Option.map_eq_some_iff.1 ht
  simp only [workerMachine, h.workers, List.getElem?_cons_zero] at hsystem
  obtain ⟨hwaiting, rfl⟩ := Option.ite_none_right_eq_some.1 hsystem |>.imp_right Option.some.inj
  cases hplace : w.place with
  | waiting notified =>
    have hmove := h.move (.waiting true) (by rw [hplace]; rfl) nofun nofun
    refine ⟨_, queued, hmove, iff_of_false nofun id, nofun⟩
  | _ =>
    rw [hplace] at hwaiting
    cases hwaiting

theorem At.work (h : At s w queued) {throws : Bool}
    (ht : taskWorker.step s (.work throws) = some t) : After t w queued (.work throws) := by
  rw [h.work_eq] at ht
  have htest : heldAt w.place = [] → (∀ operation, w.place ≠ .executing operation) →
      After { s with system := s.system.testWait 0 w } w queued (.work throws) := by
    intro hheld hne
    have hends : ¬Ends w (.work throws) := fun ⟨_, operation, hplace⟩ => hne operation hplace
    rcases h.testWait hheld with ⟨-, hat⟩ | ⟨next, rest, -, hat⟩
    · exact ⟨_, [], hat, iff_of_false nofun hends, nofun⟩
    · exact ⟨_, rest, hat, iff_of_false nofun hends, nofun⟩
  unfold TaskWorker.workThread WorkerSystem.workThread at ht
  cases hplace : w.place with
  | executing operation =>
    rw [hplace] at ht
    cases ht
    refine ⟨_, queued, h.finish hplace throws, ?_, fun _ => (List.append_nil _).symm⟩
    cases throws <;> simp [Ends, hplace]
  | top =>
    rw [hplace] at ht
    cases ht
    exact htest (by rw [hplace]; rfl) (by simp [hplace])
  | waiting notified =>
    rw [hplace] at ht
    cases notified with
    | false => cases ht
    | true =>
      cases ht
      exact htest (by rw [hplace]; rfl) (by simp [hplace])
  | holding operation =>
    cases operation with
    | none => exact absurd hplace h.holding
    | some operation =>
      have hgo := h.workThread_holding hplace
      unfold WorkerSystem.workThread at hgo
      rw [hplace] at ht hgo
      simp only [hgo, Option.map_some] at ht
      cases ht
      have hmove := h.move (.executing operation) (by rw [hplace]; rfl) nofun nofun
      refine ⟨_, queued, hmove, iff_of_false nofun ?_, nofun⟩
      simp [Ends, hplace]
  | exited =>
    rw [hplace] at ht
    cases ht

/-- **One event.** -/
theorem At.step (h : At s w queued) {e : TaskEvent} (ht : taskWorker.step s e = some t) :
    After t w queued e := by
  cases e with
  | push operation woken => exact h.push ht
  | work throws => exact h.work ht
  | wakeSpuriously => exact h.wake ht

/-! ## The next task -/

/-- Steps of the worker after which `next` has been executed. -/
def Executes (s : TaskWorker) (next : Nat) : Prop :=
  ∃ steps t, taskWorker.run s (List.replicate steps (.work false)) = some t ∧
    t.executed = s.executed ++ [next] ∧ t.pushed = s.pushed

/-- A step that executes nothing comes before. -/
theorem Executes.of_step {next : Nat} (h : t.Executes next)
    (ht : taskWorker.step s (.work false) = some t) (hexecuted : t.executed = s.executed)
    (hpushed : t.pushed = s.pushed) : s.Executes next := by
  obtain ⟨steps, u, hrun, hu, hp⟩ := h
  refine ⟨steps + 1, u, ?_, hu.trans (by rw [hexecuted]), hp.trans hpushed⟩
  rw [List.replicate_succ, Machine.run_cons, ht]
  exact hrun

theorem At.executes_executing (h : At s w queued) {operation : Nat}
    (hplace : w.place = .executing operation) : s.Executes operation := by
  refine ⟨1, s.finish w operation false, ?_, rfl, rfl⟩
  rw [List.replicate_one, Machine.run_cons, h.work_eq, TaskWorker.workThread, hplace]
  rfl

theorem At.executes_holding (h : At s w queued) {operation : Nat}
    (hplace : w.place = .holding (some operation)) : s.Executes operation := by
  have hmove := h.move (.executing operation) (by rw [hplace]; rfl) nofun nofun
  refine (hmove.executes_executing rfl).of_step ?_ rfl rfl
  rw [h.work_eq, TaskWorker.workThread, hplace]
  simp only [h.workThread_holding hplace, Option.map_some]

theorem At.executes_front (h : At s w queued) {next : Nat} {rest : List Nat}
    (hplace : w.place = .top ∨ w.place = .waiting true) (hqueued : queued = next :: rest) :
    s.Executes next := by
  have hheld : heldAt w.place = [] := by
    rcases hplace with hplace | hplace <;> rw [hplace] <;> rfl
  have hstep : taskWorker.step s (.work false) =
      some { s with system := s.system.testWait 0 w } := by
    rw [h.work_eq]
    rcases hplace with hplace | hplace <;>
      simp only [TaskWorker.workThread, WorkerSystem.workThread, hplace, if_true, Option.map_some]
  rcases h.testWait hheld with ⟨hnil, -⟩ | ⟨next', rest', hcons, hat⟩
  · rw [hqueued] at hnil
    cases hnil
  · rw [hqueued, List.cons.injEq] at hcons
    obtain ⟨rfl, rfl⟩ := hcons
    exact (hat.executes_holding rfl).of_step hstep rfl rfl

/-- **A worker in its loop executes the next task.** -/
theorem At.executes (h : At s w queued) (hplace : w.place ≠ .exited) {next : Nat}
    {rest : List Nat} (hnext : heldAt w.place ++ queued = next :: rest) : s.Executes next := by
  cases hp : w.place with
  | exited => exact absurd hp hplace
  | executing operation =>
    rw [hp] at hnext
    cases hnext
    exact h.executes_executing hp
  | holding operation =>
    cases operation with
    | none => exact absurd hp h.holding
    | some operation =>
      rw [hp] at hnext
      cases hnext
      exact h.executes_holding hp
  | top =>
    rw [hp] at hnext
    exact h.executes_front (.inl hp) hnext
  | waiting notified =>
    rw [hp] at hnext
    cases notified with
    | true => exact h.executes_front (.inr hp) hnext
    | false =>
      rw [h.awake hp] at hnext
      cases hnext

/-! ## Serving -/

/-- The worker serves exactly as long as it has not left tasks behind. -/
theorem At.serving_iff (h : At s w queued) :
    s.Serving ↔ (w.place = .exited → queued = []) := by
  have hpushed : s.pushed = s.executed ++ (heldAt w.place ++ queued) := by
    rw [h.pushed, List.append_assoc]
  constructor
  · intro hserving hexited
    by_contra hne
    have hleft : s.executed ≠ s.pushed := by
      rw [hpushed, hexited]
      exact fun heq => hne (List.self_eq_append_right.1 heq)
    obtain ⟨⟨v, hv, hplace⟩, -⟩ := hserving.serves hleft
    rw [h.worker_eq hv] at hplace
    exact hplace hexited
  · intro hexited
    refine ⟨⟨_, hpushed.symm⟩, fun hleft => ?_, h.logged⟩
    obtain ⟨next, rest, hnext⟩ : ∃ next rest, heldAt w.place ++ queued = next :: rest := by
      apply List.exists_cons_of_ne_nil
      intro hnil
      rw [hnil, List.append_nil] at hpushed
      exact hleft hpushed.symm
    have hplace : w.place ≠ .exited := by
      intro hp
      rw [hp, hexited hp] at hnext
      cases hnext
    obtain ⟨steps, t, hrun, hexecuted, hsame⟩ := h.executes hplace hnext
    refine ⟨⟨w, by rw [h.workers]; rfl, hplace⟩, next, steps, t, ⟨rest, ?_⟩, hrun, hexecuted,
      hsame⟩
    rw [hpushed, hnext, List.append_assoc]
    rfl

/-- The guard: where the event ends the thread nothing is left in the queue. -/
theorem At.unharmed_iff (h : At s w queued) (e : TaskEvent) :
    s.Unharmed e ↔ (Ends w e → queued ++ pushedBy e = []) := by
  have hqueue : s.system.queue.queue = [] ↔ queued = [] := by
    rw [h.queue]
    exact List.map_eq_nil_iff
  cases e with
  | push operation woken =>
    simp only [Unharmed, Ends, pushedBy, List.append_eq_nil_iff, List.cons_ne_nil, and_false,
      imp_false]
    constructor
    · rintro ⟨v, hv, hplace⟩
      rwa [h.worker_eq hv] at hplace
    · exact fun hplace => ⟨w, by rw [h.workers]; rfl, hplace⟩
  | work throws =>
    simp only [Unharmed, Ends, pushedBy, List.append_nil]
    constructor
    · rintro hc ⟨hthrows, operation, hplace⟩
      exact hqueue.1 (hc hthrows w operation (by rw [h.workers]; rfl) hplace)
    · intro hc hthrows v operation hv hplace
      rw [h.worker_eq hv] at hplace
      exact hqueue.2 (hc ⟨hthrows, operation, hplace⟩)
  | wakeSpuriously => exact iff_of_true trivial False.elim

theorem At.step_serving_iff (h : At s w queued) {e : TaskEvent}
    (ht : taskWorker.step s e = some t) :
    (∃ v rest, At t v rest) ∧ (t.Serving ↔ s.Unharmed e) := by
  obtain ⟨v, rest, hat, hends, hrest⟩ := h.step ht
  refine ⟨⟨v, rest, hat⟩, ?_⟩
  rw [hat.serving_iff, h.unharmed_iff, hends]
  constructor
  · intro hnil hend
    rw [← hrest (hends.2 hend)]
    exact hnil hend
  · intro hnil hend
    rw [hrest (hends.2 hend)]
    exact hnil hend

end TaskWorker

open TaskWorker

/-- **Exceptions of tasks.** In every state of a run the executed tasks are a prefix of the pushed
ones, and as long as it is a proper one the worker is in its loop and executes the next task,
exactly if in the run a task throws only with nothing queued behind it, and nothing is pushed once
one has thrown. -/
theorem serving_along_iff (events : List TaskEvent) :
    taskWorker.Along Serving started events ↔ taskWorker.Meets Unharmed started events := by
  refine Machine.along_iff_meets
    (I := fun s : TaskWorker => s.Serving ∧ ∃ w queued, At s w queued) (fun _ h => h.1) ?_ ?_ ?_
  · rintro s e t ⟨-, w, queued, h⟩ hc ht
    obtain ⟨hat, hserving⟩ := h.step_serving_iff ht
    exact ⟨hserving.2 hc, hat⟩
  · rintro s e t ⟨-, w, queued, h⟩ hc ht hserving
    exact hc ((h.step_serving_iff ht).2.1 hserving)
  · exact ⟨at_started.serving_iff.2 nofun, _, _, at_started⟩

/-- Two tasks, of which the first throws: the thread ends and the second is never executed. -/
theorem later_task_abandoned : ¬∀ s, taskWorker.Reach s → s.Serving := by
  intro h
  have hrun : taskWorker.run started [.push 1 none, .push 2 none, .work false, .work false,
      .work true] =
        some ⟨⟨⟨[some 2], false⟩, [⟨.exited, false, .notCalled⟩]⟩, 1, [1, 2], [1], [1]⟩ := by
    decide
  obtain ⟨⟨v, hv, hplace⟩, -⟩ := (h _ (Machine.reach_of_run rfl hrun)).serves (by decide)
  cases hv
  exact hplace rfl

end GameServer.Database
