import GameServer.Database.DatabaseWorker

/-!
# Workers at shutdown

After `Clear` no worker should be stuck in `WaitAndPop()` (`NoneStuck`). The wait condition is
false once the shutdown flag is up, so a worker that waits at that time, or begins to wait later,
waits for ever (`waiting_forever`), and the destructor that joins it never returns
(`join_never_returns`). No worker is stuck exactly in the runs of `noneStuck_along_iff`.
-/

namespace GameServer.Database

open GameServer.Lib GameServer.Threading

namespace WorkerSystem

/-- The thread `t` is blocked in `WaitAndPop()`. -/
def Waiting (s : WorkerSystem) (t : Nat) : Prop := ∃ w, s.workers[t]? = some w ∧ w.place.isWaiting

/-- After `Clear` the wait condition of every blocked thread is true, and each of them can still
leave its wait. -/
structure NoneStuck (n : Nat) (s : WorkerSystem) : Prop where
  condition : s.queue.shutdown = true → ∀ t, s.Waiting t → s.queue.waitCondition = true
  leaves : s.queue.shutdown = true → ∀ t, s.Waiting t →
    ∃ events s', (workerMachine n).run s events = some s' ∧ ¬s'.Waiting t

def Clears (s : WorkerSystem) : WorkerEvent → Prop
  | .destroy t => ∃ w, s.workers[t]? = some w ∧ w.destructor = .clearing
  | .clear => True
  | _ => False

def Calls (s : WorkerSystem) : WorkerEvent → Prop
  | .work t => ∃ w, s.workers[t]? = some w ∧ w.place = .top
  | _ => False

/-- `Clear` finds no thread blocked, and `WaitAndPop()` is not called after it. -/
def Orderly (s : WorkerSystem) (e : WorkerEvent) : Prop :=
  (s.Clears e → ∀ t, ¬s.Waiting t) ∧ (s.Calls e → s.queue.shutdown = false)

/-- The invariant: nobody is blocked after `Clear`. -/
def NoneWaiting (s : WorkerSystem) : Prop := s.queue.shutdown = true → ∀ t, ¬s.Waiting t

variable {n : Nat} {s s' : WorkerSystem} {t u : Nat} {w v : DatabaseWorker} {e : WorkerEvent}

theorem NoneWaiting.noneStuck (h : s.NoneWaiting) : s.NoneStuck n :=
  ⟨fun hs t ht => absurd ht (h hs t), fun hs t ht => absurd ht (h hs t)⟩

theorem not_noneStuck (hs : s.queue.shutdown = true) (ht : s.Waiting t) : ¬s.NoneStuck n := by
  intro h
  have := h.condition hs t ht
  rw [ProducerConsumerQueue.waitCondition_of_shutdown hs] at this
  cases this

/-! ## Who waits after a step -/

theorem waiting_setWorker_iff (hw : s.workers[t]? = some w) :
    (s.setWorker t v).Waiting u ↔ if u = t then v.place.isWaiting = true else s.Waiting u := by
  obtain ⟨hlt, -⟩ := List.getElem?_eq_some_iff.1 hw
  unfold Waiting setWorker
  simp only [List.getElem?_set]
  by_cases hu : t = u
  · subst hu
    simp [hlt]
  · simp [hu, Ne.symm hu]

theorem waiting_notifyAll_iff : s.notifyAll.Waiting t ↔ s.Waiting t := by
  unfold Waiting notifyAll
  simp only [List.getElem?_map]
  cases s.workers[t]? with
  | none => simp
  | some w => cases hp : w.place <;> simp [hp, WorkerPlace.notify, WorkerPlace.isWaiting]

theorem waiting_iff (hw : s.workers[t]? = some w) : s.Waiting t ↔ w.place.isWaiting = true := by
  simp [Waiting, hw]

/-- A thread that keeps waiting, or keeps not waiting, makes no difference. -/
theorem waiting_setWorker_same (hw : s.workers[t]? = some w)
    (hv : v.place.isWaiting = w.place.isWaiting) : (s.setWorker t v).Waiting u ↔ s.Waiting u := by
  rw [waiting_setWorker_iff hw, hv]
  split
  · next hu => rw [hu, waiting_iff hw]
  · exact Iff.rfl

theorem waiting_notifyOne_iff {woken : Option Nat} (h : s.notifyOne woken = some s') :
    s'.queue = s.queue ∧ (s'.Waiting u ↔ s.Waiting u) := by
  unfold notifyOne at h
  split at h
  · split at h
    · cases h
      exact ⟨rfl, Iff.rfl⟩
    · cases h
  · split at h
    · cases h
    · next w hw =>
      split at h
      · next hp =>
        cases h
        exact ⟨rfl, waiting_setWorker_same hw (by rw [hp]; rfl)⟩
      · cases h

theorem testWait_spec (hw : s.workers[t]? = some w) :
    (s.testWait t w).queue.shutdown = s.queue.shutdown ∧
      ((s.testWait t w).Waiting u ↔
        if u = t then s.queue.waitCondition = false else s.Waiting u) := by
  unfold testWait
  cases hc : s.queue.waitCondition with
  | true =>
    refine ⟨ProducerConsumerQueue.popWaited_shutdown _, ?_⟩
    refine (waiting_setWorker_iff (s := { s with queue := s.queue.popWaited.2 }) hw).trans ?_
    split
    · simp [WorkerPlace.isWaiting]
    · exact Iff.rfl
  | false =>
    refine ⟨rfl, (waiting_setWorker_iff hw).trans ?_⟩
    split
    · simp [WorkerPlace.isWaiting]
    · exact Iff.rfl

/-- **What a step does to the waiting threads.** -/
inductive WaitEffect (s s' : WorkerSystem) (e : WorkerEvent) : Prop
  /-- It leaves them alone. -/
  | keep (hclears : ¬s.Clears e) (hcalls : ¬s.Calls e)
      (hdown : s'.queue.shutdown = s.queue.shutdown) (hwait : ∀ u, s'.Waiting u ↔ s.Waiting u)
  /-- One thread tests the wait condition, at its call of `WaitAndPop()` or when it is woken. -/
  | test (t : Nat) (hclears : ¬s.Clears e) (hcalls : s.Calls e ∨ s.Waiting t)
      (hdown : s'.queue.shutdown = s.queue.shutdown)
      (hwait : ∀ u, s'.Waiting u ↔
        if u = t then s.queue.waitCondition = false else s.Waiting u)
  /-- The queue is cleared. -/
  | clear (hclears : s.Clears e) (hcalls : ¬s.Calls e) (hdown : s'.queue.shutdown = true)
      (hwait : ∀ u, s'.Waiting u ↔ s.Waiting u)

theorem workThread_effect (hw : s.workers[t]? = some w) (h : s.workThread t w = some s') :
    WaitEffect s s' (.work t) := by
  have hcalls : s.Calls (.work t) ↔ w.place = .top := by simp [Calls, hw]
  have hwait := waiting_iff hw
  have htest : w.place.isWaiting = true ∨ w.place = .top →
      WaitEffect s (s.testWait t w) (.work t) := by
    intro hplace
    have hspec := fun u => testWait_spec (u := u) hw
    refine .test t id ?_ (hspec 0).1 fun u => (hspec u).2
    rcases hplace with hp | hp
    · exact .inr (hwait.2 hp)
    · exact .inl (hcalls.2 hp)
  -- the thread was not waiting and is not waiting afterwards
  have hmove : ∀ place, w.place ≠ .top → w.place.isWaiting = false → place.isWaiting = false →
      WaitEffect s (s.setWorker t { w with place }) (.work t) := by
    intro place htop hp hplace
    refine .keep id ?_ rfl ?_
    · rw [hcalls]
      exact htop
    · intro u
      apply waiting_setWorker_same hw
      rw [hp]
      exact hplace
  unfold workThread at h
  split at h
  · next hp =>
    cases h
    exact htest (.inr hp)
  · next hp =>
    split at h
    · cases h
      apply htest
      rw [hp]
      exact .inl rfl
    · cases h
  · next hp =>
    cases h
    apply hmove
    all_goals simp [hp, WorkerPlace.isWaiting]
  · next hp =>
    cases h
    apply hmove
    · simp [hp]
    · simp [hp, WorkerPlace.isWaiting]
    · cases w.canceling <;> rfl
  · next hp =>
    cases h
    apply hmove
    all_goals simp [hp, WorkerPlace.isWaiting]
  · cases h

theorem destroy_effect (hw : s.workers[t]? = some w) (h : s.destroy t w = some s') :
    WaitEffect s s' (.destroy t) := by
  have hclears : s.Clears (.destroy t) ↔ w.destructor = .clearing := by simp [Clears, hw]
  have hkeep : w.destructor ≠ .clearing → ∀ canceling destructor,
      WaitEffect s (s.setWorker t { w with canceling, destructor }) (.destroy t) := by
    intro hne canceling destructor
    refine .keep ?_ id rfl ?_
    · rw [hclears]
      exact hne
    · intro u
      exact waiting_setWorker_same hw rfl
  unfold WorkerSystem.destroy at h
  split at h
  · next hd =>
    cases h
    apply hkeep
    simp [hd]
  · next hd =>
    cases h
    refine .clear (hclears.2 hd) id rfl ?_
    intro u
    exact waiting_notifyAll_iff.trans (waiting_setWorker_same hw rfl)
  · next hd =>
    split at h
    · cases h
      apply hkeep
      simp [hd]
    · cases h
  · cases h

theorem step_effect (h : (workerMachine n).step s e = some s') : WaitEffect s s' e := by
  cases e with
  | push operation woken =>
    have hq := fun u => waiting_notifyOne_iff (u := u) h
    refine .keep id id ?_ ?_
    · rw [(hq 0).1]
      rfl
    · intro u
      exact (hq u).2
  | pop =>
    cases h
    exact .keep id id (ProducerConsumerQueue.pop_shutdown _) fun _ => Iff.rfl
  | clear =>
    cases h
    exact .clear trivial id rfl fun _ => waiting_notifyAll_iff
  | wakeSpuriously t =>
    simp only [workerMachine] at h
    split at h
    · cases h
    · next w hw =>
      split at h
      · cases h
        refine .keep id id rfl ?_
        intro u
        apply waiting_setWorker_same hw
        cases w.place <;> rfl
      · cases h
  | work t =>
    simp only [workerMachine] at h
    split at h
    · cases h
    · next w hw => exact workThread_effect hw h
  | destroy t =>
    simp only [workerMachine] at h
    split at h
    · cases h
    · next w hw => exact destroy_effect hw h

/-! ## Steps -/

theorem NoneWaiting.step (h : s.NoneWaiting) (hc : s.Orderly e)
    (hs : (workerMachine n).step s e = some s') : s'.NoneWaiting := by
  intro hup u hu
  cases step_effect hs with
  | keep _ _ hdown hwait => exact h (hdown ▸ hup) u ((hwait u).1 hu)
  | test t _ hcalls hdown _ =>
    rw [hdown] at hup
    rcases hcalls with hcalls | ht
    · rw [hc.2 hcalls] at hup
      cases hup
    · exact h hup t ht
  | clear hclears _ _ hwait => exact hc.1 hclears u ((hwait u).1 hu)

theorem NoneWaiting.not_noneStuck_step (hc : ¬s.Orderly e)
    (hs : (workerMachine n).step s e = some s') : ¬s'.NoneStuck n := by
  simp only [Orderly, not_and_or, not_forall, not_not, Bool.not_eq_false] at hc
  rcases hc with ⟨hclears, t, ht⟩ | ⟨hcalls, hup⟩
  · -- `Clear` finds a thread blocked
    cases step_effect hs with
    | keep hnot => exact absurd hclears hnot
    | test _ hnot => exact absurd hclears hnot
    | clear _ _ hdown hwait => exact not_noneStuck hdown ((hwait t).2 ht)
  · -- a thread calls `WaitAndPop()` after `Clear`
    cases step_effect hs with
    | keep _ hnot => exact absurd hcalls hnot
    | test t _ _ hdown hwait =>
      apply not_noneStuck (hdown.trans hup) (t := t)
      rw [hwait, if_pos rfl]
      exact ProducerConsumerQueue.waitCondition_of_shutdown hup
    | clear _ hnot => exact absurd hcalls hnot

/-- A thread blocked after `Clear` is still blocked after any step. -/
theorem Waiting.step (hup : s.queue.shutdown = true) (ht : s.Waiting t)
    (hs : (workerMachine n).step s e = some s') : s'.queue.shutdown = true ∧ s'.Waiting t := by
  cases step_effect hs with
  | keep _ _ hdown hwait => exact ⟨hdown.trans hup, (hwait t).2 ht⟩
  | test u _ _ hdown hwait =>
    refine ⟨hdown.trans hup, (hwait t).2 ?_⟩
    split
    · exact ProducerConsumerQueue.waitCondition_of_shutdown hup
    · exact ht
  | clear _ _ hdown hwait => exact ⟨hdown, (hwait t).2 ht⟩

end WorkerSystem

open WorkerSystem

variable {n : Nat} {s s' : WorkerSystem} {t : Nat} {events : List WorkerEvent}

/-- **A worker blocked after `Clear` waits for ever**: it is blocked at the end of every run. -/
theorem waiting_forever (hdown : s.queue.shutdown = true) (ht : s.Waiting t)
    (h : (workerMachine n).run s events = some s') : s'.Waiting t := by
  induction events generalizing s with
  | nil => cases h; exact ht
  | cons e events ih =>
    rw [Machine.run_cons] at h
    obtain ⟨s₁, hs₁, hrest⟩ := Option.bind_eq_some_iff.1 h
    obtain ⟨hdown₁, ht₁⟩ := ht.step hdown hs₁
    exact ih hdown₁ ht₁ hrest

/-- The destructor that joins it has no further step: the join is a deadlock. -/
theorem join_never_returns {w : DatabaseWorker} (hw : s.workers[t]? = some w) (ht : s.Waiting t)
    (hjoin : w.destructor = .joining) : (workerMachine n).step s (.destroy t) = none := by
  have hplace : w.place ≠ .exited := by
    intro hp
    have := (waiting_iff hw).1 ht
    rw [hp] at this
    cases this
  simp only [workerMachine, hw, WorkerSystem.destroy, hjoin, if_neg hplace]

/-- **Shutdown.** No worker is stuck in any state of a run exactly if every `Clear` of the run
finds no thread blocked and `WaitAndPop()` is not called after it. -/
theorem noneStuck_along_iff (n : Nat) (events : List WorkerEvent) :
    (workerMachine n).Along (NoneStuck n) (started n) events ↔
      (workerMachine n).Meets Orderly (started n) events :=
  Machine.along_iff_meets (I := NoneWaiting) (fun _ h => h.noneStuck)
    (fun _ _ _ h hc hs => h.step hc hs) (fun _ _ _ _ hc hs => NoneWaiting.not_noneStuck_step hc hs)
    fun h => nomatch h

/-- An idle worker, and its destructor: the worker is blocked, `Clear` does not release it. -/
theorem worker_stuck : ¬∀ n events,
    (workerMachine n).Along (NoneStuck n) (started n) events := by
  intro h
  have hstuck := (((h 1 [.work 0, .destroy 0, .destroy 0]).2 _ rfl).2 _ rfl).2 _ rfl
  exact Bool.false_ne_true (hstuck.condition rfl 0 ⟨_, rfl, rfl⟩)

end GameServer.Database
