import GameServer.Database.StatementOwnership
import Mathlib.Data.List.Basic

/-!
# Transactions that tasks share

A task that is in `CleanUp` goes on with what it has read of its transaction. In a run without data
races on transactions that is still so when it deletes (`Shared.found`): nobody has appended, no
other task is in `CleanUp` of this transaction (`Shared.alone`), and the transaction is there, since
each task has a pointer to it (`Shared.refs`).

`inHand` are the pointers of a task that is being destroyed, which is in no list any more.
-/

namespace GameServer.Database

open GameServer.Lib GameServer.Threading

/-! ## One element of a list -/

section OneElement

variable {α : Type} {l : List α} {i : Nat} {a : α} (f : α → List Nat)

/-- Replacing an element replaces its part of the joined list. -/
theorem flatMap_set_perm (h : l[i]? = some a) (b : α) :
    ((l.set i b).flatMap f ++ f a).Perm (l.flatMap f ++ f b) := by
  rw [List.perm_iff_count]
  intro x
  induction l generalizing i with
  | nil => cases h
  | cons c l ih =>
    cases i with
    | zero =>
      cases h
      simp only [List.set_cons_zero, List.flatMap_cons, List.count_append]
      omega
    | succ i =>
      have hnext := ih h
      simp only [List.set_cons_succ, List.flatMap_cons, List.count_append] at hnext ⊢
      omega

theorem flatMap_eraseIdx_perm (h : l[i]? = some a) :
    ((l.eraseIdx i).flatMap f ++ f a).Perm (l.flatMap f) := by
  rw [List.perm_iff_count]
  intro x
  induction l generalizing i with
  | nil => cases h
  | cons c l ih =>
    cases i with
    | zero =>
      cases h
      simp only [List.eraseIdx_cons_zero, List.flatMap_cons, List.count_append]
      omega
    | succ i =>
      have hnext := ih h
      simp only [List.eraseIdx_cons_succ, List.flatMap_cons, List.count_append] at hnext ⊢
      omega

theorem count_flatMap_set (h : l[i]? = some a) (b : α) (x : Nat) :
    ((l.set i b).flatMap f).count x + (f a).count x = (l.flatMap f).count x + (f b).count x := by
  have hcount := (flatMap_set_perm f h b).count_eq x
  rwa [List.count_append, List.count_append] at hcount

theorem count_flatMap_eraseIdx (h : l[i]? = some a) (x : Nat) :
    ((l.eraseIdx i).flatMap f).count x + (f a).count x = (l.flatMap f).count x := by
  have hcount := (flatMap_eraseIdx_perm f h).count_eq x
  rwa [List.count_append] at hcount

end OneElement

/-! ## Pointers and clean-ups -/

theorem PoppedTask.count_cleans_le (p : PoppedTask) (t : Nat) :
    p.cleans.count t ≤ p.task.pointers.count t := by
  unfold cleans
  split
  · exact Nat.le_refl _
  · exact Nat.zero_le _

theorem count_cleans_le (popped : List PoppedTask) (t : Nat) :
    (popped.flatMap PoppedTask.cleans).count t ≤ (popped.flatMap (·.task.pointers)).count t := by
  induction popped with
  | nil => exact Nat.le_refl _
  | cons p popped ih =>
    rw [List.flatMap_cons, List.flatMap_cons, List.count_append, List.count_append]
    exact Nat.add_le_add (p.count_cleans_le t) ih

namespace StatementSystem

/-- How many tasks point to a transaction. -/
def pointers (s : StatementSystem) (t : Nat) : Nat :=
  (s.queue.queue.flatMap SqlTask.pointers).count t + (s.popped.flatMap (·.task.pointers)).count t

/-- How many pointers to it the transaction counts. -/
def taskRefs (s : StatementSystem) (t : Nat) : Nat :=
  ((s.transactions[t]?).map SharedTransaction.taskRefs).getD 0

/-- The transaction that a task cleans up is as the task has read it. -/
def Finds (s : StatementSystem) (p : PoppedTask) (pStmts : List Nat) : Prop :=
  ∃ t withResult tr, p.task = .transaction t withResult ∧ s.transactions[t]? = some tr ∧
    tr.transaction.cleanUp = false ∧ tr.transaction.statements = pStmts

structure Shared (s : StatementSystem) (inHand : List Nat) : Prop where
  refs : ∀ t, s.pointers t + inHand.count t = s.taskRefs t
  found : ∀ p ∈ s.popped, ∀ pStmts, p.phase = .cleaning pStmts → s.Finds p pStmts
  alone : ∀ t, (s.popped.flatMap PoppedTask.cleans).count t ≤ 1

variable {s s' : StatementSystem} {t i : Nat} {inHand inHand' : List Nat}
  {tr tr' : SharedTransaction} {task : SqlTask}

@[simp] theorem settle_queue {f : SharedTransaction → List Nat × SharedTransaction} :
    (s.settle i f).queue = s.queue := by
  unfold settle
  split <;> rfl

@[simp] theorem destroyTask_queue (task : SqlTask) : (s.destroyTask task).queue = s.queue := by
  cases task with
  | adhocQuery => rfl
  | preparedQuery => rfl
  | transaction => exact settle_queue

theorem client_eq_some (h : s.client i = some tr) : s.transactions[i]? = some tr := by
  unfold client at h
  split at h
  · cases h
  · next found hfound =>
    split at h
    · cases h
    · cases h
      exact hfound

theorem pass_eq {pStmt : Nat} (h : s.pass pStmt = some s') :
    s' = { s with held := s.held.erase pStmt } := by
  unfold pass at h
  split at h
  · cases h
    rfl
  · cases h

theorem shared_initial : initial.Shared [] := ⟨fun _ => rfl, nofun, fun _ => Nat.zero_le 1⟩

/-- Nothing of it changes. -/
theorem Shared.same (h : s.Shared inHand) (hqueue : s'.queue = s.queue)
    (hpopped : s'.popped = s.popped) (htransactions : s'.transactions = s.transactions) :
    s'.Shared inHand := by
  refine ⟨?_, ?_, ?_⟩
  · intro t
    have hrefs := h.refs t
    simp only [pointers, taskRefs, hqueue, hpopped, htransactions] at hrefs ⊢
    exact hrefs
  · intro p hp
    rw [hpopped] at hp
    unfold Finds
    rw [htransactions]
    exact h.found p hp
  · rw [hpopped]
    exact h.alone

/-- No task cleans up a transaction that no task points to. -/
theorem Shared.idle (h : s.Shared inHand) (hnone : s.taskRefs t = inHand.count t) :
    (s.popped.flatMap PoppedTask.cleans).count t = 0 := by
  have hrefs := h.refs t
  have hle := count_cleans_le s.popped t
  unfold pointers at hrefs
  omega

/-! ## Changes of a transaction -/

theorem taskRefs_of_getElem? (htr : s.transactions[t]? = some tr) : s.taskRefs t = tr.taskRefs := by
  rw [taskRefs, htr]
  rfl

/-- The list of the transactions has another one at `t`; if a task cleans it up, only its counts of
pointers are others. -/
theorem Shared.setTransaction (h : s.Shared inHand) (htr : s.transactions[t]? = some tr)
    (hcount : ∀ u, u ≠ t → inHand'.count u = inHand.count u)
    (hrefs : tr'.taskRefs + inHand.count t = tr.taskRefs + inHand'.count t)
    (hkeeps : (s.popped.flatMap PoppedTask.cleans).count t ≠ 0 →
      tr'.transaction = tr.transaction) : (s.setTransaction t tr').Shared inHand' := by
  have hlt : t < s.transactions.length := (List.getElem?_eq_some_iff.1 htr).1
  refine ⟨?_, ?_, h.alone⟩
  · intro u
    have hu := h.refs u
    by_cases hut : u = t
    · subst hut
      have hnew : (s.setTransaction u tr').taskRefs u = tr'.taskRefs :=
        taskRefs_of_getElem? (List.getElem?_set_self hlt)
      rw [taskRefs_of_getElem? htr] at hu
      rw [hnew]
      change s.pointers u + _ = _
      omega
    · have hold : (s.setTransaction t tr').taskRefs u = s.taskRefs u := by
        rw [taskRefs, taskRefs, StatementSystem.setTransaction,
          List.getElem?_set_ne fun heq => hut heq.symm]
      rw [hold, hcount u hut]
      exact hu
  · intro p hp pStmts hphase
    obtain ⟨u, withResult, tr₀, htask, htr₀, hflag, hstatements⟩ := h.found p hp pStmts hphase
    by_cases hut : u = t
    · subst hut
      rw [htr] at htr₀
      cases htr₀
      have hcleans : u ∈ p.cleans := by
        rw [PoppedTask.cleans, hphase, htask]
        exact List.mem_singleton_self u
      have hsame := hkeeps (Nat.ne_of_gt
        (List.count_pos_iff.2 (List.mem_flatMap.2 ⟨p, hp, hcleans⟩)))
      exact ⟨u, withResult, tr', htask, List.getElem?_set_self hlt, by rw [hsame, hflag],
        by rw [hsame, hstatements]⟩
    · refine ⟨u, withResult, tr₀, htask, ?_, hflag, hstatements⟩
      rw [StatementSystem.setTransaction, List.getElem?_set_ne fun heq => hut heq.symm]
      exact htr₀

theorem SharedTransaction.destructed_taskRefs (tr : SharedTransaction) :
    tr.destructed.2.taskRefs = tr.taskRefs := by
  unfold SharedTransaction.destructed
  split <;> rfl

/-- The destructor changes a transaction only where no task points to it. -/
theorem destructed_of_taskRefs (h : tr.taskRefs ≠ 0) : tr.destructed.2 = tr := by
  unfold SharedTransaction.destructed
  rw [if_neg fun hrefs => h hrefs.2]

theorem settle_eq {f : SharedTransaction → List Nat × SharedTransaction}
    (htr : s.transactions[t]? = some tr) :
    s.settle t f = (s.setTransaction t (f tr).2).delete (f tr).1 := by
  rw [settle, htr]

theorem Shared.delete (h : s.Shared inHand) (pStmts : List Nat) :
    (s.delete pStmts).Shared inHand := h.same rfl rfl rfl

theorem Shared.clientReleased (h : s.Shared []) :
    (s.settle t SharedTransaction.clientReleased).Shared [] := by
  cases htr : s.transactions[t]? with
  | none =>
    rw [settle, htr]
    exact h
  | some tr =>
    rw [settle_eq htr]
    refine (h.setTransaction htr (fun _ _ => rfl) ?_ fun hcleans => ?_).delete _
    · exact congrArg (· + 0) (SharedTransaction.destructed_taskRefs _)
    · have hrefs : tr.taskRefs ≠ 0 := fun hzero =>
        hcleans (h.idle (by rw [taskRefs_of_getElem? htr, hzero]; rfl))
      have hsame : tr.clientReleased.2 = { tr with clientRefs := tr.clientRefs - 1 } :=
        destructed_of_taskRefs hrefs
      rw [hsame]

/-- The pointer of the task that is being destroyed is let go. -/
theorem Shared.taskReleased (h : s.Shared (t :: inHand)) :
    (s.settle t SharedTransaction.taskReleased).Shared inHand := by
  have hrefs := h.refs t
  rw [List.count_cons_self] at hrefs
  cases htr : s.transactions[t]? with
  | none =>
    rw [taskRefs, htr] at hrefs
    exact absurd hrefs (Nat.succ_ne_zero _)
  | some tr =>
    rw [taskRefs_of_getElem? htr] at hrefs
    rw [settle_eq htr]
    refine (h.setTransaction htr (fun u hu => ?_) ?_ fun hcleans => ?_).delete _
    · rw [List.count_cons_of_ne fun heq => hu heq.symm]
    · rw [SharedTransaction.taskReleased, SharedTransaction.destructed_taskRefs,
        List.count_cons_self]
      change tr.taskRefs - 1 + _ = _
      omega
    · have hle := count_cleans_le s.popped t
      have hleft : tr.taskRefs - 1 ≠ 0 := by
        unfold pointers at hrefs
        omega
      have hsame : tr.taskReleased.2 = { tr with taskRefs := tr.taskRefs - 1 } :=
        destructed_of_taskRefs hleft
      rw [hsame]

/-! ## Changes of the tasks -/

theorem Shared.push (h : s.Shared (task.pointers ++ inHand)) : (s.push task).Shared inHand := by
  refine ⟨fun t => ?_, h.found, h.alone⟩
  have hrefs := h.refs t
  change _ = s.taskRefs t
  rw [← hrefs]
  simp only [pointers, StatementSystem.push, ProducerConsumerQueue.push, List.flatMap_append,
    List.flatMap_singleton, List.count_append]
  omega

theorem Shared.pop (h : s.Shared []) (hpop : s.pop = some s') : s'.Shared [] := by
  unfold StatementSystem.pop at hpop
  split at hpop
  · cases hpop
  · next task queue hfront =>
    cases hpop
    have hqueue := ProducerConsumerQueue.pop_eq_some hfront
    refine ⟨fun t => ?_, fun p hp pStmts hphase => ?_, fun t => ?_⟩
    · have hrefs := h.refs t
      change _ = s.taskRefs t
      rw [← hrefs]
      simp only [pointers, hqueue, List.flatMap_append, List.flatMap_cons, List.flatMap_nil,
        List.count_append, List.count_nil]
      omega
    · rcases List.mem_append.1 hp with hold | hnew
      · exact h.found p hold pStmts hphase
      · rw [List.mem_singleton.1 hnew] at hphase
        cases hphase
    · rw [List.flatMap_append, List.count_append]
      exact h.alone t

/-- A task moves on. One that begins a clean-up finds the transaction as it is, and is the only one
in a clean-up of it. -/
theorem Shared.setPhase {p : PoppedTask} {phase : TaskPhase} (h : s.Shared inHand)
    (hp : s.popped[i]? = some p)
    (hfound : ∀ pStmts, phase = .cleaning pStmts → s.Finds { p with phase } pStmts)
    (halone : ∀ t, ({ p with phase } : PoppedTask).cleans.count t ≠ 0 →
      (s.popped.flatMap PoppedTask.cleans).count t = 0 ∧ p.task.pointers.count t ≤ 1) :
    (s.setPhase i p phase).Shared inHand := by
  refine ⟨fun t => ?_, fun q hq pStmts hphase => ?_, fun t => ?_⟩
  · have hset := count_flatMap_set (fun p : PoppedTask => p.task.pointers) hp { p with phase } t
    have hrefs := h.refs t
    change _ = s.taskRefs t
    rw [← hrefs]
    dsimp only at hset
    simp only [pointers, StatementSystem.setPhase]
    omega
  · rcases List.mem_or_eq_of_mem_set hq with hold | rfl
    · exact h.found q hold pStmts hphase
    · exact hfound pStmts hphase
  · have hset := count_flatMap_set PoppedTask.cleans hp { p with phase } t
    have hold := h.alone t
    have hle := PoppedTask.count_cleans_le { p with phase } t
    change ((s.popped.set i _).flatMap PoppedTask.cleans).count t ≤ 1
    by_cases hzero : ({ p with phase } : PoppedTask).cleans.count t = 0
    · omega
    · obtain ⟨hnone, hone⟩ := halone t hzero
      change _ ≤ p.task.pointers.count t at hle
      omega

/-- The task is in no clean-up afterwards. -/
theorem Shared.setPhase_idle {p : PoppedTask} {phase : TaskPhase} (h : s.Shared inHand)
    (hp : s.popped[i]? = some p) (hphase : ∀ pStmts, phase ≠ .cleaning pStmts) :
    (s.setPhase i p phase).Shared inHand := by
  refine h.setPhase hp (fun pStmts heq => absurd heq (hphase pStmts)) fun t hcleans => ?_
  refine absurd ?_ hcleans
  unfold PoppedTask.cleans
  split
  · next pStmts heq => exact absurd heq (hphase pStmts)
  · rfl

/-- A task is destroyed: its pointers are in hand. -/
theorem Shared.eraseIdx {p : PoppedTask} (h : s.Shared []) (hp : s.popped[i]? = some p) :
    Shared { s with popped := s.popped.eraseIdx i } p.task.pointers := by
  refine ⟨fun t => ?_, fun q hq => h.found q (List.mem_of_mem_eraseIdx hq), fun t => ?_⟩
  · have herase := count_flatMap_eraseIdx (fun p : PoppedTask => p.task.pointers) hp t
    have hrefs := h.refs t
    change _ = s.taskRefs t
    rw [← hrefs]
    simp only [pointers, List.count_nil]
    omega
  · have herase := count_flatMap_eraseIdx PoppedTask.cleans hp t
    have hold := h.alone t
    change ((s.popped.eraseIdx i).flatMap PoppedTask.cleans).count t ≤ 1
    omega

theorem Shared.destroyTask {task : SqlTask} (h : s.Shared task.pointers) :
    (s.destroyTask task).Shared [] := by
  cases task with
  | adhocQuery => exact h
  | preparedQuery pStmt => exact h.delete [pStmt]
  | transaction => exact h.taskReleased

theorem Shared.clearTasks {tasks : List SqlTask} (h : s.Shared []) (hq : s.queue.queue = tasks) :
    (s.clearTasks tasks).Shared [] := by
  induction tasks generalizing s with
  | nil =>
    refine ⟨fun t => ?_, h.found, h.alone⟩
    have hrefs := h.refs t
    rw [pointers, hq] at hrefs
    exact hrefs
  | cons task tasks ih =>
    have htaken : Shared { s with queue.queue := tasks } task.pointers := by
      refine ⟨fun t => ?_, h.found, h.alone⟩
      have hrefs := h.refs t
      rw [pointers, hq, List.flatMap_cons, List.count_append] at hrefs
      change (tasks.flatMap SqlTask.pointers).count t + _ + _ = s.taskRefs t
      rw [← hrefs]
      simp only [List.count_nil]
      omega
    exact ih htaken.destroyTask (by rw [destroyTask_queue])

/-! ## Steps -/

/-- Where nobody is inside a transaction nobody cleans it up. -/
theorem count_cleans_eq_zero {popped : List PoppedTask} (h : ∀ p ∈ popped, t ∉ p.inside) :
    (popped.flatMap PoppedTask.cleans).count t = 0 := by
  refine List.count_eq_zero.2 fun hmem => ?_
  obtain ⟨p, hp, ht⟩ := List.mem_flatMap.1 hmem
  refine h p hp ?_
  unfold PoppedTask.cleans at ht
  unfold PoppedTask.inside
  split at ht
  · next hphase => rwa [hphase]
  · cases ht

theorem enterCleanUp_cases (h : s.enterCleanUp t ≠ .executed) :
    ∃ tr, s.transactions[t]? = some tr ∧ tr.transaction.cleanUp = false ∧
      s.enterCleanUp t = .cleaning tr.transaction.statements := by
  unfold enterCleanUp at h ⊢
  cases htr : s.transactions[t]? with
  | none =>
    rw [htr] at h
    exact absurd rfl h
  | some tr =>
    rw [htr] at h
    dsimp only at h ⊢
    cases hflag : tr.transaction.cleanUp with
    | true => exact absurd (if_pos hflag) h
    | false => exact ⟨tr, rfl, hflag, rfl⟩

/-- A task that does not end with `Execute` is in the clean-up of its transaction. -/
theorem phaseAfter_cases {errcode : Nat} {retries : List Nat}
    (h : s.phaseAfter errcode retries task ≠ .executed) :
    ∃ t withResult tr, task = .transaction t withResult ∧ s.transactions[t]? = some tr ∧
      tr.transaction.cleanUp = false ∧
        s.phaseAfter errcode retries task = .cleaning tr.transaction.statements := by
  cases task with
  | adhocQuery => exact absurd rfl h
  | preparedQuery => exact absurd rfl h
  | transaction t withResult =>
    unfold phaseAfter at h ⊢
    dsimp only at h ⊢
    by_cases hsucceeds : transactionSucceeds errcode retries
    · exact absurd (if_pos hsucceeds) h
    · rw [if_neg hsucceeds] at h ⊢
      obtain ⟨tr, htr, hflag, hphase⟩ := enterCleanUp_cases h
      exact ⟨t, withResult, tr, rfl, htr, hflag, hphase⟩

/-- `CleanUp` begins, if it does. -/
theorem Shared.execute {errcode : Nat} {retries : List Nat} (h : s.Shared [])
    (hc : s.Apart (.execute i errcode retries)) (hs : s.execute i errcode retries = some s') :
    s'.Shared [] := by
  unfold StatementSystem.execute at hs
  cases hp : s.popped[i]? with
  | none =>
    rw [hp] at hs
    cases hs
  | some p =>
    rw [hp] at hs
    simp only [Option.ite_none_right_eq_some, Option.some.injEq] at hs
    obtain ⟨hrunning, rfl⟩ := hs
    by_cases hdone : s.phaseAfter errcode retries p.task = .executed
    · rw [hdone]
      exact h.setPhase_idle hp nofun
    · obtain ⟨t, withResult, tr, htask, htr, hflag, hphase⟩ := phaseAfter_cases hdone
      rw [hphase]
      refine h.setPhase hp (fun pStmts heq => ?_) fun u hu => ?_
      · cases heq
        exact ⟨t, withResult, tr, htask, htr, hflag, rfl⟩
      · change p.task.pointers.count u ≠ 0 at hu
        rw [htask] at hu ⊢
        obtain rfl := List.mem_singleton.1 (List.count_pos_iff.1 (Nat.pos_of_ne_zero hu))
        refine ⟨?_, by simp [SqlTask.pointers]⟩
        have hothers := count_cleans_eq_zero
          (hc p hp hdone u (by rw [htask]; exact List.mem_singleton_self u))
        have hown : p.cleans.count u = 0 := by
          rw [PoppedTask.cleans, hrunning]
          rfl
        rw [← count_flatMap_eraseIdx PoppedTask.cleans hp, hothers, hown]

/-- What the second half of `CleanUp` finds is what it has read. -/
theorem finishCleanUp_spec (h : s.Shared inHand) (hs : s.finishCleanUp i = some s') :
    ∃ p pStmts t withResult tr, s.popped[i]? = some p ∧ p.phase = .cleaning pStmts ∧
      p.task = .transaction t withResult ∧ s.transactions[t]? = some tr ∧
        tr.transaction.cleanUp = false ∧ tr.transaction.statements = pStmts ∧
          s' = (s.setPhase i p .executed).settle t (SharedTransaction.emptied pStmts) := by
  unfold finishCleanUp at hs
  cases hp : s.popped[i]? with
  | none =>
    rw [hp] at hs
    cases hs
  | some p =>
    rw [hp] at hs
    dsimp only at hs
    split at hs
    · next pStmts t withResult hphase htask =>
      cases hs
      obtain ⟨u, withResult', tr, htask', htr, hflag, hstatements⟩ :=
        h.found p (List.mem_of_getElem? hp) pStmts hphase
      rw [htask] at htask'
      cases htask'
      exact ⟨p, pStmts, t, withResult, tr, rfl, hphase, htask, htr, hflag, hstatements, rfl⟩
    · cases hs

theorem Shared.finishCleanUp (h : s.Shared []) (hs : s.finishCleanUp i = some s') :
    s'.Shared [] := by
  obtain ⟨p, pStmts, t, withResult, tr, hp, hphase, htask, htr, -, -, rfl⟩ :=
    finishCleanUp_spec h hs
  have hdone : (s.setPhase i p .executed).Shared [] := h.setPhase_idle hp nofun
  have hnone : ((s.setPhase i p .executed).popped.flatMap PoppedTask.cleans).count t = 0 := by
    have hset := count_flatMap_set PoppedTask.cleans hp { p with phase := .executed } t
    have halone := h.alone t
    have hown : p.cleans.count t = 1 := by
      rw [PoppedTask.cleans, hphase, htask]
      exact List.count_cons_self
    have hidle : ({ p with phase := .executed } : PoppedTask).cleans.count t = 0 := rfl
    change ((s.popped.set i _).flatMap PoppedTask.cleans).count t = 0
    omega
  rw [settle_eq (s := s.setPhase i p .executed) htr]
  have hset : ((s.setPhase i p .executed).setTransaction t (tr.emptied pStmts).2).Shared [] :=
    hdone.setTransaction htr (fun _ _ => rfl) rfl fun hcleans => absurd hnone hcleans
  exact hset.delete _

theorem Shared.destroyPopped (h : s.Shared []) (hs : s.destroyPopped i = some s') :
    s'.Shared [] := by
  unfold StatementSystem.destroyPopped at hs
  cases hp : s.popped[i]? with
  | none =>
    rw [hp] at hs
    cases hs
  | some p =>
    rw [hp] at hs
    simp only [Option.ite_none_right_eq_some, Option.some.injEq] at hs
    obtain ⟨-, rfl⟩ := hs
    exact (h.eraseIdx hp).destroyTask

/-! ### Steps of the client -/

/-- A step on the statements only. -/
theorem Shared.passed {pStmt : Nat} {f : StatementSystem → StatementSystem} (h : s.Shared [])
    (hf : ∀ u : StatementSystem, u.Shared [] → (f u).Shared [])
    (hs : (s.pass pStmt).map f = some s') : s'.Shared [] := by
  obtain ⟨u, hu, rfl⟩ := Option.map_eq_some_iff.1 hs
  rw [pass_eq hu]
  exact hf _ (h.same rfl rfl rfl)

theorem Shared.beginTransaction (h : s.Shared []) : s.beginTransaction.Shared [] := by
  refine ⟨fun t => ?_, fun p hp pStmts hphase => ?_, h.alone⟩
  · have hrefs := h.refs t
    have hsame : s.beginTransaction.taskRefs t = s.taskRefs t := by
      unfold taskRefs StatementSystem.beginTransaction
      rcases Nat.lt_trichotomy t s.transactions.length with hlt | rfl | hgt
      · rw [List.getElem?_append_left hlt]
      · simp
      · rw [List.getElem?_eq_none (by simp; omega), List.getElem?_eq_none (Nat.le_of_lt hgt)]
    rw [hsame]
    exact hrefs
  · obtain ⟨t, withResult, tr, htask, htr, hread⟩ := h.found p hp pStmts hphase
    have hlt : t < s.transactions.length := (List.getElem?_eq_some_iff.1 htr).1
    refine ⟨t, withResult, tr, htask, ?_, hread⟩
    rw [StatementSystem.beginTransaction, List.getElem?_append_left hlt]
    exact htr

/-- The client appends to a transaction that nobody is inside. -/
theorem Shared.setQueries (h : s.Shared []) (htr : s.transactions[t]? = some tr)
    (hapart : ∀ p ∈ s.popped, t ∉ p.inside) (transaction : TransactionBase) :
    (s.setQueries t tr transaction).Shared [] :=
  h.setTransaction htr (fun _ _ => rfl) rfl fun hcleans =>
    absurd (count_cleans_eq_zero hapart) hcleans

theorem Shared.commitTransaction {withResult : Bool} (h : s.Shared [])
    (htr : s.transactions[t]? = some tr) : (s.commitTransaction t tr withResult).Shared [] := by
  have hcounted : (s.setTransaction t { tr with taskRefs := tr.taskRefs + 1 }).Shared [t] := by
    refine h.setTransaction htr (fun u hu => ?_) ?_ fun _ => rfl
    · rw [List.count_cons_of_ne fun heq => hu heq.symm]
    · rw [List.count_cons_self]
      rfl
  exact hcounted.push

/-- **One step** without a data race. -/
theorem Shared.step {e : StatementEvent} (h : s.Shared []) (hc : s.Apart e)
    (hs : statementMachine.step s e = some s') : s'.Shared [] := by
  cases e with
  | getPreparedStatement =>
    cases hs
    exact h.same rfl rfl rfl
  | asyncExecute pStmt =>
    exact h.passed (fun _ hu => hu.push) hs
  | asyncQuery pStmt =>
    exact h.passed (fun _ hu => hu.push) hs
  | syncExecute pStmt =>
    exact h.passed (f := (·.syncExecute pStmt)) (fun _ hu => hu.same rfl rfl rfl) hs
  | syncQuery pStmt => exact h.passed (fun _ hu => hu.delete [pStmt]) hs
  | asyncText sql hasResult =>
    cases hs
    exact h.push
  | beginTransaction =>
    cases hs
    exact h.beginTransaction
  | append t sql =>
    obtain ⟨tr, htr, rfl⟩ := Option.map_eq_some_iff.1 hs
    exact h.setQueries (client_eq_some htr) hc _
  | appendPreparedStatement t pStmt =>
    obtain ⟨tr, htr, hpass⟩ := Option.bind_eq_some_iff.1 hs
    obtain ⟨u, hu, rfl⟩ := Option.map_eq_some_iff.1 hpass
    obtain rfl := pass_eq hu
    have hpassed : Shared { s with held := s.held.erase pStmt } [] := h.same rfl rfl rfl
    exact hpassed.setQueries (client_eq_some htr) hc _
  | commitTransaction t withCallback =>
    obtain ⟨tr, htr, rfl⟩ := Option.map_eq_some_iff.1 hs
    exact h.commitTransaction (client_eq_some htr)
  | copy t =>
    obtain ⟨tr, htr, rfl⟩ := Option.map_eq_some_iff.1 hs
    exact h.setTransaction (client_eq_some htr) (fun _ _ => rfl) rfl fun _ => rfl
  | release t =>
    obtain ⟨tr, -, rfl⟩ := Option.map_eq_some_iff.1 hs
    exact h.clientReleased
  | pop => exact h.pop hs
  | start i =>
    simp only [statementMachine, StatementSystem.start] at hs
    cases hp : s.popped[i]? with
    | none =>
      rw [hp] at hs
      cases hs
    | some p =>
      rw [hp] at hs
      simp only [Option.ite_none_right_eq_some, Option.some.injEq] at hs
      obtain ⟨-, rfl⟩ := hs
      exact h.setPhase_idle hp nofun
  | execute i errcode retries => exact h.execute hc hs
  | finishCleanUp i => exact h.finishCleanUp hs
  | destroyPopped i => exact h.destroyPopped hs
  | clear =>
    cases hs
    exact h.clearTasks rfl

end StatementSystem

end GameServer.Database
