import GameServer.Database.SqlTask
import GameServer.Database.StatementOwnership
import GameServer.Util.MillSecTime

/-!
# Retrying a transaction

`TransactionTask::Execute` makes a first attempt, and after a deadlock further ones for a minute by
the clock. The transaction and its statements stay as they are until `Execute` gives up and calls
`CleanUp`. `execute_as_claimed_iff` says when all of this is as it should be: the one thing that can
go wrong is the clean-up, which does nothing on a transaction that has been cleaned up before, and
deletes a statement twice that is in the list twice.

The results of `TryExecute` and the readings of the clock are streams: the number of attempts, or of
readings, tells which comes next. `attempts` and `deleted` record what was done.
-/

namespace GameServer.Database

open GameServer.Util

/-- What an attempt was made with, and its result. -/
structure Attempt where
  queries : List QueryElement
  errcode : Nat
  deriving DecidableEq, Repr

structure TaskRun where
  transaction : TransactionBase
  /-- How often the clock was read. -/
  readings : Nat
  attempts : List Attempt
  deleted : List Nat
  deriving DecidableEq, Repr

/-! ## The code -/

section Code

variable (results clock : Nat → Nat)

namespace TaskRun

def ofTransaction (t : TransactionBase) : TaskRun := ⟨t, 0, [], []⟩

def tryExecute (s : TaskRun) : Nat × TaskRun :=
  let errcode := results s.attempts.length
  (errcode, { s with attempts := s.attempts ++ [⟨s.transaction.queries, errcode⟩] })

def getMillSecTimeNow (s : TaskRun) : Nat × TaskRun :=
  (clock s.readings, { s with readings := s.readings + 1 })

def cleanUpOnFailure (s : TaskRun) : TaskRun :=
  let (deleted, transaction) := s.transaction.cleanedUp
  { s with transaction, deleted := s.deleted ++ deleted }

end TaskRun

/-- The retry loop and what follows it, with the number of turns after which it is cut off. -/
def retryFrom (appStartTime : Nat) : (fuel loopDuration : Nat) → TaskRun → Option (Bool × TaskRun)
  | 0, _, _ => none
  | fuel + 1, loopDuration, s =>
    if loopDuration ≤ maxRetryTimeMillSec then
      let (errcode, s) := s.tryExecute results
      if errcode = 0 then some (true, s)
      else
        let (now, s) := s.getMillSecTimeNow clock
        retryFrom appStartTime fuel (getMillSecTimeDiff appStartTime now) s
    else some (false, s.cleanUpOnFailure)

/-- `TransactionTask::Execute`. -/
def executeTransactionTask (fuel : Nat) (t : TransactionBase) : Option (Bool × TaskRun) :=
  let (errcode, s) := (TaskRun.ofTransaction t).tryExecute results
  if errcode = 0 then some (true, s)
  else if errcode = erLockDeadlock then
    let (appStartTime, s) := s.getMillSecTimeNow clock
    retryFrom results clock appStartTime fuel 0 s
  else some (false, s.cleanUpOnFailure)

end Code

/-! ## What it should do -/

/-- What a run of `Execute` should have done to the transaction `t`, when it returns `b`. Reading
`i` of the clock comes before attempt `i + 1`. -/
structure RetriedAsClaimed (results clock : Nat → Nat) (t : TransactionBase) (b : Bool)
    (s : TaskRun) : Prop where
  asGiven : ∀ i a, s.attempts[i]? = some a → a.errcode = results i
  success : b = true ↔ ∃ a ∈ s.attempts, a.errcode = 0
  stops : ∀ i a, s.attempts[i]? = some a → a.errcode = 0 → i + 1 = s.attempts.length
  retries : 1 < s.attempts.length → results 0 = erLockDeadlock
  inTime : ∀ i, i + 1 < s.attempts.length → clock i - clock 0 ≤ maxRetryTimeMillSec
  persists : results 0 = erLockDeadlock → b = false →
    maxRetryTimeMillSec < clock (s.attempts.length - 1) - clock 0
  complete : ∀ a ∈ s.attempts, a.queries = t.queries
  kept : b = true → s.deleted = []
  emptied : b = false → s.transaction.queries = [] ∧
    ∀ x, s.deleted.count x = if x ∈ t.statements then 1 else 0

/-- Some attempt that is made returns zero. -/
def Succeeds (results clock : Nat → Nat) : Prop :=
  ∃ k, results k = 0 ∧ (0 < k → results 0 = erLockDeadlock) ∧
    ∀ i, i < k → clock i - clock 0 ≤ maxRetryTimeMillSec

/-- The clean-up empties the list and deletes each statement of it once. -/
def Deletable (t : TransactionBase) : Prop :=
  t.queries = [] ∨ (t.cleanUp = false ∧ t.statements.Nodup)

/-! ## A run -/

section Run

variable (results clock : Nat → Nat) (t : TransactionBase)

/-- Nothing but the attempts and the readings changes before the clean-up. -/
def afterAttempts (n readings : Nat) : TaskRun :=
  ⟨t, readings, (List.range n).map fun i => ⟨t.queries, results i⟩, []⟩

/-- The run that returns `b` after `n` attempts. -/
def finished (n readings : Nat) : Bool → TaskRun
  | true => afterAttempts results t n readings
  | false => (afterAttempts results t n readings).cleanUpOnFailure

/-- The loop is left before its turn `k`, or with the attempt that it makes there. -/
def LeftAt (k : Nat) : Prop :=
  maxRetryTimeMillSec < clock k - clock 0 ∨ results (k + 1) = 0

/-- What the result `b` after `n` attempts says of the results and the readings. -/
structure Stopped (n : Nat) (b : Bool) : Prop where
  pos : 0 < n
  before : ∀ i, i + 1 < n → results i ≠ 0
  last : results (n - 1) = 0 ↔ b = true
  retries : 1 < n → results 0 = erLockDeadlock
  inTime : ∀ i, i + 1 < n → clock i - clock 0 ≤ maxRetryTimeMillSec
  persists : results 0 = erLockDeadlock → b = false →
    maxRetryTimeMillSec < clock (n - 1) - clock 0

variable {results clock t} {n m k fuel : Nat} {b : Bool}

theorem tryExecute_afterAttempts : (afterAttempts results t n m).tryExecute results =
    (results n, afterAttempts results t (n + 1) m) := by
  simp [TaskRun.tryExecute, afterAttempts, List.range_succ]

theorem getMillSecTimeNow_afterAttempts : (afterAttempts results t n m).getMillSecTimeNow clock =
    (clock m, afterAttempts results t n (m + 1)) := rfl

theorem getMillSecTimeDiff_clock (hmono : ∀ i, clock i ≤ clock (i + 1)) (k : Nat) :
    getMillSecTimeDiff (clock 0) (clock k) = clock k - clock 0 := by
  have hle : clock 0 ≤ clock k := by
    induction k with
    | zero => exact Nat.le_refl _
    | succ k ih => exact Nat.le_trans ih (hmono k)
  rw [getMillSecTimeDiff, if_neg (Nat.not_lt.2 hle)]

/-- A turn of the loop. -/
theorem retryFrom_turn (hmono : ∀ i, clock i ≤ clock (i + 1)) :
    retryFrom results clock (clock 0) (fuel + 1) (clock k - clock 0)
        (afterAttempts results t (k + 1) (k + 1)) =
      if clock k - clock 0 ≤ maxRetryTimeMillSec then
        if results (k + 1) = 0 then some (true, afterAttempts results t (k + 2) (k + 1))
        else retryFrom results clock (clock 0) fuel (clock (k + 1) - clock 0)
          (afterAttempts results t (k + 2) (k + 2))
      else some (false, (afterAttempts results t (k + 1) (k + 1)).cleanUpOnFailure) := by
  rw [retryFrom, tryExecute_afterAttempts]
  dsimp only
  rw [getMillSecTimeNow_afterAttempts]
  dsimp only
  rw [getMillSecTimeDiff_clock hmono]

/-- The turns after which the loop goes on. -/
theorem retryFrom_skip (hmono : ∀ i, clock i ≤ clock (i + 1)) (j : Nat)
    (hnot : ∀ i < j, ¬LeftAt results clock i) :
    retryFrom results clock (clock 0) (fuel + j) 0 (afterAttempts results t 1 1) =
      retryFrom results clock (clock 0) fuel (clock j - clock 0)
        (afterAttempts results t (j + 1) (j + 1)) := by
  induction j generalizing fuel with
  | zero => rw [Nat.sub_self]; rfl
  | succ j ih =>
    have hj := not_or.1 (hnot j (Nat.lt_succ_self j))
    rw [show fuel + (j + 1) = (fuel + 1) + j by omega,
      ih fun i hi => hnot i (Nat.lt_succ_of_lt hi), retryFrom_turn hmono,
      if_pos (Nat.not_lt.1 hj.1), if_neg hj.2]

/-- The first turn with which the loop is left. -/
theorem exists_first_leftAt (results : Nat → Nat)
    (hpass : ∃ n, maxRetryTimeMillSec < clock n - clock 0) :
    ∃ k, LeftAt results clock k ∧ ∀ i < k, ¬LeftAt results clock i := by
  obtain ⟨n, hn⟩ := hpass
  have hleft : LeftAt results clock n := .inl hn
  clear hn
  induction n using Nat.strongRecOn with
  | ind n ih =>
    by_cases hearlier : ∃ i, i < n ∧ LeftAt results clock i
    · obtain ⟨i, hi, hleft⟩ := hearlier
      exact ih i hi hleft
    · exact ⟨n, hleft, fun i hi h => hearlier ⟨i, hi, h⟩⟩

/-- The one attempt that is made without a loop. -/
theorem stopped_one (hlast : results 0 = 0 ↔ b = true)
    (hnot : b = false → results 0 ≠ erLockDeadlock) : Stopped results clock 1 b where
  pos := Nat.one_pos
  before i hi := by omega
  last := hlast
  retries h := by omega
  inTime i hi := by omega
  persists hdeadlock hb := absurd hdeadlock (hnot hb)

/-- The attempts before the turn with which the loop is left. -/
theorem before_of_not_leftAt (hdeadlock : results 0 = erLockDeadlock)
    (hnot : ∀ i < k, ¬LeftAt results clock i) : ∀ i < k + 1, results i ≠ 0 := by
  intro i hi
  cases i with
  | zero =>
    rw [hdeadlock]
    decide
  | succ i => exact (not_or.1 (hnot i (Nat.lt_of_succ_lt_succ hi))).2

theorem inTime_of_not_leftAt (hnot : ∀ i < k, ¬LeftAt results clock i) :
    ∀ i < k, clock i - clock 0 ≤ maxRetryTimeMillSec :=
  fun i hi => Nat.not_lt.1 (not_or.1 (hnot i hi)).1

theorem stopped_succeeded (hdeadlock : results 0 = erLockDeadlock)
    (hnot : ∀ i < k, ¬LeftAt results clock i) (hle : clock k - clock 0 ≤ maxRetryTimeMillSec)
    (hzero : results (k + 1) = 0) : Stopped results clock (k + 2) true where
  pos := Nat.succ_pos _
  before i hi := before_of_not_leftAt hdeadlock hnot i (by omega)
  last := ⟨fun _ => rfl, fun _ => hzero⟩
  retries _ := hdeadlock
  inTime i hi := by
    rcases Nat.lt_or_eq_of_le (Nat.le_of_lt_succ (Nat.lt_of_succ_lt_succ hi)) with hlt | rfl
    · exact inTime_of_not_leftAt hnot i hlt
    · exact hle
  persists _ h := nomatch h

theorem stopped_expired (hdeadlock : results 0 = erLockDeadlock)
    (hnot : ∀ i < k, ¬LeftAt results clock i)
    (hlt : maxRetryTimeMillSec < clock k - clock 0) : Stopped results clock (k + 1) false where
  pos := Nat.succ_pos _
  before i hi := before_of_not_leftAt hdeadlock hnot i (by omega)
  last := ⟨fun h => absurd h (before_of_not_leftAt hdeadlock hnot k (Nat.lt_succ_self k)),
    fun h => nomatch h⟩
  retries _ := hdeadlock
  inTime i hi := inTime_of_not_leftAt hnot i (by omega)
  persists _ _ := hlt

/-- `Execute` returns, and how. -/
theorem execute_finished (results : Nat → Nat) (t : TransactionBase)
    (hmono : ∀ i, clock i ≤ clock (i + 1))
    (hpass : ∃ n, maxRetryTimeMillSec < clock n - clock 0) :
    ∃ n m b, Stopped results clock n b ∧ ∃ fuel, ∀ more,
      executeTransactionTask results clock (fuel + more) t =
        some (b, finished results t n m b) := by
  have hexecute : ∀ fuel, executeTransactionTask results clock fuel t =
      if results 0 = 0 then some (true, finished results t 1 0 true)
      else if results 0 = erLockDeadlock then
        retryFrom results clock (clock 0) fuel 0 (afterAttempts results t 1 1)
      else some (false, finished results t 1 0 false) := fun _ => rfl
  by_cases hzero : results 0 = 0
  · refine ⟨1, 0, true, stopped_one ⟨fun _ => rfl, fun _ => hzero⟩ (fun h => nomatch h), 0, ?_⟩
    intro more
    rw [hexecute, if_pos hzero]
  by_cases hdeadlock : results 0 = erLockDeadlock
  · obtain ⟨k, hleft, hnot⟩ := exists_first_leftAt results hpass
    have hloop : ∀ more, executeTransactionTask results clock (k + 1 + more) t =
        retryFrom results clock (clock 0) (more + 1) (clock k - clock 0)
          (afterAttempts results t (k + 1) (k + 1)) := by
      intro more
      rw [hexecute, if_neg hzero, if_pos hdeadlock, show k + 1 + more = (more + 1) + k by omega,
        retryFrom_skip hmono k hnot]
    by_cases hle : clock k - clock 0 ≤ maxRetryTimeMillSec
    · have hlast : results (k + 1) = 0 := hleft.resolve_left (Nat.not_lt.2 hle)
      refine ⟨k + 2, k + 1, true, stopped_succeeded hdeadlock hnot hle hlast, k + 1, ?_⟩
      intro more
      rw [hloop, retryFrom_turn hmono, if_pos hle, if_pos hlast]
      rfl
    · refine ⟨k + 1, k + 1, false, stopped_expired hdeadlock hnot (Nat.not_le.1 hle), k + 1, ?_⟩
      intro more
      rw [hloop, retryFrom_turn hmono, if_neg hle]
      rfl
  · refine ⟨1, 0, false, stopped_one ⟨fun h => absurd h hzero, fun h => nomatch h⟩
      (fun _ => hdeadlock), 0, ?_⟩
    intro more
    rw [hexecute, if_neg hzero, if_neg hdeadlock]

theorem Stopped.succeeds_iff (h : Stopped results clock n b) :
    b = true ↔ Succeeds results clock := by
  constructor
  · intro hb
    refine ⟨n - 1, h.last.2 hb, fun hpos => h.retries (by omega), ?_⟩
    exact fun i hi => h.inTime i (by omega)
  · rintro ⟨k, hzero, hdeadlock, hinTime⟩
    have hpos := h.pos
    rcases Nat.lt_trichotomy k (n - 1) with hlt | heq | hgt
    · exact absurd hzero (h.before k (by omega))
    · exact h.last.1 (heq ▸ hzero)
    · -- the loop would still be running
      cases b with
      | true => rfl
      | false =>
        have hpassed := h.persists (hdeadlock (by omega)) rfl
        have hin := hinTime (n - 1) hgt
        omega

/-! ## The attempts of a run -/

theorem attempts_finished : (finished results t n m b).attempts =
    (List.range n).map fun i => ⟨t.queries, results i⟩ := by
  cases b with
  | true => rfl
  | false => rfl

theorem length_attempts_finished : (finished results t n m b).attempts.length = n := by
  rw [attempts_finished, List.length_map, List.length_range]

theorem attempts_finished_getElem? {i : Nat} {a : Attempt}
    (h : (finished results t n m b).attempts[i]? = some a) :
    i < n ∧ a = ⟨t.queries, results i⟩ := by
  rw [attempts_finished, List.getElem?_map] at h
  obtain ⟨j, hj, rfl⟩ := Option.map_eq_some_iff.1 h
  obtain ⟨hi, hget⟩ := List.getElem?_eq_some_iff.1 hj
  rw [List.getElem_range] at hget
  rw [List.length_range] at hi
  exact ⟨hi, by rw [hget]⟩

theorem mem_attempts_finished {a : Attempt} : a ∈ (finished results t n m b).attempts ↔
    ∃ i < n, a = ⟨t.queries, results i⟩ := by
  rw [attempts_finished, List.mem_map]
  simp only [List.mem_range, eq_comm]

/-- What the failed run deletes and leaves. -/
theorem emptied_iff : ((finished results t n m false).transaction.queries = [] ∧
      ∀ x, (finished results t n m false).deleted.count x = if x ∈ t.statements then 1 else 0) ↔
    Deletable t := by
  cases hclean : t.cleanUp with
  | true =>
    have hfinished : finished results t n m false = afterAttempts results t n m := by
      simp [finished, TaskRun.cleanUpOnFailure, TransactionBase.cleanedUp, afterAttempts, hclean]
    rw [hfinished]
    constructor
    · exact fun h => .inl h.1
    · rintro (hempty | ⟨hlive, -⟩)
      · refine ⟨hempty, fun x => ?_⟩
        rw [TransactionBase.statements, hempty]
        rfl
      · rw [hclean] at hlive
        cases hlive
  | false =>
    have hdeleted : (finished results t n m false).deleted = t.statements := by
      simp [finished, TaskRun.cleanUpOnFailure, TransactionBase.cleanedUp, afterAttempts, hclean]
    have hqueries : (finished results t n m false).transaction.queries = [] := by
      simp [finished, TaskRun.cleanUpOnFailure, TransactionBase.cleanedUp, afterAttempts, hclean]
    rw [hdeleted, hqueries]
    constructor
    · rintro ⟨-, hcount⟩
      refine .inr ⟨hclean, List.nodup_iff_count.2 fun x => ?_⟩
      rw [hcount]
      split <;> omega
    · intro h
      refine ⟨rfl, fun x => ?_⟩
      have hnodup : t.statements.Nodup := by
        rcases h with hempty | ⟨-, hnodup⟩
        · rw [TransactionBase.statements, hempty]
          exact List.nodup_nil
        · exact hnodup
      exact hnodup.count

theorem Stopped.claimed_iff (h : Stopped results clock n b) :
    RetriedAsClaimed results clock t b (finished results t n m b) ↔ b = true ∨ Deletable t := by
  constructor
  · intro hclaimed
    cases b with
    | true => exact .inl rfl
    | false => exact .inr (emptied_iff.1 (hclaimed.emptied rfl))
  · intro hdeletable
    have hpos := h.pos
    constructor
    case asGiven =>
      intro i a ha
      rw [(attempts_finished_getElem? ha).2]
    case success =>
      rw [← h.last]
      constructor
      · exact fun hzero => ⟨_, mem_attempts_finished.2 ⟨n - 1, by omega, rfl⟩, hzero⟩
      · rintro ⟨a, ha, hzero⟩
        obtain ⟨i, hi, rfl⟩ := mem_attempts_finished.1 ha
        have hlast : i = n - 1 := by
          by_contra hne
          exact h.before i (by omega) hzero
        exact hlast ▸ hzero
    case stops =>
      intro i a ha hzero
      obtain ⟨hi, rfl⟩ := attempts_finished_getElem? ha
      rw [length_attempts_finished]
      by_contra hne
      exact h.before i (by omega) hzero
    case retries =>
      rw [length_attempts_finished]
      exact h.retries
    case inTime =>
      rw [length_attempts_finished]
      exact h.inTime
    case persists =>
      rw [length_attempts_finished]
      exact h.persists
    case complete =>
      intro a ha
      obtain ⟨i, -, rfl⟩ := mem_attempts_finished.1 ha
      rfl
    case kept =>
      rintro rfl
      rfl
    case emptied =>
      rintro rfl
      exact emptied_iff.2 (hdeletable.resolve_left (fun h => nomatch h))

/-- The results of a run are as `transactionSucceeds` reads them. -/
theorem Stopped.transactionSucceeds_eq (h : Stopped results clock n b) :
    transactionSucceeds (results 0)
      ((finished results t n m b).attempts.tail.map Attempt.errcode) = b := by
  obtain ⟨k, rfl⟩ : ∃ k, n = k + 1 := ⟨n - 1, by have := h.pos; omega⟩
  have hretries : (finished results t (k + 1) m b).attempts.tail.map Attempt.errcode =
      (List.range k).map fun i => results (i + 1) := by
    rw [attempts_finished, List.range_succ_eq_map, List.map_cons, List.tail_cons, List.map_map,
      List.map_map]
    rfl
  have hlast : results k = 0 ↔ b = true := h.last
  rw [hretries, transactionSucceeds]
  by_cases hzero : results 0 = 0
  · have hk : k = 0 := by
      by_contra hne
      exact h.before 0 (by omega) hzero
    rw [if_pos hzero]
    exact (hlast.1 (hk ▸ hzero)).symm
  rw [if_neg hzero]
  by_cases hdeadlock : results 0 = erLockDeadlock
  · rw [if_pos hdeadlock, Bool.eq_iff_iff, ← hlast, List.any_map, List.any_eq_true]
    simp only [List.mem_range, Function.comp_apply, beq_iff_eq]
    constructor
    · rintro ⟨i, hi, hresult⟩
      have hik : i + 1 = k := by
        by_contra hne
        exact h.before (i + 1) (by omega) hresult
      exact hik ▸ hresult
    · intro hresult
      have hk : k ≠ 0 := fun hk => hzero (hk ▸ hresult)
      exact ⟨k - 1, by omega, by rwa [Nat.sub_add_cancel (by omega)]⟩
  · have hk : k = 0 := by
      by_contra hne
      exact hdeadlock (h.retries (by omega))
    subst hk
    rw [if_neg hdeadlock]
    exact (Bool.eq_false_iff.2 fun hb => hzero (hlast.2 hb)).symm

end Run

/-! ## All runs -/

/-- `Execute` returns, and it does all it should exactly where an attempt succeeds or the clean-up
can delete the statements. -/
theorem execute_as_claimed_iff (results clock : Nat → Nat) (t : TransactionBase)
    (hmono : ∀ i, clock i ≤ clock (i + 1))
    (hpass : ∃ n, maxRetryTimeMillSec < clock n - clock 0) :
    (∃ fuel b s, (∀ more,
        executeTransactionTask results clock (fuel + more) t = some (b, s)) ∧
      RetriedAsClaimed results clock t b s) ↔ Succeeds results clock ∨ Deletable t := by
  obtain ⟨n, m, b, hstopped, fuel, hrun⟩ := execute_finished results t hmono hpass
  rw [← hstopped.succeeds_iff]
  constructor
  · rintro ⟨fuel', b', s, hrun', hclaimed⟩
    have heq : some (b', s) = some (b, finished results t n m b) := by
      rw [← hrun' fuel, ← hrun fuel', Nat.add_comm]
    cases heq
    exact hstopped.claimed_iff.1 hclaimed
  · exact fun h => ⟨fuel, b, _, hrun, hstopped.claimed_iff.2 h⟩

/-- Deadlocks until the time is up, and then the statement is deleted. -/
theorem execute_as_claimed_expired :
    (∃ fuel b s, (∀ more,
        executeTransactionTask (fun _ => erLockDeadlock) (fun i => 40000 * i) (fuel + more)
          (TransactionBase.empty.appendPreparedStatement 0) = some (b, s)) ∧
      RetriedAsClaimed (fun _ => erLockDeadlock) (fun i => 40000 * i)
        (TransactionBase.empty.appendPreparedStatement 0) b s) :=
  (execute_as_claimed_iff _ _ _ (fun i => by omega) ⟨2, by decide⟩).2
    (.inr (.inr ⟨rfl, by decide⟩))

/-- A transaction whose first commit failed gets a statement and fails again: the statement is not
deleted. -/
theorem recommitted_not_cleanedUp : ¬∀ (results clock : Nat → Nat) (t : TransactionBase),
    (∀ i, clock i ≤ clock (i + 1)) → (∃ n, maxRetryTimeMillSec < clock n - clock 0) →
      ∃ fuel b s, (∀ more,
          executeTransactionTask results clock (fuel + more) t = some (b, s)) ∧
        RetriedAsClaimed results clock t b s := by
  intro h
  obtain ⟨fuel, b, s, hrun, hclaimed⟩ := h (fun _ => 1) (fun i => 40000 * i)
    ((TransactionBase.empty.append "").cleanedUp.2.appendPreparedStatement 0)
    (fun i => by omega) ⟨2, by decide⟩
  have heq : some (b, s) = some (false, finished (fun _ => 1)
      ((TransactionBase.empty.append "").cleanedUp.2.appendPreparedStatement 0) 1 0 false) :=
    (hrun 0).symm
  cases heq
  rcases emptied_iff.1 (hclaimed.emptied rfl) with hempty | ⟨hlive, -⟩
  · cases hempty
  · cases hlive

end GameServer.Database
