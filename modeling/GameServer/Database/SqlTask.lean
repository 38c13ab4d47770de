import GameServer.Database.TransactionOutcome

/-!
# `TransactionTask`

The task runs its transaction again while the result is `ER_LOCK_DEADLOCK`, for a minute at most.
It reports success when the last run returned zero, so it is as good as that result.
-/

namespace GameServer.Database

open GameServer.Lib GameServer.Lib.Exec

/-- `maxRetryTimeMillSec`. -/
def maxRetryTimeMillSec : Nat := 60000

/-- The retry loop. The list holds the values of `loopDuration` after each turn; the first turn
is made with zero. -/
def retryLoop (env : Env) (queries : List SqlElementData) : List Nat → Run Bool
  | [] => throw .diverged
  | loopDuration :: later => do
    if (← executeTransaction env queries) = 0 then pure true
    else if loopDuration ≤ maxRetryTimeMillSec then retryLoop env queries later
    else pure false

/-- `TransactionTask::Execute`. -/
def executeTask (env : Env) (queries : List SqlElementData) (durations : List Nat) : Run Bool := do
  let errcode ← executeTransaction env queries
  if errcode = 0 then pure true
  else if errcode = erLockDeadlock then retryLoop env queries durations
  else pure false

variable {env : Env} {qs : List SqlElementData} {durations : List Nat} {w v : World}

theorem retryLoop_true (h : retryLoop env qs durations w = .ok true v) :
    ∃ u, executeTransaction env qs u = .ok 0 v := by
  induction durations generalizing w with
  | nil => cases h
  | cons d ds ih =>
    unfold retryLoop at h
    obtain ⟨r, u, hu, hrest⟩ := bind_eq_ok.1 h
    split at hrest
    · next h0 =>
      cases hrest
      exact ⟨w, h0 ▸ hu⟩
    · split at hrest
      · exact ih hrest
      · cases hrest

theorem executeTask_true (h : executeTask env qs durations w = .ok true v) :
    ∃ u, executeTransaction env qs u = .ok 0 v := by
  unfold executeTask at h
  obtain ⟨r, u, hu, hrest⟩ := bind_eq_ok.1 h
  split at hrest
  · next h0 =>
    cases hrest
    exact ⟨w, h0 ▸ hu⟩
  · split at hrest
    · exact retryLoop_true hrest
    · cases hrest

/-- **Success of a task.** Where the result of a transaction is right, a task reports success
only for a transaction that its last run committed. -/
theorem executeTask_committed (hright : ∀ u r, executeTransaction env qs u = .ok r v →
    Reports qs u v r) (h : executeTask env qs durations w = .ok true v) :
    ∃ u, Committed qs (newCalls u v) := by
  obtain ⟨u, hu⟩ := executeTask_true h
  refine ⟨u, ?_⟩
  by_contra hc
  exact ((hright u 0 hu).failed hc).1 rfl

end GameServer.Database
