import GameServer.Database.TransactionReturns

/-!
# The result of a transaction

`ExecuteTransaction` is meant to return zero for a committed transaction and the first error
otherwise (`Reports`). It does not look at the result of `COMMIT`, and it reads the last error
only after `ROLLBACK` has replaced it: `executeTransaction_reports_iff` says exactly for which
outcomes of the calls it returns, and with the right result all the same.
-/

namespace GameServer.Database

open GameServer.Lib GameServer.Lib.Exec

/-! ## What the result should say -/

def newCalls (w v : World) : List (Call × Nat) := v.log.drop w.log.length

/-- The statements and the closing `COMMIT` were all executed. -/
def Committed (qs : List SqlElementData) (calls : List (Call × Nat)) : Prop :=
  ∃ s, calls = (.query .startTransaction, s) ::
    ((callsOf qs).map (·, 0) ++ [(.query .commit, 0)])

/-- The code of the first call that failed. -/
def firstError (calls : List (Call × Nat)) : Option Nat := (calls.map Prod.snd).find? (· ≠ 0)

/-- The result `r` of a transaction that took the connection from `w` to `v` is right. -/
structure Reports (qs : List SqlElementData) (w v : World) (r : Nat) : Prop where
  committed : Committed qs (newCalls w v) → r = 0
  failed : ¬Committed qs (newCalls w v) → r ≠ 0 ∧ firstError (newCalls w v) = some r

/-! ## When it does -/

/-- What `mysql_errno` gives once the error `e` of a statement was handled after `k` opens and
`ROLLBACK` was answered with `a`. -/
def Env.rollbackError (env : Env) (k e a : Nat) : Nat :=
  if env.survives k e then env.errorAfter (opensAfter k e) a else env.errnoNull (k + 1)

/-- `ROLLBACK`, answered with `a`, fails with the code `f` once more; where it costs the connection,
`f` is the code of the last call on the new handle, or that of the null handle. The error `e` of the
statement, after `k` opens, may have cost the connection before. -/
def Env.RollbackRepeats (env : Env) (k e a f : Nat) : Prop :=
  if env.survives k e then
    let k := opensAfter k e
    if lost a then if env.connects k then env.setCharacterSet k = f else env.errnoNull (k + 1) = f
    else a = f
  else env.errnoNull (k + 1) = f

instance (env : Env) (k e a f : Nat) : Decidable (env.RollbackRepeats k e a f) :=
  inferInstanceAs (Decidable (ite _ (ite _ (ite _ _ _) _) _))

/-- The outcomes for which a transaction that returns is right: nothing fails after
`START TRANSACTION`, or a statement fails and `ROLLBACK` repeats the code of the first failed call;
where `START TRANSACTION` costs the connection, the error of the null handle is its code. -/
def ReportsWhen (env : Env) (w : World) (qs : List SqlElementData) : Prop :=
  let n := w.log.length
  let b := env.answer n
  w.mysql.isSome ∧
    if env.survives w.opens b then
      (∀ j ≤ (callsOf qs).length, env.answer (n + 1 + j) = 0) ∨
        ∃ j < (callsOf qs).length, FirstFailure env (n + 1) j ∧
          env.RollbackRepeats (opensAfter w.opens b) (env.answer (n + 1 + j))
            (env.answer (n + 1 + j + 1)) (if b ≠ 0 then b else env.answer (n + 1 + j))
    else env.errnoNull (w.opens + 1) = b

instance (env : Env) (n j : Nat) : Decidable (FirstFailure env n j) :=
  inferInstanceAs (Decidable (_ ∧ _))

instance (env : Env) (w : World) (qs : List SqlElementData) : Decidable (ReportsWhen env w qs) :=
  inferInstanceAs (Decidable (_ ∧ ite _ _ _))

variable {env : Env} {qs : List SqlElementData} {w v : World} {r : Nat}

/-! ## Calls and errors -/

theorem Env.rollbackRepeats_iff {k e a f : Nat} :
    env.RollbackRepeats k e a f ↔ env.rollbackError k e a = f := by
  unfold Env.RollbackRepeats Env.rollbackError Env.errorAfter
  cases env.survives k e with
  | false => rfl
  | true =>
    cases lost a with
    | false => rfl
    | true =>
      simp only [if_true]
      split <;> rfl

theorem newCalls_of_log {calls : List (Call × Nat)} (h : v.log = w.log ++ calls) :
    newCalls w v = calls := by
  rw [newCalls, h, List.drop_left]

/-- No transaction with a failed call after the first is committed. -/
theorem not_committed {p : Call × Nat} {calls : List (Call × Nat)} {x : Call × Nat}
    (hx : x ∈ calls) (hne : x.2 ≠ 0) : ¬Committed qs (p :: calls) := by
  rintro ⟨s, hs⟩
  rw [List.cons.injEq] at hs
  rw [hs.2, List.mem_append, List.mem_map, List.mem_singleton] at hx
  rcases hx with ⟨c, -, rfl⟩ | rfl
  · exact hne rfl
  · exact hne rfl

theorem not_committed_nil : ¬Committed qs [] := nofun

theorem not_committed_singleton (p : Call × Nat) : ¬Committed qs [p] := by
  rintro ⟨s, hs⟩
  rw [List.cons.injEq] at hs
  exact absurd hs.2 (by simp)

@[simp] theorem firstError_cons (c : Call) (e : Nat) (calls : List (Call × Nat)) :
    firstError ((c, e) :: calls) = if e ≠ 0 then some e else firstError calls := by
  by_cases h : e = 0
  · simp [firstError, h]
  · simp [firstError, h]

@[simp] theorem firstError_performed (cs : List Call) (calls : List (Call × Nat)) :
    firstError (cs.map (·, 0) ++ calls) = firstError calls := by
  induction cs with
  | nil => rfl
  | cons c cs ih => rw [List.map_cons, List.cons_append, firstError_cons, if_neg (by simp), ih]

/-- An uncommitted transaction reports well exactly when it returns its first error. -/
theorem reports_iff_of_not_committed {e : Nat} (he : e ≠ 0) (hc : ¬Committed qs (newCalls w v))
    (hf : firstError (newCalls w v) = some e) : Reports qs w v r ↔ r = e := by
  constructor
  · intro h
    have hr := (h.failed hc).2
    rw [hf, Option.some.injEq] at hr
    exact hr.symm
  · intro h
    subst h
    constructor
    · intro hcommitted
      exact absurd hcommitted hc
    · intro _
      exact ⟨he, hf⟩

/-! ## The four ways a transaction ends -/

theorem reports_iff_dead (hw : w.mysql = none) (hv : v = w) :
    Reports qs w v r ↔ ReportsWhen env w qs := by
  subst hv
  have hcalls : newCalls v v = [] := newCalls_of_log (List.append_nil _).symm
  constructor
  · intro h
    have hr := (h.failed (by rw [hcalls]; exact not_committed_nil)).2
    rw [hcalls] at hr
    cases hr
  · intro h
    rw [ReportsWhen, hw] at h
    cases h.1

theorem log_length_append {l : List (Call × Nat)} {p : Call × Nat} :
    (l ++ [p]).length = l.length + 1 := List.length_append

theorem not_survives {k e : Nat} (h : env.survives k e = false) :
    lost e = true ∧ env.connects k = false := by
  simpa [Env.survives] using h

theorem lost_ne_zero {e : Nat} (h : lost e = true) : e ≠ 0 := by
  rintro rfl
  cases h

/-- `START TRANSACTION` cost the connection: it is the only call. -/
theorem reports_iff_lost {u : World} (hw : w.mysql.isSome)
    (hu : Handled env (w.answered (.query .startTransaction) (env.answer w.log.length)) u)
    (hnone : u.mysql = none) : Reports qs w u (env.lastError u) ↔ ReportsWhen env w qs := by
  have hdead : env.survives w.opens (env.answer w.log.length) = false := by
    have := hu.alive
    rw [hnone, World.answered_opens, World.answered_errno] at this
    exact this.symm
  obtain ⟨hlost, hconn⟩ := not_survives hdead
  have hcalls : newCalls w u = [(.query .startTransaction, env.answer w.log.length)] :=
    newCalls_of_log hu.log
  have hlast : env.lastError u = env.errnoNull (w.opens + 1) := by
    rw [hu.lastError, World.answered_opens, World.answered_errno, Env.errorAfter, if_pos hlost,
      if_neg (by rw [hconn]; exact Bool.false_ne_true)]
  have hnc : ¬Committed qs (newCalls w u) := by
    rw [hcalls]
    exact not_committed_singleton _
  have hfirst : firstError (newCalls w u) = some (env.answer w.log.length) := by
    rw [hcalls, firstError_cons, if_pos (lost_ne_zero hlost)]
  rw [reports_iff_of_not_committed (lost_ne_zero hlost) hnc hfirst, hlast, ReportsWhen]
  simp only [hw, hdead, true_and, Bool.false_eq_true, if_false]

theorem reportsWhen_iff (hw : w.mysql.isSome)
    (hs : env.survives w.opens (env.answer w.log.length) = true) :
    ReportsWhen env w qs ↔
      (∀ j ≤ (callsOf qs).length, env.answer (w.log.length + 1 + j) = 0) ∨
        ∃ j < (callsOf qs).length, FirstFailure env (w.log.length + 1) j ∧
          env.rollbackError (opensAfter w.opens (env.answer w.log.length))
            (env.answer (w.log.length + 1 + j)) (env.answer (w.log.length + 1 + j + 1)) =
              if env.answer w.log.length ≠ 0 then env.answer w.log.length
              else env.answer (w.log.length + 1 + j) := by
  rw [ReportsWhen]
  simp only [hw, hs, true_and, if_true, Env.rollbackRepeats_iff]

/-- Every statement is executed: the result is zero, whatever `COMMIT` gives. -/
theorem reports_iff_commit {u : World} {c : Nat} (hw : w.mysql.isSome)
    (hu : Handled env (w.answered (.query .startTransaction) (env.answer w.log.length)) u)
    (hlive : u.mysql.isSome)
    (hzero : ∀ j < (callsOf qs).length, env.answer (w.log.length + 1 + j) = 0)
    (hc : c = env.answer (w.log.length + 1 + (callsOf qs).length))
    (hv : Handled env ((u.performed (callsOf qs)).answered (.query .commit) c) v) :
    Reports qs w v 0 ↔ ReportsWhen env w qs := by
  have halive : env.survives w.opens (env.answer w.log.length) = true := by
    rw [← World.answered_opens w (.query .startTransaction) (env.answer w.log.length)]
    exact hu.alive.symm.trans hlive
  have hcalls : newCalls w v = (.query .startTransaction, env.answer w.log.length) ::
      ((callsOf qs).map (·, 0) ++ [(.query .commit, c)]) := by
    apply newCalls_of_log
    rw [hv.log, World.answered_log, World.performed_log, hu.log, World.answered_log]
    simp
  rw [reportsWhen_iff hw halive]
  by_cases h0 : c = 0
  · subst h0
    refine iff_of_true ⟨fun _ => rfl, fun h => absurd ⟨_, hcalls⟩ h⟩ (.inl ?_)
    intro j hj
    rcases Nat.lt_or_eq_of_le hj with h | rfl
    · exact hzero j h
    · exact hc.symm
  · apply iff_of_false
    · intro h
      refine (h.failed ?_).1 rfl
      rw [hcalls]
      exact not_committed (List.mem_append_right _ (List.mem_singleton_self _)) h0
    · rintro (h | ⟨j, hj, hfail, -⟩)
      · exact h0 (hc.trans (h _ (Nat.le_refl _)))
      · exact hfail.2 (hzero j hj)

/-- The calls of a transaction whose statement `c` fails, and the error the client library holds
at the end, with or without the `ROLLBACK`. -/
theorem calls_of_rollback {u u' : World} {j b e : Nat} {c : Call} {done : Bool}
    (hu : Handled env (w.answered (.query .startTransaction) b) u)
    (hj : j < (callsOf qs).length)
    (hu' : Handled env ((u.performed ((callsOf qs).take j)).answered c e) u')
    (hend : Executed env [.query .rollback] u' done v) :
    ∃ tail, newCalls w v = (.query .startTransaction, b) ::
        (((callsOf qs).take j).map (·, 0) ++ (c, e) :: tail) ∧
      env.lastError v = env.rollbackError (opensAfter w.opens b) e
        (env.answer (w.log.length + 1 + j + 1)) := by
  have hopens : u.opens = opensAfter w.opens b := by
    rw [hu.opens, World.answered_opens, World.answered_errno]
  have hlog : u'.log = w.log ++ (.query .startTransaction, b) ::
      (((callsOf qs).take j).map (·, 0) ++ [(c, e)]) := by
    rw [hu'.log, World.answered_log, World.performed_log, hu.log, World.answered_log]
    simp
  have hlen : u'.log.length = w.log.length + 1 + j + 1 := by
    rw [hlog]
    simp only [List.length_append, List.length_cons, List.length_map, List.length_take,
      List.length_nil]
    omega
  have hsurv : u'.mysql.isSome = env.survives (opensAfter w.opens b) e := by
    rw [hu'.alive, World.answered_opens, World.performed_opens, hopens, World.answered_errno]
  rcases hend.single with ⟨hnone, -, rfl⟩ | ⟨hsome, -, hv⟩
  · refine ⟨[], newCalls_of_log hlog, ?_⟩
    rw [hnone] at hsurv
    obtain ⟨hl, hc⟩ := not_survives hsurv.symm
    rw [hu'.lastError, Env.rollbackError, if_neg (by rw [← hsurv]; exact Bool.false_ne_true),
      World.answered_opens, World.performed_opens, hopens, World.answered_errno, Env.errorAfter,
      if_pos hl, if_neg (by rw [hc]; exact Bool.false_ne_true)]
  · refine ⟨[(.query .rollback, env.answer u'.log.length)], newCalls_of_log ?_, ?_⟩
    · rw [hv.log, World.answered_log, hlog]
      simp
    · rw [hv.lastError, Env.rollbackError, if_pos (hsurv.symm.trans hsome), World.answered_opens,
        World.answered_errno, hu'.opens, World.answered_opens, World.performed_opens, hopens,
        World.answered_errno, hlen]

/-- A statement fails: the result is the last error after `ROLLBACK`. -/
theorem reports_iff_rollback {u u' : World} {j b : Nat} {c : Call} {done : Bool}
    (hw : w.mysql.isSome) (hb : b = env.answer w.log.length)
    (hu : Handled env (w.answered (.query .startTransaction) b) u) (hlive : u.mysql.isSome)
    (hj : (callsOf qs)[j]? = some c) (hfail : FirstFailure env (w.log.length + 1) j)
    (hu' : Handled env ((u.performed ((callsOf qs).take j)).answered c
      (env.answer (w.log.length + 1 + j))) u')
    (hend : Executed env [.query .rollback] u' done v) :
    Reports qs w v (env.lastError v) ↔ ReportsWhen env w qs := by
  have halive : env.survives w.opens b = true := by
    rw [← World.answered_opens w (.query .startTransaction) b]
    exact hu.alive.symm.trans hlive
  generalize he : env.answer (w.log.length + 1 + j) = e at hu'
  have hne : e ≠ 0 := he ▸ hfail.2
  obtain ⟨hlt, -⟩ := List.getElem?_eq_some_iff.1 hj
  obtain ⟨tail, hcalls, hlast⟩ := calls_of_rollback hu hlt hu' hend
  have hnc : ¬Committed qs (newCalls w v) := by
    rw [hcalls]
    exact not_committed (x := (c, e)) (by simp) hne
  have hfirst : firstError (newCalls w v) = some (if b ≠ 0 then b else e) := by
    rw [hcalls, firstError_cons, firstError_performed, firstError_cons, if_pos hne]
    split <;> rfl
  have hfne : (if b ≠ 0 then b else e) ≠ 0 := by
    split
    · assumption
    · exact hne
  rw [reports_iff_of_not_committed hfne hnc hfirst, hlast, reportsWhen_iff hw (hb ▸ halive), ← hb]
  constructor
  · intro h
    exact .inr ⟨j, hlt, hfail, by rw [he]; exact h⟩
  · rintro (h | ⟨i, -, hi, h⟩)
    · exact absurd (h j (Nat.le_of_lt hlt)) hfail.2
    · obtain rfl := hi.unique hfail
      rw [he] at h
      exact h

/-- A run of `ExecuteTransaction` that returns is right exactly under `ReportsWhen`. -/
theorem reports_iff_of_returned (hqs : qs ≠ [])
    (h : executeTransaction env qs w = .ok r v) : Reports qs w v r ↔ ReportsWhen env w qs := by
  cases executeTransaction_ok hqs h with
  | commit hstart hcalls hlive _ hend =>
    rcases hstart.single with ⟨hnone, -, rfl⟩ | ⟨hw, -, hu⟩
    · rw [hnone] at hlive
      cases hlive
    · obtain ⟨hzero, rfl⟩ := hcalls.of_true
      rw [hu.log, World.answered_log, log_length_append] at hzero
      rcases hend.single with ⟨hnone, -, -⟩ | ⟨-, -, hv⟩
      · rw [World.performed_mysql] at hnone
        rw [hnone] at hlive
        cases hlive
      · refine reports_iff_commit hw hu hlive hzero ?_ hv
        rw [World.performed_log, hu.log, World.answered_log, List.length_append, List.length_map,
          log_length_append]
  | rollback hstart hcalls hend =>
    rcases hstart.single with ⟨hnone, -, rfl⟩ | ⟨hw, -, hu⟩
    · obtain rfl := hcalls.of_null hnone
      exact reports_iff_dead hnone (hend.of_null hnone)
    · rcases hcalls.of_false with ⟨hnone, rfl⟩ | ⟨hlive, j, c, hj, hfail, hu'⟩
      · obtain rfl := hend.of_null hnone
        exact reports_iff_lost hw hu hnone
      · rw [hu.log, World.answered_log, log_length_append] at hfail hu'
        exact reports_iff_rollback hw rfl hu hlive hj hfail hu' hend

/-- **The result of a transaction.** `ExecuteTransaction` returns and reports its outcome exactly
if the outcomes of the calls let it return, and `ReportsWhen` holds of them. -/
theorem executeTransaction_reports_iff (hqs : qs ≠ []) :
    (∃ r v, executeTransaction env qs w = .ok r v ∧ Reports qs w v r) ↔
      env.Returns w qs ∧ ReportsWhen env w qs := by
  rw [← executeTransaction_returns_iff hqs]
  constructor
  · rintro ⟨r, v, h, hreports⟩
    exact ⟨⟨r, v, h⟩, (reports_iff_of_returned hqs h).1 hreports⟩
  · rintro ⟨⟨r, v, h⟩, hwhen⟩
    exact ⟨r, v, h, (reports_iff_of_returned hqs h).2 hwhen⟩

/-! ## A rollback that hides a deadlock -/

theorem executeTransaction_reports_iff_committed :
    ∃ r v, executeTransaction (loginDatabase []) [.text "a", .text "b"] loginConnection = .ok r v ∧
      Reports [.text "a", .text "b"] loginConnection v r := by
  have hreturns : (loginDatabase []).Returns loginConnection [.text "a", .text "b"] := by
    refine ⟨fun _ => by decide, ⟨trivial, trivial, fun _ => ⟨trivial, trivial, fun _ => trivial⟩⟩,
      fun _ => by decide, fun j _ hfail => absurd rfl hfail.2⟩
  exact (executeTransaction_reports_iff (List.cons_ne_nil _ _)).2 ⟨hreturns, by decide⟩

/-- The second statement fails with `ER_LOCK_DEADLOCK`, `ROLLBACK` succeeds, the result is zero. -/
theorem executeTransaction_hides_deadlock :
    ¬∀ (env : Env) (qs : List SqlElementData) (w v : World) (r : Nat), qs ≠ [] →
      executeTransaction env qs w = .ok r v → Reports qs w v r := by
  intro h
  have hrun := h (loginDatabase [0, 0, erLockDeadlock]) [.text "a", .text "b"] loginConnection _ 0
    (by decide) rfl
  refine (hrun.failed ?_).1 rfl
  have hdeadlock : ((.query (.text "b"), erLockDeadlock) : Call × Nat) ∈
      [(.query (.text "a"), 0), (.query (.text "b"), erLockDeadlock), (.query .rollback, 0)] := by
    decide
  exact not_committed (p := (.query .startTransaction, 0)) hdeadlock (by decide)

end GameServer.Database
