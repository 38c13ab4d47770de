import GameServer.Database.Execution
import GameServer.Database.Preparation

/-!
# When a transaction returns

Some error codes end the process, and so does a reconnect that cannot prepare its statements; a
statement that was not prepared, or has more parameters than places, is asserted away.
`executeTransaction_returns_iff` says for which outcomes of the client calls `ExecuteTransaction`
returns at all.

A connection keeps its prepared statements until it is lost for good (`SamePrepared`), so the
condition speaks of those it has before the transaction.
-/

namespace GameServer.Database

open GameServer.Lib GameServer.Lib.Exec

/-! ## Errors that are handled -/

/-- The error `e` of a call after `k` opens is handled: it does not end the process, and where it
costs the handle for good, `PrepareStatements` has nothing to prepare. -/
def Env.Recovers (env : Env) (w : World) (k e : Nat) : Prop :=
  terminates e = false ∧ (lost e = true → env.openCode k ≠ 0 →
    w.prepareError = false ∧ ∀ item ∈ env.stmtMap, w.Skips item)

instance (env : Env) (w : World) (k e : Nat) : Decidable (env.Recovers w k e) :=
  inferInstanceAs (Decidable (_ ∧ (_ → _ → _ ∧ _)))

variable {env : Env} {w v : World} {k e : Nat}

theorem Env.recovers_zero (env : Env) (w : World) (k : Nat) : env.Recovers w k 0 :=
  ⟨rfl, nofun⟩

theorem SamePrepared.skips_iff (h : SamePrepared w v) (item : StmtEntry) :
    v.Skips item ↔ w.Skips item := by
  unfold World.Skips
  rw [h.connectType, h.stmts]

theorem SamePrepared.recovers_iff (h : SamePrepared w v) :
    env.Recovers v k e ↔ env.Recovers w k e := by
  unfold Env.Recovers
  simp only [h.prepareError, h.skips_iff]

/-- An `Open` that failed: `PrepareStatements` is called without a handle. -/
theorem finishReconnect_returns_iff (hcode : env.openCode w.opens ≠ 0) :
    (∃ b v, finishReconnect env (w.attempt env) = .ok b v) ↔
      w.prepareError = false ∧ ∀ item ∈ env.stmtMap, w.Skips item := by
  have hsame : SamePrepared w (w.attempt env) := ⟨rfl, rfl, rfl⟩
  have hnone : (w.attempt env).mysql = none := by
    rw [World.attempt_mysql, Env.connects_of_openCode hcode]
    rfl
  unfold finishReconnect
  constructor
  · rintro ⟨b, v, h⟩
    obtain ⟨ready, u, hu, hret⟩ := bind_eq_ok.1 h
    obtain ⟨hskips, hready, -⟩ := (prepareStatements_null hnone rfl).1 hu
    cases ready with
    | false => cases hret
    | true =>
      rw [hsame.prepareError] at hready
      exact ⟨by simpa using hready, fun item hitem => (hsame.skips_iff item).1 (hskips item hitem)⟩
  · rintro ⟨herror, hskips⟩
    have hprepare : prepareStatements env (w.attempt env) = .ok true _ :=
      (prepareStatements_null hnone rfl).2
      ⟨fun item hitem => (hsame.skips_iff item).2 (hskips item hitem),
        by rw [hsame.prepareError, herror]; rfl, rfl⟩
    rw [bind_of_ok hprepare]
    exact ⟨true, _, rfl⟩

theorem handleMysqlErrcode_returns_iff (e : Nat) (w : World) :
    (∃ b v, handleMysqlErrcode env defaultAgain e w = .ok b v) ↔ env.Recovers w w.opens e := by
  cases he : lost e with
  | false =>
    rw [handleMysqlErrcode_other he]
    unfold Env.Recovers
    rw [he]
    cases terminates e with
    | true => exact iff_of_false nofun fun h => nomatch h.1
    | false => exact iff_of_true ⟨_, _, rfl⟩ ⟨rfl, nofun⟩
  | true =>
    have hlive : terminates e = false := by
      simp only [lost, closesHandle, Bool.or_eq_true, beq_iff_eq] at he
      rcases he with ((rfl | rfl) | rfl) | rfl <;> rfl
    rw [handleMysqlErrcode_lost _ _ he]
    by_cases hcode : env.openCode w.opens = 0
    · rw [if_neg (not_not_intro hcode)]
      change (∃ b v, handleMysqlErrcode env 3 w.prepareError.toNat (w.attempt env) = .ok b v) ↔ _
      rw [handleMysqlErrcode_flag]
      exact iff_of_true ⟨_, _, rfl⟩ ⟨hlive, fun _ hne => absurd hcode hne⟩
    · rw [if_pos hcode, finishReconnect_returns_iff hcode]
      exact ⟨fun h => ⟨hlive, fun _ _ => h⟩, fun h => h.2 he hcode⟩

theorem onError_returns_iff {again : Run Bool}
    (hagain : ∀ v : World, v.mysql = none → again v = .ok false v) (hw : w.mysql.isSome) :
    (∃ r v, onError env again w = .ok r v) ↔ env.Recovers w w.opens w.errno := by
  have hcode : mysqlErrno env w = .ok w.errno w := by
    obtain ⟨k, hk⟩ := Option.isSome_iff_exists.1 hw
    simp [mysqlErrno, Env.lastError, hk]
  rw [← handleMysqlErrcode_returns_iff]
  unfold onError
  rw [bind_of_ok hcode]
  constructor
  · rintro ⟨r, v, h⟩
    obtain ⟨b, u, hu, -⟩ := bind_eq_ok.1 h
    exact ⟨b, u, hu⟩
  · rintro ⟨b, u, hu⟩
    rw [bind_of_ok hu]
    cases b with
    | false => exact ⟨_, _, rfl⟩
    | true => exact ⟨_, _, hagain u ((handleMysqlErrcode_ok hw hu).2 rfl)⟩

/-! ## Statements -/

/-- What follows a call: the error is handled, or the code goes on. -/
theorem ite_returns_iff {again rest : Run Bool} {c : Call} {code : Nat}
    (hagain : ∀ v : World, v.mysql = none → again v = .ok false v) (hw : w.mysql.isSome) :
    (∃ r v, (if code ≠ 0 then onError env again else rest) (w.answered c code) = .ok r v) ↔
      if code ≠ 0 then env.Recovers w w.opens code
      else ∃ r v, rest (w.answered c code) = .ok r v := by
  by_cases hcode : code = 0
  · rw [if_neg (not_not_intro hcode), if_neg (not_not_intro hcode)]
  · rw [if_pos hcode, if_pos hcode,
      onError_returns_iff hagain (w := w.answered c code) (by rwa [World.answered_mysql]),
      World.answered_errno, World.answered_opens, (SamePrepared.answered w c code).recovers_iff]

theorem executeSql_returns_iff {sql : Sql} :
    (∃ r v, executeSql env sql w = .ok r v) ↔
      (w.mysql.isSome → env.Recovers w w.opens (env.answer w.log.length)) := by
  have hnull : ∀ v : World, v.mysql = none → executeSql env sql v = .ok false v :=
    fun _ => executeSqlBody_null
  cases hm : w.mysql with
  | none =>
    rw [hnull w hm]
    exact iff_of_true ⟨_, _, rfl⟩ nofun
  | some k =>
    rw [executeSql_eq]
    unfold executeSqlBody
    rw [get_bind, if_neg (by rw [hm]; exact Bool.false_ne_true), bind_of_ok (call_apply _ w),
      ite_returns_iff hnull (by rw [hm]; rfl)]
    by_cases hcode : env.answer w.log.length = 0
    · rw [if_neg (not_not_intro hcode), hcode]
      exact iff_of_true ⟨_, _, rfl⟩ fun _ => env.recovers_zero w _
    · rw [if_pos hcode]
      exact ⟨fun h _ => h, fun h => h rfl⟩

/-- The statement is not a null pointer, it is prepared, and it has a place for each parameter. -/
def World.Binds (w : World) : SqlElementData → Prop
  | .text _ => True
  | .prepared none => False
  | .prepared (some pStmt) => ∃ stmt, w.stmts[pStmt.preparedStatementIndex]? = some (some stmt) ∧
      pStmt.statementData.length ≤ stmt.paramCount

theorem SamePrepared.binds_iff (h : SamePrepared w v) (q : SqlElementData) :
    v.Binds q ↔ w.Binds q := by
  match q with
  | .text _ => exact Iff.rfl
  | .prepared none => exact Iff.rfl
  | .prepared (some pStmt) =>
    unfold World.Binds
    rw [h.stmts]

/-- Of these calls, from the `n`-th on, the error of the first that fails is handled. -/
def Env.HandlesFirst (env : Env) (w : World) (k : Nat) : Nat → List Call → Prop
  | _, [] => True
  | n, _ :: calls =>
    if env.answer n ≠ 0 then env.Recovers w k (env.answer n) else env.HandlesFirst w k (n + 1) calls

theorem SamePrepared.handlesFirst_iff (h : SamePrepared w v) {n : Nat} (calls : List Call) :
    env.HandlesFirst v k n calls ↔ env.HandlesFirst w k n calls := by
  induction calls generalizing n with
  | nil => exact Iff.rfl
  | cons c calls ih =>
    unfold Env.HandlesFirst
    rw [h.recovers_iff, ih]

/-- The two calls of a prepared statement. -/
theorem sendStmt_returns_iff {pStmt : PreparedStatementBase} {again : Run Bool}
    (hagain : ∀ v : World, v.mysql = none → again v = .ok false v) (hw : w.mysql.isSome) :
    (∃ r v, sendStmt env pStmt again w = .ok r v) ↔
      env.HandlesFirst w w.opens w.log.length [.bindParam pStmt, .execute pStmt] := by
  have hlive : (w.answered (.bindParam pStmt) (env.answer w.log.length)).mysql.isSome := by
    rwa [World.answered_mysql]
  unfold sendStmt Env.HandlesFirst
  rw [bind_of_ok (call_apply _ w), ite_returns_iff hagain hw]
  by_cases hcode : env.answer w.log.length = 0
  · rw [if_neg (not_not_intro hcode), if_neg (not_not_intro hcode), bind_of_ok (call_apply _ _),
      ite_returns_iff hagain hlive, World.answered_opens, World.answered_log, List.length_append,
      List.length_singleton, (SamePrepared.answered w _ _).recovers_iff]
    unfold Env.HandlesFirst
    by_cases hnext : env.answer (w.log.length + 1) = 0
    · rw [if_neg (not_not_intro hnext), if_neg (not_not_intro hnext)]
      exact iff_of_true ⟨_, _, rfl⟩ trivial
    · rw [if_pos hnext, if_pos hnext]
  · rw [if_pos hcode, if_pos hcode]

theorem executeStmt_returns_iff {pStmt : PreparedStatementBase} (hw : w.mysql.isSome) :
    (∃ r v, executeStmt env pStmt w = .ok r v) ↔ w.Binds (.prepared (some pStmt)) ∧
      env.HandlesFirst w w.opens w.log.length [.bindParam pStmt, .execute pStmt] := by
  have hsome : ¬w.mysql.isNone = true := by
    obtain ⟨k, hk⟩ := Option.isSome_iff_exists.1 hw
    rw [hk]
    exact Bool.false_ne_true
  have hnull : ∀ v : World, v.mysql = none → executeStmt env pStmt v = .ok false v :=
    fun _ => executeStmtBody_null
  rw [executeStmt_eq]
  unfold executeStmtBody
  rw [get_bind, if_neg hsome, ← sendStmt_returns_iff hnull hw]
  constructor
  · rintro ⟨r, v, h⟩
    obtain ⟨stmt, u, hu, hrest⟩ := bind_eq_ok.1 h
    obtain rfl := getPrepareStatement_ok hu
    obtain ⟨_, u', hu', hsend⟩ := bind_eq_ok.1 hrest
    obtain rfl := bindParameters_ok hu'
    refine ⟨⟨stmt, getPrepareStatement_found hu, ?_⟩, r, v, hsend⟩
    unfold bindParameters at hu'
    split at hu'
    · assumption
    · cases hu'
  · rintro ⟨⟨stmt, hstmt, hlen⟩, r, v, hsend⟩
    have hget : getPrepareStatement pStmt.preparedStatementIndex w = .ok stmt w := by
      unfold getPrepareStatement
      rw [get_bind, hstmt]
      rfl
    have hbind : bindParameters stmt pStmt w = .ok ⟨⟩ w := by
      unfold bindParameters
      rw [if_pos hlen]
      rfl
    rw [bind_of_ok hget, bind_of_ok hbind]
    exact ⟨r, v, hsend⟩

theorem executeQuery_returns_iff (q : SqlElementData) (hw : w.mysql.isSome) :
    (∃ r v, executeQuery env q w = .ok r v) ↔
      w.Binds q ∧ env.HandlesFirst w w.opens w.log.length q.calls := by
  match q with
  | .text sql =>
    refine executeSql_returns_iff.trans ((forall_prop_of_true hw).trans ?_)
    change _ ↔ True ∧ (if _ then _ else True)
    by_cases hcode : env.answer w.log.length = 0
    · rw [if_neg (not_not_intro hcode), hcode]
      exact iff_of_true (env.recovers_zero w _) ⟨trivial, trivial⟩
    · rw [if_pos hcode, true_and]
  | .prepared none => exact iff_of_false nofun fun h => h.1
  | .prepared (some pStmt) => exact executeStmt_returns_iff hw

/-! ## The loop over the statements -/

/-- The loop over the statements returns, whose calls are the `n`-th and those after it: each
statement it comes to is bound, and the error of the first call that fails is handled. -/
def Env.Completes (env : Env) (w : World) (k : Nat) : Nat → List SqlElementData → Prop
  | _, [] => True
  | n, q :: qs => w.Binds q ∧ env.HandlesFirst w k n q.calls ∧
      ((∀ j < q.calls.length, env.answer (n + j) = 0) → env.Completes w k (n + q.calls.length) qs)

theorem SamePrepared.completes_iff (h : SamePrepared w v) {n : Nat} (qs : List SqlElementData) :
    env.Completes v k n qs ↔ env.Completes w k n qs := by
  induction qs generalizing n with
  | nil => exact Iff.rfl
  | cons q qs ih =>
    unfold Env.Completes
    rw [h.binds_iff, h.handlesFirst_iff, ih]

theorem SamePrepared.performed (w : World) (calls : List Call) :
    SamePrepared w (w.performed calls) := by
  induction calls generalizing w with
  | nil => exact .refl w
  | cons c calls ih => exact (SamePrepared.answered w c 0).trans (ih _)

theorem executeQueries_returns_iff (qs : List SqlElementData) (hw : w.mysql.isSome) :
    (∃ r v, executeQueries env qs w = .ok r v) ↔ env.Completes w w.opens w.log.length qs := by
  induction qs generalizing w with
  | nil => exact iff_of_true ⟨_, _, rfl⟩ trivial
  | cons q qs ih =>
    unfold Env.Completes
    rw [← and_assoc, ← executeQuery_returns_iff q hw]
    -- the rest of the list runs in the state after the calls of `q`
    have hrest : ∀ u, executeQuery env q w = .ok true u →
        (∀ j < q.calls.length, env.answer (w.log.length + j) = 0) ∧
          ((∃ r v, executeQueries env qs u = .ok r v) ↔
            env.Completes w w.opens (w.log.length + q.calls.length) qs) := by
      intro u hu
      obtain ⟨hzero, rfl⟩ := (executeQuery_ok hu).of_true
      refine ⟨hzero, ?_⟩
      rw [ih (w := w.performed q.calls) (by rwa [World.performed_mysql]),
        (SamePrepared.performed w _).completes_iff, World.performed_opens, World.performed_log,
        List.length_append, List.length_map]
    constructor
    · rintro ⟨r, v, h⟩
      obtain ⟨b, u, hu, hqs⟩ := bind_eq_ok.1 h
      refine ⟨⟨b, u, hu⟩, fun hzero => ?_⟩
      cases b with
      | true => exact (hrest u hu).2.1 ⟨r, v, hqs⟩
      | false =>
        rcases (executeQuery_ok hu).of_false with ⟨hnone, -⟩ | ⟨-, j, c, hj, hfail, -⟩
        · rw [hnone] at hw
          cases hw
        · exact absurd (hzero j (List.getElem?_eq_some_iff.1 hj).1) hfail.2
    · rintro ⟨⟨b, u, hu⟩, hqs⟩
      unfold executeQueries
      rw [bind_of_ok hu]
      cases b with
      | true =>
        obtain ⟨hzero, hiff⟩ := hrest u hu
        exact hiff.2 (hqs hzero)
      | false => exact ⟨_, _, rfl⟩

/-! ## Transactions -/

/-- The closing call returns: `COMMIT` behind `length` calls that succeeded, or `ROLLBACK` behind
the one that failed, if the connection is still there. -/
structure Env.Closes (env : Env) (w : World) (k n length : Nat) : Prop where
  commit : (∀ j < length, env.answer (n + j) = 0) → env.Recovers w k (env.answer (n + length))
  rollback : ∀ j < length, FirstFailure env n j → env.survives k (env.answer (n + j)) →
    env.Recovers w (opensAfter k (env.answer (n + j))) (env.answer (n + j + 1))

/-- `ExecuteTransaction` returns: the error of `START TRANSACTION` is handled, and the statements
and the closing call return. Without a connection the first statement fails at once. -/
def Env.Returns (env : Env) (w : World) (qs : List SqlElementData) : Prop :=
  let n := w.log.length + 1
  let b := env.answer w.log.length
  let k := opensAfter w.opens b
  (w.mysql.isSome → env.Recovers w w.opens b) ∧
    if w.mysql.isSome ∧ env.survives w.opens b then
      env.Completes w k n qs ∧ env.Closes w k n (callsOf qs).length
    else qs.head? ≠ some (.prepared none)

variable {qs : List SqlElementData}

/-- Without a handle the first statement fails, unless it is a null pointer. -/
theorem executeQueries_returns_iff_null (hqs : qs ≠ []) (hw : w.mysql = none) :
    (∃ r v, executeQueries env qs w = .ok r v) ↔ qs.head? ≠ some (.prepared none) := by
  have hbody : ∀ {q qs}, executeQuery env q w = .ok false w →
      ∃ r v, executeQueries env (q :: qs) w = .ok r v := by
    intro q qs hq
    unfold executeQueries
    rw [bind_of_ok hq]
    exact ⟨_, _, rfl⟩
  cases qs with
  | nil => exact absurd rfl hqs
  | cons q qs =>
    rw [List.head?_cons, ne_eq, Option.some.injEq]
    cases q with
    | text sql => exact iff_of_true (hbody (executeSqlBody_null hw)) SqlElementData.noConfusion
    | prepared pStmt =>
      rw [SqlElementData.prepared.injEq]
      cases pStmt with
      | some pStmt =>
        exact iff_of_true (hbody (executeStmtBody_null hw)) (Option.some_ne_none pStmt)
      | none =>
        refine iff_of_false ?_ (not_not_intro rfl)
        rintro ⟨r, v, h⟩
        cases h

theorem SamePrepared.closes_iff (h : SamePrepared w v) {n length : Nat} :
    env.Closes v k n length ↔ env.Closes w k n length := by
  constructor
  · intro hv
    exact ⟨fun hzero => h.recovers_iff.1 (hv.commit hzero),
      fun j hj hfail hlive => h.recovers_iff.1 (hv.rollback j hj hfail hlive)⟩
  · intro hw
    exact ⟨fun hzero => h.recovers_iff.2 (hw.commit hzero),
      fun j hj hfail hlive => h.recovers_iff.2 (hw.rollback j hj hfail hlive)⟩

/-- The closing call behind a loop that returned. -/
theorem closing_returns_iff {u : World} {done : Bool} (hw : w.mysql.isSome)
    (hrun : executeQueries env qs w = .ok done u) :
    (∃ r v, executeSql env (if done then .commit else .rollback) u = .ok r v) ↔
      env.Closes w w.opens w.log.length (callsOf qs).length := by
  rw [executeSql_returns_iff]
  cases done with
  | true =>
    obtain ⟨hzero, rfl⟩ := (executeQueries_ok hrun).of_true
    rw [World.performed_mysql, World.performed_opens, World.performed_log, List.length_append,
      List.length_map, (SamePrepared.performed w _).recovers_iff]
    constructor
    · intro h
      exact ⟨fun _ => h hw, fun j hj hfail _ => absurd (hzero j hj) hfail.2⟩
    · intro h _
      exact h.commit hzero
  | false =>
    rcases (executeQueries_ok hrun).of_false with ⟨hnone, -⟩ | ⟨-, j, c, hj, hfail, hu⟩
    · rw [hnone] at hw
      cases hw
    obtain ⟨hlt, -⟩ := List.getElem?_eq_some_iff.1 hj
    have hlog : u.log.length = w.log.length + j + 1 := by
      rw [hu.log, World.answered_log, World.performed_log]
      simp only [List.length_append, List.length_map, List.length_take, List.length_singleton]
      omega
    have hopens : u.opens = opensAfter w.opens (env.answer (w.log.length + j)) := by
      rw [hu.opens, World.answered_opens, World.performed_opens, World.answered_errno]
    have halive : u.mysql.isSome = env.survives w.opens (env.answer (w.log.length + j)) := by
      rw [hu.alive, World.answered_opens, World.performed_opens, World.answered_errno]
    have hsame : u.mysql.isSome → SamePrepared w u := fun hlive =>
      (SamePrepared.performed w _).trans ((SamePrepared.answered _ _ _).trans (hu.prepared hlive))
    rw [hlog, hopens]
    constructor
    · intro h
      refine ⟨fun hzero => absurd (hzero j hlt) hfail.2, fun i hi hifail hlive => ?_⟩
      obtain rfl := hifail.unique hfail
      have hsome := halive.trans hlive
      exact (hsame hsome).recovers_iff.1 (h hsome)
    · intro h hlive
      exact (hsame hlive).recovers_iff.2 (h.rollback j hlt hfail (halive.symm.trans hlive))

/-- `ExecuteTransaction` returns where its three parts do. -/
theorem executeTransaction_returns (hqs : qs ≠ []) :
    (∃ r v, executeTransaction env qs w = .ok r v) ↔
      ∃ b u, executeSql env .startTransaction w = .ok b u ∧
        ∃ done u', executeQueries env qs u = .ok done u' ∧
          ∃ r v, executeSql env (if done then .commit else .rollback) u' = .ok r v := by
  unfold executeTransaction
  rw [if_neg (by simpa using hqs)]
  constructor
  · rintro ⟨r, v, h⟩
    obtain ⟨_, u, hu, hbody⟩ := bind_eq_ok.1 h
    obtain ⟨b, u₀, hstart, hu₀⟩ := bind_eq_ok.1 hu
    cases hu₀
    obtain ⟨done, u', hu', hclose⟩ := bind_eq_ok.1 hbody
    refine ⟨b, u, hstart, done, u', hu', ?_⟩
    cases done with
    | true =>
      obtain ⟨_, v', hend, -⟩ := bind_eq_ok.1 hclose
      obtain ⟨c, v₀, hcommit, -⟩ := bind_eq_ok.1 hend
      exact ⟨c, v₀, hcommit⟩
    | false =>
      obtain ⟨_, v', hend, -⟩ := bind_eq_ok.1 hclose
      obtain ⟨c, v₀, hrollback, -⟩ := bind_eq_ok.1 hend
      exact ⟨c, v₀, hrollback⟩
  · rintro ⟨b, u, hstart, done, u', hu', r, v, hend⟩
    have hbegin : beginTransaction env w = .ok ⟨⟩ u := bind_eq_ok.2 ⟨b, u, hstart, rfl⟩
    rw [bind_of_ok hbegin, bind_of_ok hu']
    cases done with
    | true =>
      have hcommit : commitTransaction env u' = .ok ⟨⟩ v := bind_eq_ok.2 ⟨r, v, hend, rfl⟩
      rw [if_pos rfl, bind_of_ok hcommit]
      exact ⟨_, _, rfl⟩
    | false =>
      have hrollback : rollbackTransaction env u' = .ok ⟨⟩ v := bind_eq_ok.2 ⟨r, v, hend, rfl⟩
      rw [if_neg Bool.false_ne_true, bind_of_ok hrollback]
      exact ⟨_, _, rfl⟩

/-- The statements and the closing call, behind `START TRANSACTION`. -/
theorem body_returns_iff (hqs : qs ≠ []) : (∃ done u, executeQueries env qs w = .ok done u ∧
      ∃ r v, executeSql env (if done then .commit else .rollback) u = .ok r v) ↔
    if w.mysql.isSome then env.Completes w w.opens w.log.length qs ∧
      env.Closes w w.opens w.log.length (callsOf qs).length
    else qs.head? ≠ some (.prepared none) := by
  cases hm : w.mysql with
  | some handle =>
    have hw : w.mysql.isSome := by rw [hm]; rfl
    rw [if_pos Option.isSome_some, ← executeQueries_returns_iff qs hw]
    constructor
    · rintro ⟨done, u, hu, hclose⟩
      exact ⟨⟨done, u, hu⟩, (closing_returns_iff hw hu).1 hclose⟩
    · rintro ⟨⟨done, u, hu⟩, hclose⟩
      exact ⟨done, u, hu, (closing_returns_iff hw hu).2 hclose⟩
  | none =>
    rw [Option.isSome_none, if_neg Bool.false_ne_true, ← executeQueries_returns_iff_null hqs hm]
    constructor
    · rintro ⟨done, u, hu, -⟩
      exact ⟨done, u, hu⟩
    · rintro ⟨done, u, hu⟩
      obtain ⟨rfl, rfl⟩ := executeQueries_null hqs hm hu
      refine ⟨_, _, hu, executeSql_returns_iff.2 fun hsome => ?_⟩
      rw [hm] at hsome
      cases hsome

/-- **When a transaction returns.** -/
theorem executeTransaction_returns_iff (hqs : qs ≠ []) :
    (∃ r v, executeTransaction env qs w = .ok r v) ↔ env.Returns w qs := by
  rw [executeTransaction_returns hqs]
  unfold Env.Returns
  dsimp only
  have hstart := @executeSql_returns_iff env w .startTransaction
  rw [← hstart]
  -- where `START TRANSACTION` returns, the rest runs in the state it left
  have hbody : ∀ b u, executeSql env .startTransaction w = .ok b u →
      ((∃ done u', executeQueries env qs u = .ok done u' ∧
          ∃ r v, executeSql env (if done then .commit else .rollback) u' = .ok r v) ↔
        if w.mysql.isSome ∧ env.survives w.opens (env.answer w.log.length) then
          env.Completes w (opensAfter w.opens (env.answer w.log.length)) (w.log.length + 1) qs ∧
            env.Closes w (opensAfter w.opens (env.answer w.log.length)) (w.log.length + 1)
              (callsOf qs).length
        else qs.head? ≠ some (.prepared none)) := by
    intro b u hu
    rw [body_returns_iff hqs]
    rcases (executeSql_ok hu).single with ⟨hnone, -, rfl⟩ | ⟨hw, -, hhandled⟩
    · simp [hnone]
    · have halive : u.mysql.isSome = env.survives w.opens (env.answer w.log.length) := by
        rw [hhandled.alive, World.answered_opens, World.answered_errno]
      rw [← halive, hw]
      simp only [true_and]
      split
      · next hlive =>
        have hsame : SamePrepared w u :=
          (SamePrepared.answered w _ _).trans (hhandled.prepared hlive)
        rw [hsame.completes_iff, hsame.closes_iff, hhandled.opens, hhandled.log,
          World.answered_opens, World.answered_errno, World.answered_log, List.length_append,
          List.length_singleton]
      · rfl
  constructor
  · rintro ⟨b, u, hu, hrest⟩
    exact ⟨⟨b, u, hu⟩, (hbody b u hu).1 hrest⟩
  · rintro ⟨⟨b, u, hu⟩, hrest⟩
    exact ⟨b, u, hu, (hbody b u hu).2 hrest⟩

end GameServer.Database
