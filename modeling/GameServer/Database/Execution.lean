import GameServer.Database.ErrorHandling

/-!
# Runs of statement calls

`Executed env calls w r v` says how a list of client calls is worked through: in order, each on
the live handle and answered with zero, up to the first one that fails, whose error is handled.
A run of `Execute`, or of the loop over a transaction's statements, that returns is such a run
of its calls (`executeSql_ok`, `executeStmt_ok`, `executeQueries_ok`), and `Executed.of_true`
and `Executed.of_false` read off where it stopped and in which state.
-/

namespace GameServer.Database

open GameServer.Lib GameServer.Lib.Exec

variable {env : Env}

/-! ## The retries of `Execute` -/

theorem executeSqlBody_null {sql : Sql} {again : Run Bool} {w : World} (h : w.mysql = none) :
    executeSqlBody env sql again w = .ok false w := by
  unfold executeSqlBody
  rw [get_bind, if_pos (by rw [h]; rfl)]
  rfl

theorem executeStmtBody_null {pStmt : PreparedStatementBase} {again : Run Bool} {w : World}
    (h : w.mysql = none) : executeStmtBody env pStmt again w = .ok false w := by
  unfold executeStmtBody
  rw [get_bind, if_pos (by rw [h]; rfl)]
  rfl

theorem call_apply (c : Call) (w : World) :
    call env c w = .ok (env.answer w.log.length) (w.answered c (env.answer w.log.length)) := rfl

theorem executeSqlBody_congr {sql : Sql} {x y : Run Bool}
    (hxy : ∀ v : World, v.mysql = none → x v = y v) :
    executeSqlBody env sql x = executeSqlBody env sql y := by
  funext w
  unfold executeSqlBody
  rw [get_bind, get_bind]
  split
  · rfl
  · next hw =>
    rw [bind_of_ok (call_apply _ w), bind_of_ok (call_apply _ w)]
    split
    · refine onError_congr hxy ?_
      simpa [Option.isNone_iff_eq_none, Option.isSome_iff_ne_none] using hw
    · rfl

/-- Looking a statement up and binding its parameters does not change the connection. -/
theorem getPrepareStatement_ok {index : Nat} {stmt : MySqlPreparedStatement} {w v : World}
    (h : getPrepareStatement index w = .ok stmt v) : v = w := by
  unfold getPrepareStatement at h
  rw [get_bind] at h
  cases hs : w.stmts[index]? with
  | none => rw [hs] at h; cases h
  | some found =>
    rw [hs] at h
    cases found with
    | none => cases h
    | some stmt => cases h; rfl

theorem getPrepareStatement_found {index : Nat} {stmt : MySqlPreparedStatement} {w v : World}
    (h : getPrepareStatement index w = .ok stmt v) : w.stmts[index]? = some (some stmt) := by
  unfold getPrepareStatement at h
  rw [get_bind] at h
  cases hs : w.stmts[index]? with
  | none => rw [hs] at h; cases h
  | some found =>
    rw [hs] at h
    cases found with
    | none => cases h
    | some stmt => cases h; rfl

theorem bindParameters_ok {stmt : MySqlPreparedStatement} {pStmt : PreparedStatementBase}
    {w v : World} (h : bindParameters stmt pStmt w = .ok ⟨⟩ v) : v = w := by
  unfold bindParameters at h
  split at h
  · simp only [pure_apply, EStateM.Result.ok.injEq] at h
    exact h.2.symm
  · cases h

/-- What is left of `Execute` once the statement is found and its parameters are bound. -/
def sendStmt (env : Env) (pStmt : PreparedStatementBase) (again : Run Bool) : Run Bool := do
  if (← call env (.bindParam pStmt)) ≠ 0 then onError env again
  else if (← call env (.execute pStmt)) ≠ 0 then onError env again
  else pure true

theorem sendStmt_congr {pStmt : PreparedStatementBase} {x y : Run Bool}
    (hxy : ∀ v : World, v.mysql = none → x v = y v) {w : World} (hw : w.mysql.isSome) :
    sendStmt env pStmt x w = sendStmt env pStmt y w := by
  unfold sendStmt
  rw [bind_of_ok (call_apply _ w), bind_of_ok (call_apply _ w)]
  split
  · exact onError_congr hxy (by rwa [World.answered_mysql])
  · rw [bind_of_ok (call_apply _ _), bind_of_ok (call_apply _ _)]
    split
    · exact onError_congr hxy (by rwa [World.answered_mysql, World.answered_mysql])
    · rfl

theorem executeStmtBody_congr {pStmt : PreparedStatementBase} {x y : Run Bool}
    (hxy : ∀ v : World, v.mysql = none → x v = y v) :
    executeStmtBody env pStmt x = executeStmtBody env pStmt y := by
  funext w
  cases hm : w.mysql with
  | none => rw [executeStmtBody_null hm, executeStmtBody_null hm]
  | some k =>
    have hlive : w.mysql.isSome := by rw [hm]; rfl
    unfold executeStmtBody
    have hsome : ¬w.mysql.isNone = true := by
      rw [hm]
      exact Bool.false_ne_true
    rw [get_bind, get_bind, if_neg hsome, if_neg hsome]
    cases hg : getPrepareStatement pStmt.preparedStatementIndex w with
    | error e v => rw [bind_of_error hg, bind_of_error hg]
    | ok stmt v =>
      obtain rfl := getPrepareStatement_ok hg
      rw [bind_of_ok hg, bind_of_ok hg]
      cases hb : bindParameters stmt pStmt v with
      | error e v => rw [bind_of_error hb, bind_of_error hb]
      | ok _ u =>
        obtain rfl := bindParameters_ok hb
        rw [bind_of_ok hb, bind_of_ok hb]
        exact sendStmt_congr hxy hlive

theorem executeSql_eq (env : Env) (sql : Sql) :
    executeSql env sql = executeSqlBody env sql (executeSql env sql) :=
  executeSqlBody_congr fun _ hv => (executeSqlBody_null hv).trans (executeSqlBody_null hv).symm

theorem executeStmt_eq (env : Env) (pStmt : PreparedStatementBase) :
    executeStmt env pStmt = executeStmtBody env pStmt (executeStmt env pStmt) :=
  executeStmtBody_congr fun _ hv => (executeStmtBody_null hv).trans (executeStmtBody_null hv).symm

/-! ## Working through a list of calls -/

/-- The calls are made in order up to the first that fails. -/
inductive Executed (env : Env) : List Call → World → Bool → World → Prop
  | done (w : World) : Executed env [] w true w
  | dead {w : World} (calls : List Call) (h : w.mysql = none) : Executed env calls w false w
  | fail {w v : World} {c : Call} (calls : List Call) (h : w.mysql.isSome)
      (hcode : env.answer w.log.length ≠ 0)
      (hv : Handled env (w.answered c (env.answer w.log.length)) v) :
      Executed env (c :: calls) w false v
  | call {w v : World} {c : Call} {calls : List Call} {r : Bool} (h : w.mysql.isSome)
      (hcode : env.answer w.log.length = 0) (hrest : Executed env calls (w.answered c 0) r v) :
      Executed env (c :: calls) w r v

namespace Executed

/-- A list that failed fails at the same place when it is continued. -/
theorem append_false {cs : List Call} {w v : World} {r : Bool} (h : Executed env cs w r v)
    (hr : r = false) (ds : List Call) : Executed env (cs ++ ds) w false v := by
  induction h with
  | done => cases hr
  | dead calls h => exact .dead _ h
  | fail calls h hcode hv => exact .fail _ h hcode hv
  | call h hcode _ ih => exact .call h hcode (ih hr)

theorem append {cs ds : List Call} {w v u : World} {r b : Bool} (h : Executed env cs w b v)
    (hb : b = true) (k : Executed env ds v r u) : Executed env (cs ++ ds) w r u := by
  induction h with
  | done => exact k
  | dead => cases hb
  | fail => cases hb
  | call h hcode _ ih => exact .call h hcode (ih hb k)

end Executed

/-! ## Where a run of calls stops -/

/-- Of the calls from the `n`-th on, the first that fails is `j` calls later. -/
def FirstFailure (env : Env) (n j : Nat) : Prop :=
  (∀ i < j, env.answer (n + i) = 0) ∧ env.answer (n + j) ≠ 0

theorem FirstFailure.unique {n i j : Nat} (hi : FirstFailure env n i) (hj : FirstFailure env n j) :
    i = j := by
  rcases Nat.lt_trichotomy i j with h | h | h
  · exact absurd (hj.1 i h) hi.2
  · exact h
  · exact absurd (hi.1 j h) hj.2

theorem FirstFailure.succ {n j : Nat} (h0 : env.answer n = 0) (h : FirstFailure env (n + 1) j) :
    FirstFailure env n (j + 1) := by
  constructor
  · intro i hi
    cases i with
    | zero => exact h0
    | succ i =>
      have hnext := h.1 i (by omega)
      rwa [Nat.add_right_comm] at hnext
  · have hfail := h.2
    rwa [Nat.add_right_comm] at hfail

/-- The state after calls that all succeed. -/
def World.performed (w : World) : List Call → World
  | [] => w
  | c :: calls => (w.answered c 0).performed calls

@[simp] theorem World.performed_mysql (w : World) (calls : List Call) :
    (w.performed calls).mysql = w.mysql := by
  induction calls generalizing w with
  | nil => rfl
  | cons c calls ih => rw [World.performed, ih, World.answered_mysql]

@[simp] theorem World.performed_opens (w : World) (calls : List Call) :
    (w.performed calls).opens = w.opens := by
  induction calls generalizing w with
  | nil => rfl
  | cons c calls ih => rw [World.performed, ih, World.answered_opens]

@[simp] theorem World.performed_log (w : World) (calls : List Call) :
    (w.performed calls).log = w.log ++ calls.map (·, 0) := by
  induction calls generalizing w with
  | nil => simp [World.performed]
  | cons c calls ih => simp [World.performed, ih]

namespace Executed

theorem of_true {calls : List Call} {w v : World} (h : Executed env calls w true v) :
    (∀ j < calls.length, env.answer (w.log.length + j) = 0) ∧ v = w.performed calls := by
  generalize hr : true = r at h
  induction h with
  | done => exact ⟨nofun, rfl⟩
  | dead => cases hr
  | fail => cases hr
  | @call w v c calls r _ hcode _ ih =>
    obtain ⟨hzero, rfl⟩ := ih hr
    refine ⟨?_, rfl⟩
    intro j hj
    cases j with
    | zero => exact hcode
    | succ j =>
      have hnext := hzero j (by simpa using hj)
      rwa [World.answered_log, List.length_append, List.length_singleton, Nat.add_assoc,
        Nat.add_comm 1] at hnext

theorem of_false {calls : List Call} {w v : World} (h : Executed env calls w false v) :
    (w.mysql = none ∧ v = w) ∨
      w.mysql.isSome ∧ ∃ j c, calls[j]? = some c ∧ FirstFailure env w.log.length j ∧
        Handled env ((w.performed (calls.take j)).answered c
          (env.answer (w.log.length + j))) v := by
  generalize hr : false = r at h
  induction h with
  | done => cases hr
  | dead _ h => exact .inl ⟨h, rfl⟩
  | @fail w v c calls h hcode hv =>
    exact .inr ⟨h, 0, c, rfl, ⟨nofun, hcode⟩, hv⟩
  | @call w v c calls r h hcode _ ih =>
    rcases ih hr with ⟨hnone, -⟩ | ⟨-, j, d, hget, hfail, hv⟩
    · rw [World.answered_mysql] at hnone
      rw [hnone] at h
      cases h
    · rw [World.answered_log, List.length_append, List.length_singleton] at hfail hv
      refine .inr ⟨h, j + 1, d, hget, hfail.succ hcode, ?_⟩
      rwa [Nat.add_right_comm] at hv

theorem of_null {calls : List Call} {w v : World} {r : Bool} (h : Executed env calls w r v)
    (hw : w.mysql = none) : v = w := by
  cases h with
  | done => rfl
  | dead => rfl
  | fail _ h => rw [hw] at h; cases h
  | call h => rw [hw] at h; cases h

theorem single {c : Call} {w v : World} {r : Bool} (h : Executed env [c] w r v) :
    (w.mysql = none ∧ r = false ∧ v = w) ∨
      w.mysql.isSome ∧ (r = true ↔ env.answer w.log.length = 0) ∧
        Handled env (w.answered c (env.answer w.log.length)) v := by
  cases h with
  | dead _ h => exact .inl ⟨h, rfl, rfl⟩
  | fail _ h hcode hv => exact .inr ⟨h, ⟨nofun, fun h0 => absurd h0 hcode⟩, hv⟩
  | call h hcode hrest =>
    cases hrest with
    | dead _ hnone =>
      rw [World.answered_mysql] at hnone
      rw [hnone] at h
      cases h
    | done =>
      refine .inr ⟨h, ⟨fun _ => hcode, fun _ => rfl⟩, ?_⟩
      rw [hcode]
      obtain ⟨k, hk⟩ := Option.isSome_iff_exists.1 h
      exact ⟨rfl, rfl, rfl, rfl, by rw [World.answered_mysql, h]; rfl,
        by simp only [Env.lastError, World.answered_mysql, hk]; rfl, fun _ => .refl _⟩

end Executed

/-! ## `Execute` works through its calls -/

/-- An error that was handled ends in failure: the statement is not executed again. -/
theorem onError_ok {again : Run Bool} (hagain : ∀ v : World, v.mysql = none → again v = .ok false v)
    {w v : World} {r : Bool} (hw : w.mysql.isSome) (h : onError env again w = .ok r v) :
    r = false ∧ Handled env w v := by
  have hcode : mysqlErrno env w = .ok w.errno w := by
    obtain ⟨k, hk⟩ := Option.isSome_iff_exists.1 hw
    simp [mysqlErrno, Env.lastError, hk]
  unfold onError at h
  rw [bind_of_ok hcode] at h
  obtain ⟨b, u, hu, h⟩ := bind_eq_ok.1 h
  obtain ⟨hhandled, hnull⟩ := handleMysqlErrcode_ok hw hu
  cases b with
  | false =>
    obtain ⟨rfl, rfl⟩ : r = false ∧ v = u := by simpa [eq_comm] using h
    exact ⟨rfl, hhandled⟩
  | true =>
    rw [if_pos rfl, hagain u (hnull rfl)] at h
    obtain ⟨rfl, rfl⟩ : r = false ∧ v = u := by simpa [eq_comm] using h
    exact ⟨rfl, hhandled⟩

theorem executeSql_ok {sql : Sql} {w v : World} {r : Bool} (h : executeSql env sql w = .ok r v) :
    Executed env [.query sql] w r v := by
  cases hm : w.mysql with
  | none =>
    rw [executeSql, executeSqlBody_null hm] at h
    obtain ⟨rfl, rfl⟩ : r = false ∧ v = w := by simpa [eq_comm] using h
    exact .dead _ hm
  | some k =>
    have hlive : w.mysql.isSome := by rw [hm]; rfl
    rw [executeSql_eq] at h
    unfold executeSqlBody at h
    rw [get_bind, if_neg (by rw [hm]; exact Bool.false_ne_true), bind_of_ok (call_apply _ w)] at h
    split at h
    · next hcode =>
      obtain ⟨rfl, hv⟩ := onError_ok (fun _ => executeSqlBody_null)
        (by rwa [World.answered_mysql]) h
      exact .fail _ hlive hcode hv
    · next hcode =>
      have hzero : env.answer w.log.length = 0 := Decidable.not_not.1 hcode
      rw [hzero] at h
      obtain ⟨rfl, rfl⟩ : r = true ∧ v = w.answered (.query sql) 0 := by simpa [eq_comm] using h
      exact .call hlive hzero (.done _)

theorem executeStmt_ok {pStmt : PreparedStatementBase} {w v : World} {r : Bool}
    (h : executeStmt env pStmt w = .ok r v) :
    Executed env [.bindParam pStmt, .execute pStmt] w r v := by
  cases hm : w.mysql with
  | none =>
    rw [executeStmt, executeStmtBody_null hm] at h
    obtain ⟨rfl, rfl⟩ : r = false ∧ v = w := by simpa [eq_comm] using h
    exact .dead _ hm
  | some k =>
    have hlive : w.mysql.isSome := by rw [hm]; rfl
    rw [executeStmt_eq] at h
    unfold executeStmtBody at h
    rw [get_bind, if_neg (by rw [hm]; exact Bool.false_ne_true)] at h
    obtain ⟨stmt, u, hu, hbind⟩ := bind_eq_ok.1 h
    obtain rfl := getPrepareStatement_ok hu
    obtain ⟨_, u', hu', hsend⟩ := bind_eq_ok.1 hbind
    obtain rfl := bindParameters_ok hu'
    have hnull : ∀ v : World, v.mysql = none → executeStmt env pStmt v = .ok false v :=
      fun _ => executeStmtBody_null
    rw [bind_of_ok (call_apply _ _)] at hsend
    split at hsend
    · next hcode =>
      obtain ⟨rfl, hv⟩ := onError_ok hnull (by rwa [World.answered_mysql]) hsend
      exact .fail _ hlive hcode hv
    · next hcode =>
      have hzero : env.answer u'.log.length = 0 := Decidable.not_not.1 hcode
      rw [hzero, bind_of_ok (call_apply _ _)] at hsend
      refine .call hlive hzero ?_
      have hlive' : (u'.answered (.bindParam pStmt) 0).mysql.isSome := by
        rwa [World.answered_mysql]
      split at hsend
      · next hcode =>
        obtain ⟨rfl, hv⟩ := onError_ok hnull (by rwa [World.answered_mysql]) hsend
        exact .fail _ hlive' hcode hv
      · next hcode =>
        have hzero : env.answer (u'.answered (.bindParam pStmt) 0).log.length = 0 :=
          Decidable.not_not.1 hcode
        rw [hzero] at hsend
        obtain ⟨rfl, rfl⟩ : r = true ∧ v = (u'.answered (.bindParam pStmt) 0).answered
          (.execute pStmt) 0 := by simpa [eq_comm] using hsend
        exact .call hlive' hzero (.done _)

/-- The client calls that execute a statement of a transaction. -/
def SqlElementData.calls : SqlElementData → List Call
  | .text sql => [.query (.text sql)]
  | .prepared none => []
  | .prepared (some pStmt) => [.bindParam pStmt, .execute pStmt]

def callsOf (queries : List SqlElementData) : List Call := queries.flatMap SqlElementData.calls

@[simp] theorem callsOf_cons (q : SqlElementData) (qs : List SqlElementData) :
    callsOf (q :: qs) = q.calls ++ callsOf qs := rfl

theorem executeQuery_ok {q : SqlElementData} {w v : World} {r : Bool}
    (h : executeQuery env q w = .ok r v) : Executed env q.calls w r v := by
  match q with
  | .text sql => exact executeSql_ok h
  | .prepared none => cases h
  | .prepared (some pStmt) => exact executeStmt_ok h

/-- **The loop over the statements** works through their calls. -/
theorem executeQueries_ok {qs : List SqlElementData} {w v : World} {r : Bool}
    (h : executeQueries env qs w = .ok r v) : Executed env (callsOf qs) w r v := by
  induction qs generalizing w with
  | nil =>
    obtain ⟨rfl, rfl⟩ : r = true ∧ v = w := by simpa [executeQueries, eq_comm] using h
    exact .done _
  | cons q qs ih =>
    unfold executeQueries at h
    obtain ⟨b, u, hu, h⟩ := bind_eq_ok.1 h
    cases b with
    | true => exact (executeQuery_ok hu).append rfl (ih h)
    | false =>
      obtain ⟨rfl, rfl⟩ : r = false ∧ v = u := by simpa [eq_comm] using h
      exact (executeQuery_ok hu).append_false rfl _

/-- Without a handle the first statement fails at once. -/
theorem executeQueries_null {qs : List SqlElementData} (hqs : qs ≠ []) {w v : World} {r : Bool}
    (hw : w.mysql = none) (h : executeQueries env qs w = .ok r v) : r = false ∧ v = w := by
  cases qs with
  | nil => exact absurd rfl hqs
  | cons q qs =>
    unfold executeQueries at h
    obtain ⟨b, u, hu, hrest⟩ := bind_eq_ok.1 h
    have hq : executeQuery env q w = .ok false w := by
      match q with
      | .text sql => exact executeSqlBody_null hw
      | .prepared none => cases hu
      | .prepared (some pStmt) => exact executeStmtBody_null hw
    obtain ⟨rfl, rfl⟩ : b = false ∧ u = w := by
      rw [hq] at hu
      simpa [eq_comm] using hu
    simpa [eq_comm] using hrest

/-- A null pointer among the statements stops the loop. -/
theorem executeQueries_some {qs : List SqlElementData} {w v : World}
    (h : executeQueries env qs w = .ok true v) : ∀ q ∈ qs, q ≠ .prepared none := by
  induction qs generalizing w with
  | nil => exact fun q hq => absurd hq List.not_mem_nil
  | cons q qs ih =>
    unfold executeQueries at h
    obtain ⟨b, u, hu, hrest⟩ := bind_eq_ok.1 h
    cases b with
    | false => cases hrest
    | true =>
      intro p hp
      rcases List.mem_cons.1 hp with rfl | hp
      · rintro rfl
        cases hu
      · exact ih hrest p hp

/-- A run of `ExecuteTransaction` that returned: the calls between `START TRANSACTION` and the
closing statement, and the closing statement with the result. -/
inductive TransactionRun (env : Env) (qs : List SqlElementData) (w : World) : Nat → World → Prop
  | commit {b₀ b : Bool} {u u' v : World} (hstart : Executed env [.query .startTransaction] w b₀ u)
      (hcalls : Executed env (callsOf qs) u true u') (hlive : u.mysql.isSome)
      (hsome : ∀ q ∈ qs, q ≠ .prepared none)
      (hend : Executed env [.query .commit] u' b v) : TransactionRun env qs w 0 v
  | rollback {b₀ b : Bool} {u u' v : World}
      (hstart : Executed env [.query .startTransaction] w b₀ u)
      (hcalls : Executed env (callsOf qs) u false u')
      (hend : Executed env [.query .rollback] u' b v) :
      TransactionRun env qs w (env.lastError v) v

theorem executeTransaction_ok {qs : List SqlElementData} (hqs : qs ≠ []) {w v : World} {r : Nat}
    (h : executeTransaction env qs w = .ok r v) : TransactionRun env qs w r v := by
  unfold executeTransaction at h
  rw [if_neg (by simpa using hqs)] at h
  obtain ⟨_, u, hu, hbody⟩ := bind_eq_ok.1 h
  obtain ⟨b₀, u₀, hstart, hu₀⟩ := bind_eq_ok.1 hu
  obtain rfl : u = u₀ := by simpa [eq_comm] using hu₀
  obtain ⟨done, u', hu', hclose⟩ := bind_eq_ok.1 hbody
  cases done with
  | true =>
    obtain ⟨_, v', hend, hret⟩ := bind_eq_ok.1 hclose
    obtain ⟨b, v₀, hcommit, hv₀⟩ := bind_eq_ok.1 hend
    obtain rfl : v' = v₀ := by simpa [eq_comm] using hv₀
    obtain ⟨rfl, rfl⟩ : r = 0 ∧ v = v' := by simpa [eq_comm] using hret
    have hlive : u.mysql.isSome := by
      rw [Option.isSome_iff_ne_none]
      intro hnone
      cases (executeQueries_null hqs hnone hu').1
    exact .commit (executeSql_ok hstart) (executeQueries_ok hu') hlive
      (executeQueries_some hu') (executeSql_ok hcommit)
  | false =>
    obtain ⟨_, v', hend, hret⟩ := bind_eq_ok.1 hclose
    obtain ⟨b, v₀, hrollback, hv₀⟩ := bind_eq_ok.1 hend
    obtain rfl : v' = v₀ := by simpa [eq_comm] using hv₀
    obtain ⟨rfl, rfl⟩ : r = env.lastError v' ∧ v = v' := by
      simpa [getLastError, mysqlErrno, eq_comm] using hret
    exact .rollback (executeSql_ok hstart) (executeQueries_ok hu') (executeSql_ok hrollback)

end GameServer.Database
