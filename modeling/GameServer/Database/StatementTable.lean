import GameServer.Database.Preparation
import GameServer.Database.SqlTask

/-!
# Where the statements of a connection come from

Every prepared statement of a connection was made from an entry of the statement table that its type
joins, and its number of parameters is that of the text of the entry. Executing leaves the size of
`_stmts` as it is, also where it reconnects and prepares again (`executeTask_refills` and the like):
only `PrepareStatements` of a connection that is not reconnecting resizes it.
-/

namespace GameServer.Database

open GameServer.Lib GameServer.Lib.Exec

/-- A connection of type `t` has this statement at this index after preparing it. -/
def Env.FromTable (env : Env) (t : ConnectionType) (index : Nat) (stmt : MySqlPreparedStatement) :
    Prop :=
  ∃ item ∈ env.stmtMap, item.index = index ∧ t.Joins item.joinConnectionType ∧
    stmt.sqlString = item.sql ∧ stmt.paramCount = env.stmtParamCount item.sql

/-- Going from `w` to `v` each statement was kept, dropped or made from the table. -/
structure Refills (env : Env) (w v : World) : Prop where
  connectType : v.connectType = w.connectType
  length : v.stmts.length = w.stmts.length
  fromTable : ∀ index stmt, v.stmts[index]? = some (some stmt) →
    w.stmts[index]? = some (some stmt) ∨ env.FromTable w.connectType index stmt

/-- The same for a connection of type `t`. -/
def RefillsAt (env : Env) (t : ConnectionType) (w v : World) : Prop :=
  w.connectType = t → Refills env w v

variable {env : Env} {t : ConnectionType}

namespace Refills

variable {w v u : World}

theorem refl (w : World) : Refills env w w := ⟨rfl, rfl, fun _ _ h => .inl h⟩

theorem trans (w v u : World) (h : Refills env w v) (k : Refills env v u) : Refills env w u := by
  refine ⟨k.connectType.trans h.connectType, k.length.trans h.length, ?_⟩
  intro index stmt hstmt
  rcases k.fromTable index stmt hstmt with hold | hnew
  · exact h.fromTable index stmt hold
  · exact .inr (h.connectType ▸ hnew)

theorem of_same (htype : v.connectType = w.connectType) (hstmts : v.stmts = w.stmts) :
    Refills env w v :=
  ⟨htype, congrArg _ hstmts, fun _ _ h => .inl (hstmts ▸ h)⟩

theorem of_set {index : Nat} {stmt : Option MySqlPreparedStatement}
    (htype : v.connectType = w.connectType) (hstmts : v.stmts = w.stmts.set index stmt)
    (hstmt : ∀ s, stmt = some s → env.FromTable w.connectType index s) : Refills env w v := by
  refine ⟨htype, by rw [hstmts, List.length_set], ?_⟩
  intro i s hs
  rw [hstmts] at hs
  by_cases hi : index = i
  · subst hi
    rw [List.getElem?_set] at hs
    split at hs
    · split at hs
      · exact .inr (hstmt s (Option.some.inj hs))
      · cases hs
    · exact .inl hs
  · rw [List.getElem?_set_ne hi] at hs
    exact .inl hs

end Refills

theorem RefillsAt.refl (w : World) : RefillsAt env t w w := fun _ => .refl w

theorem RefillsAt.trans (w v u : World) (h : RefillsAt env t w v) (k : RefillsAt env t v u) :
    RefillsAt env t w u := by
  intro ht
  have hv := h ht
  exact .trans w v u hv (k (hv.connectType.trans ht))

/-! ## Preparing -/

theorem setStmt_refills {index : Nat} {stmt : Option MySqlPreparedStatement}
    (hstmt : ∀ s, stmt = some s → env.FromTable t index s) :
    Keeps (RefillsAt env t) (setStmt index stmt) := by
  refine .bind RefillsAt.trans (.of_get .refl) fun _ => .ite (.of_modify ?_) (.of_throw .refl _)
  intro w ht
  exact .of_set rfl rfl fun s hs => ht ▸ hstmt s hs

theorem mysqlStmtInit_refills : Keeps (RefillsAt env t) (mysqlStmtInit env) := by
  refine .bind RefillsAt.trans (.of_get .refl) fun w => ?_
  split
  · exact .of_throw .refl _
  · refine .bind RefillsAt.trans (.of_modify fun _ _ => .of_same rfl rfl) fun _ => ?_
    exact .of_pure .refl _

theorem prepareError_refills : Keeps (ε := Halt) (RefillsAt env t)
    (modify fun w => { w with prepareError := true }) :=
  .of_modify fun _ _ => .of_same rfl rfl

theorem prepareStatement_refills {item : StmtEntry} (hitem : item ∈ env.stmtMap) :
    Keeps (Refills env) (prepareStatement env item.index item.sql item.joinConnectionType) := by
  intro w
  unfold prepareStatement
  rw [get_bind]
  by_cases hjoins : w.connectType.Joins item.joinConnectionType
  · rw [if_pos hjoins]
    refine Keeps.bind RefillsAt.trans mysqlStmtInit_refills (fun stmt => ?_) w rfl
    cases stmt with
    | none => exact prepareError_refills
    | some stmt =>
      refine .bind RefillsAt.trans (fun _ _ => .of_same rfl rfl) fun _ => ?_
      refine .ite prepareError_refills (setStmt_refills fun s hs => ?_)
      cases hs
      exact ⟨item, hitem, rfl, hjoins, rfl, rfl⟩
  · rw [if_neg hjoins]
    exact setStmt_refills (fun s hs => by cases hs) w rfl

theorem forM_prepareStatement_refills (env : Env) :
    Keeps (Refills env) (env.stmtMap.forM fun item =>
      prepareStatement env item.index item.sql item.joinConnectionType) :=
  .forM_mem Refills.refl Refills.trans fun _ hitem => prepareStatement_refills hitem

/-- The connection when its statements are prepared. -/
def World.sized (env : Env) (w : World) : World :=
  if w.reconnecting then w else resizeStmts w env.stmtMax

theorem doPrepareStatements_eq (w : World) : doPrepareStatements env w =
    env.stmtMap.forM (fun item =>
      prepareStatement env item.index item.sql item.joinConnectionType) (w.sized env) := by
  unfold doPrepareStatements World.sized
  rw [get_bind]
  by_cases hr : w.reconnecting = true
  · simp [hr]
  · simp [hr]

theorem prepareStatements_refills (env : Env) (w : World) :
    Refills env (w.sized env) (last (prepareStatements env w)) := by
  have hload := forM_prepareStatement_refills env (w.sized env)
  rw [← doPrepareStatements_eq] at hload
  unfold prepareStatements
  cases hrun : doPrepareStatements env w with
  | error halt v =>
    rw [bind_of_error hrun]
    rwa [hrun] at hload
  | ok r v =>
    rw [bind_of_ok hrun]
    rw [hrun] at hload
    exact .trans _ _ _ hload (.of_same rfl rfl)

theorem resizeStmts_some {w : World} {n index : Nat} {stmt : MySqlPreparedStatement}
    (h : (resizeStmts w n).stmts[index]? = some (some stmt)) :
    w.stmts[index]? = some (some stmt) := by
  change (w.stmts.take n ++ List.replicate (n - w.stmts.length) none)[index]? = _ at h
  rw [List.getElem?_append] at h
  split at h
  · rw [List.getElem?_take] at h
    split at h
    · exact h
    · cases h
  · rw [List.getElem?_replicate] at h
    split at h <;> cases h

theorem sized_some {w : World} {index : Nat} {stmt : MySqlPreparedStatement}
    (h : (w.sized env).stmts[index]? = some (some stmt)) : w.stmts[index]? = some (some stmt) := by
  unfold World.sized at h
  split at h
  · exact h
  · exact resizeStmts_some h

@[simp] theorem sized_connectType (w : World) : (w.sized env).connectType = w.connectType := by
  unfold World.sized
  split <;> rfl

@[simp] theorem sized_mysql (w : World) : (w.sized env).mysql = w.mysql := by
  unfold World.sized
  split <;> rfl

/-- Where preparing succeeds, the connection has each statement that it joins. -/
theorem prepareStatements_loaded (hkeys : (env.stmtMap.map StmtEntry.index).Nodup) {w v : World}
    (h : prepareStatements env w = .ok true v) {item : StmtEntry} (hitem : item ∈ env.stmtMap)
    (hjoins : v.connectType.Joins item.joinConnectionType) :
    ∃ stmt, v.stmts[item.index]? = some (some stmt) := by
  cases hw : w.mysql with
  | some k =>
    obtain ⟨-, -, hloaded⟩ := prepareStatements_ok hkeys hw h
    obtain ⟨stmt, hstmt, -, -⟩ := hloaded item hitem hjoins
    exact ⟨stmt, hstmt⟩
  | none =>
    have htype : v.connectType = w.connectType := by
      have hrefills := prepareStatements_refills env w
      rw [h] at hrefills
      exact hrefills.connectType.trans (sized_connectType w)
    obtain ⟨_, u, hu, -⟩ := bind_eq_ok.1 h
    rw [doPrepareStatements_eq] at hu
    obtain ⟨hskips, -⟩ := (forM_prepareStatement_null ((sized_mysql w).trans hw)).1 hu
    have hnone := (hskips item hitem).1
    rw [sized_connectType, ← htype] at hnone
    exact absurd hjoins hnone

/-! ## Executing -/

theorem finishReconnect_refills {w : World} (hw : w.reconnecting = true) :
    Refills env w (last (finishReconnect env w)) := by
  have hprepare := prepareStatements_refills env w
  have hsized : w.sized env = w := if_pos hw
  rw [hsized] at hprepare
  unfold finishReconnect
  cases hrun : prepareStatements env w with
  | error halt v =>
    rw [bind_of_error hrun]
    rwa [hrun] at hprepare
  | ok ready v =>
    rw [bind_of_ok hrun]
    rw [hrun] at hprepare
    cases ready with
    | false => exact hprepare
    | true => exact .trans _ _ _ hprepare (.of_same rfl rfl)

theorem handleMysqlErrcode_refills (again e : Nat) :
    Keeps (Refills env) (handleMysqlErrcode env again e) := by
  intro w
  have hattempt : Refills env w (w.attempt env) := .of_same rfl rfl
  by_cases he : lost e = true
  · rw [handleMysqlErrcode_lost _ _ he]
    split
    · exact .trans _ _ _ hattempt (finishReconnect_refills rfl)
    · cases again with
      | zero => exact hattempt
      | succ again =>
        simp only [handleMysqlErrcode_flag]
        exact hattempt
  · rw [handleMysqlErrcode_other (eq_false_of_ne_true he)]
    split <;> exact .refl w

theorem mysqlErrno_refills : Keeps (Refills env) (mysqlErrno env) := Refills.refl

theorem call_refills (c : Call) : Keeps (Refills env) (call env c) := by
  intro w
  have hsame := SamePrepared.answered w c (env.answer w.log.length)
  exact .of_same hsame.connectType hsame.stmts

theorem getPrepareStatement_refills (index : Nat) :
    Keeps (Refills env) (getPrepareStatement index) := by
  refine .bind Refills.trans (.of_get .refl) fun w => ?_
  split
  · exact .of_pure .refl _
  · exact .of_throw .refl _

theorem onError_refills {again : Run Bool} (h : Keeps (Refills env) again) :
    Keeps (Refills env) (onError env again) := by
  refine .bind Refills.trans mysqlErrno_refills fun e => ?_
  refine .bind Refills.trans (handleMysqlErrcode_refills _ e) fun handled => ?_
  exact .ite h (.of_pure .refl _)

theorem executeSqlBody_refills {sql : Sql} {again : Run Bool} (h : Keeps (Refills env) again) :
    Keeps (Refills env) (executeSqlBody env sql again) := by
  refine .bind Refills.trans (.of_get .refl) fun w => .ite (.of_pure .refl _) ?_
  refine .bind Refills.trans (call_refills _) fun code => ?_
  exact .ite (onError_refills h) (.of_pure .refl _)

theorem executeStmtBody_refills {pStmt : PreparedStatementBase} {again : Run Bool}
    (h : Keeps (Refills env) again) : Keeps (Refills env) (executeStmtBody env pStmt again) := by
  refine .bind Refills.trans (.of_get .refl) fun w => .ite (.of_pure .refl _) ?_
  refine .bind Refills.trans (getPrepareStatement_refills _) fun stmt => ?_
  refine .bind Refills.trans (.ite (.of_pure .refl _) (.of_throw .refl _)) fun _ => ?_
  refine .bind Refills.trans (call_refills _) fun code => .ite (onError_refills h) ?_
  refine .bind Refills.trans (call_refills _) fun code => ?_
  exact .ite (onError_refills h) (.of_pure .refl _)

theorem executeSql_refills (sql : Sql) : Keeps (Refills env) (executeSql env sql) :=
  executeSqlBody_refills (executeSqlBody_refills (.of_throw .refl _))

theorem executeStmt_refills (pStmt : PreparedStatementBase) :
    Keeps (Refills env) (executeStmt env pStmt) :=
  executeStmtBody_refills (executeStmtBody_refills (.of_throw .refl _))

theorem executeQueries_refills (queries : List SqlElementData) :
    Keeps (Refills env) (executeQueries env queries) := by
  induction queries with
  | nil => exact .of_pure .refl _
  | cons query queries ih =>
    refine .bind Refills.trans ?_ fun _ => .ite ih (.of_pure .refl _)
    match query with
    | .prepared none => exact .of_throw .refl _
    | .prepared (some pStmt) => exact executeStmt_refills pStmt
    | .text sql => exact executeSql_refills _

theorem executeTransaction_refills (queries : List SqlElementData) :
    Keeps (Refills env) (executeTransaction env queries) := by
  have hsend : ∀ sql, Keeps (Refills env) (do let _ ← executeSql env sql) := fun sql =>
    .bind Refills.trans (executeSql_refills sql) fun _ => .of_pure .refl _
  refine .ite (.of_pure .refl _) ?_
  refine .bind Refills.trans (hsend _) fun _ => ?_
  refine .bind Refills.trans (executeQueries_refills queries) fun executed => .ite ?_ ?_
  · exact .bind Refills.trans (hsend _) fun _ => .of_pure .refl _
  · exact .bind Refills.trans (hsend _) fun _ => mysqlErrno_refills

theorem retryLoop_refills (queries : List SqlElementData) (durations : List Nat) :
    Keeps (Refills env) (retryLoop env queries durations) := by
  induction durations with
  | nil => exact .of_throw .refl _
  | cons duration durations ih =>
    refine .bind Refills.trans (executeTransaction_refills queries) fun errcode => ?_
    exact .ite (.of_pure .refl _) (.ite ih (.of_pure .refl _))

theorem executeTask_refills (queries : List SqlElementData) (durations : List Nat) :
    Keeps (Refills env) (executeTask env queries durations) := by
  refine .bind Refills.trans (executeTransaction_refills queries) fun errcode => ?_
  exact .ite (.of_pure .refl _) (.ite (retryLoop_refills queries durations) (.of_pure .refl _))

end GameServer.Database
