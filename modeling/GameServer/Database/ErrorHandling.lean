import GameServer.Database.MySqlConnection

/-!
# What the error handling changes

`openConnection_eq` and `handleMysqlErrcode_lost` say what `Open` and the reconnect of
`HandleMysqlErrcode` do to the connection; `executeSql_eq` and `executeStmt_eq` are the recursive
equations of `Execute`, and `FailedCall` collects what a failed call leaves behind.
-/

namespace GameServer.Database

open GameServer.Lib GameServer.Lib.Exec

variable {env : Env}

/-! ## `Open` -/

def Env.connects (env : Env) (k : Nat) : Bool := env.init k && env.realConnect k

def Env.openCode (env : Env) (k : Nat) : Nat :=
  if env.connects k then 0 else if env.init k then env.errnoNull (k + 1) else crUnknownError

def World.opened (env : Env) (w : World) : World :=
  { w with
    opens := w.opens + 1
    tx := none
    mysql := if env.connects w.opens then some w.opens else none
    errno := if env.connects w.opens then env.setCharacterSet w.opens else w.errno }

theorem openConnection_eq (env : Env) (w : World) :
    openConnection env w = .ok (env.openCode w.opens) (w.opened env) := by
  simp only [openConnection, get_bind, modify_bind, Env.openCode, World.opened, Env.connects]
  by_cases hi : env.init w.opens = true
  · by_cases hc : env.realConnect w.opens = true
    · simp only [hi, hc, Bool.and_self, if_true]
      rfl
    · simp only [hi, hc, Bool.and_false, if_true, if_false, Bool.false_eq_true]
      rfl
  · simp only [hi, Bool.false_and, if_false, Bool.false_eq_true]
    rfl

/-! ## Preparing changes nothing at the server -/

/-- The two states agree on everything but the prepared statements and the flags. -/
structure SameServer (w v : World) : Prop where
  mysql : v.mysql = w.mysql
  opens : v.opens = w.opens
  log : v.log = w.log
  durable : v.durable = w.durable
  tx : v.tx = w.tx

theorem SameServer.refl (w : World) : SameServer w w := ⟨rfl, rfl, rfl, rfl, rfl⟩

theorem SameServer.trans (w v u : World) (h : SameServer w v) (k : SameServer v u) :
    SameServer w u :=
  ⟨k.mysql.trans h.mysql, k.opens.trans h.opens, k.log.trans h.log, k.durable.trans h.durable,
    k.tx.trans h.tx⟩

theorem setStmt_keeps (index : Nat) (stmt : Option MySqlPreparedStatement) :
    Keeps SameServer (setStmt index stmt) :=
  .bind SameServer.trans (.of_get .refl) fun _ =>
    .ite (.of_modify fun _ => ⟨rfl, rfl, rfl, rfl, rfl⟩) (.of_throw .refl _)

theorem mysqlStmtInit_keeps (env : Env) : Keeps SameServer (mysqlStmtInit env) := by
  refine .bind SameServer.trans (.of_get .refl) fun w => ?_
  split
  · exact .of_throw .refl _
  · exact .bind SameServer.trans (.of_modify fun _ => ⟨rfl, rfl, rfl, rfl, rfl⟩) fun _ =>
      .of_pure .refl _

theorem prepareError_keeps : Keeps (ε := Halt) SameServer
    (modify fun w => { w with prepareError := true }) :=
  .of_modify fun _ => ⟨rfl, rfl, rfl, rfl, rfl⟩

theorem prepareStatement_keeps (env : Env) (index : Nat) (sql : String) (t : ConnectionType) :
    Keeps SameServer (prepareStatement env index sql t) := by
  refine .bind SameServer.trans (.of_get .refl) fun w => .ite ?_ (setStmt_keeps _ _)
  refine .bind SameServer.trans (mysqlStmtInit_keeps env) fun stmt => ?_
  cases stmt with
  | none => exact prepareError_keeps
  | some stmt =>
    refine .bind SameServer.trans (fun _ => ⟨rfl, rfl, rfl, rfl, rfl⟩) fun _ => ?_
    exact .ite prepareError_keeps (setStmt_keeps _ _)

theorem prepareStatements_keeps (env : Env) : Keeps SameServer (prepareStatements env) := by
  refine .bind SameServer.trans (.bind SameServer.trans (.of_get .refl) fun w => ?_) fun _ =>
    .bind SameServer.trans (.of_get .refl) fun _ =>
      .bind SameServer.trans (.of_modify fun _ => ⟨rfl, rfl, rfl, rfl, rfl⟩) fun _ =>
        .of_pure .refl _
  have hload : Keeps SameServer (env.stmtMap.forM fun item =>
      prepareStatement env item.index item.sql item.joinConnectionType) :=
    .forM .refl SameServer.trans fun _ => prepareStatement_keeps _ _ _ _
  refine .ite ?_ hload
  exact .bind SameServer.trans (.of_modify fun _ => ⟨rfl, rfl, rfl, rfl, rfl⟩) fun _ => hload

/-! ## `HandleMysqlErrcode` -/

def World.attempt (env : Env) (w : World) : World :=
  { w with reconnecting := true }.opened env

/-- Closing the lost handle makes no difference after the next `Open`. -/
theorem closeLost_eq (env : Env) (e : Nat) (w : World) : ∃ v, closeLost e w = .ok ⟨⟩ v ∧
    { v with reconnecting := true }.opened env = w.attempt env ∧ v.opens = w.opens := by
  unfold closeLost
  rw [get_bind]
  split
  · exact ⟨_, rfl, rfl, rfl⟩
  · exact ⟨_, rfl, rfl, rfl⟩

/-- On a lost connection the handle is given up, `Open` is called and its result tested. -/
theorem handleMysqlErrcode_lost (env : Env) (again : Nat) {e : Nat} (he : lost e = true)
    (w : World) :
    handleMysqlErrcode env again e w =
      if env.openCode w.opens ≠ 0 then finishReconnect env (w.attempt env)
      else
        match again with
        | 0 => .error .abort (w.attempt env)
        | again + 1 =>
          handleMysqlErrcode env again w.prepareError.toNat (w.attempt env) := by
  obtain ⟨v, hv, hat, hop⟩ := closeLost_eq env e w
  rw [handleMysqlErrcode.eq_def, if_pos he, bind_of_ok hv, modify_bind,
    bind_of_ok (openConnection_eq env _), hat, hop]
  by_cases h : env.openCode w.opens = 0
  · rw [if_neg (fun hne => hne h.symm), if_neg (fun hne => hne h)]
    cases again with
    | zero => rfl
    | succ again => rfl
  · rw [if_pos (Ne.symm h), if_pos h]

/-- Any other code is left to the caller, or ends the process. -/
theorem handleMysqlErrcode_other {again e : Nat} (he : lost e = false) (w : World) :
    handleMysqlErrcode env again e w =
      if terminates e then .error .abort w else .ok false w := by
  rw [handleMysqlErrcode.eq_def, if_neg (by rw [he]; decide)]
  split <;> rfl

/-- The prepare flag is no error code: the second try ends at once. -/
theorem handleMysqlErrcode_flag (again : Nat) (b : Bool) (w : World) :
    handleMysqlErrcode env again b.toNat w = .ok false w := by
  cases b <;> exact handleMysqlErrcode_other (by decide) w

theorem Env.connects_of_openCode {k : Nat} (h : env.openCode k ≠ 0) : env.connects k = false := by
  unfold Env.openCode at h
  by_cases hc : env.connects k = true
  · rw [if_pos hc] at h
    exact absurd rfl h
  · exact Bool.not_eq_true _ ▸ hc

@[simp] theorem World.attempt_mysql (w : World) :
    (w.attempt env).mysql = if env.connects w.opens then some w.opens else none := rfl

/-- Where the reconnect reports success, the connection has no handle. -/
theorem finishReconnect_ok {w v : World} {b : Bool} (h : finishReconnect env w = .ok b v) :
    b = true ∧ SameServer w v := by
  unfold finishReconnect at h
  obtain ⟨ready, u, hu, h⟩ := bind_eq_ok.1 h
  have hsame : SameServer w u := (prepareStatements_keeps env).ok hu
  cases ready with
  | false => cases h
  | true =>
    obtain ⟨rfl, rfl⟩ : b = true ∧ v = { u with reconnecting := false } := by
      simpa [eq_comm] using h
    exact ⟨rfl, hsame.mysql, hsame.opens, hsame.log, hsame.durable, hsame.tx⟩

/-! ## After a failed call -/

/-- A call that failed with `e` after `k` opens leaves a handle behind. -/
def Env.survives (env : Env) (k e : Nat) : Bool := !lost e || env.connects k

/-- The number of opens after the error `e` was handled. -/
def opensAfter (k e : Nat) : Nat := if lost e then k + 1 else k

/-- What `mysql_errno` gives after the error `e` was handled. -/
def Env.errorAfter (env : Env) (k e : Nat) : Nat :=
  if lost e then if env.connects k then env.setCharacterSet k else env.errnoNull (k + 1) else e

/-- The prepared statements of the connection are the same. -/
structure SamePrepared (w v : World) : Prop where
  connectType : v.connectType = w.connectType
  stmts : v.stmts = w.stmts
  prepareError : v.prepareError = w.prepareError

theorem SamePrepared.refl (w : World) : SamePrepared w w := ⟨rfl, rfl, rfl⟩

theorem SamePrepared.trans {w v u : World} (h : SamePrepared w v) (k : SamePrepared v u) :
    SamePrepared w u :=
  ⟨k.connectType.trans h.connectType, k.stmts.trans h.stmts, k.prepareError.trans h.prepareError⟩

theorem SamePrepared.serve (w : World) (c : Call) : SamePrepared w (w.serve c) := by
  have hrecord : ∀ stmt, SamePrepared w (w.record stmt) := by
    intro stmt
    unfold World.record
    split <;> exact ⟨rfl, rfl, rfl⟩
  cases c with
  | query sql =>
    cases sql with
    | startTransaction | commit | rollback => exact ⟨rfl, rfl, rfl⟩
    | text sql => exact hrecord _
  | bindParam _ => exact .refl w
  | execute _ => exact hrecord _

theorem SamePrepared.answered (w : World) (c : Call) (code : Nat) :
    SamePrepared w (w.answered c code) := by
  have hserve : SamePrepared w (if code = 0 then w.serve c else w) := by
    split
    · exact .serve w c
    · exact .refl w
  exact ⟨hserve.connectType, hserve.stmts, hserve.prepareError⟩

/-- `v` is the connection `w`, whose last call failed, after the error was handled. -/
structure Handled (env : Env) (w v : World) : Prop where
  log : v.log = w.log
  durable : v.durable = w.durable
  tx : v.tx = if lost w.errno then none else w.tx
  opens : v.opens = opensAfter w.opens w.errno
  alive : v.mysql.isSome = env.survives w.opens w.errno
  lastError : env.lastError v = env.errorAfter w.opens w.errno
  prepared : v.mysql.isSome → SamePrepared w v

/-- `HandleMysqlErrcode` with the code of the last call; true only without a handle. -/
theorem handleMysqlErrcode_ok {w v : World} {b : Bool} (hw : w.mysql.isSome)
    (h : handleMysqlErrcode env defaultAgain w.errno w = .ok b v) :
    Handled env w v ∧ (b = true → v.mysql = none) := by
  cases he : lost w.errno with
  | false =>
    rw [handleMysqlErrcode_other he] at h
    split at h
    · cases h
    · obtain ⟨rfl, rfl⟩ : b = false ∧ v = w := by simpa [eq_comm] using h
      obtain ⟨k, hk⟩ := Option.isSome_iff_exists.1 hw
      refine ⟨⟨rfl, rfl, ?_, ?_, ?_, ?_, fun _ => .refl v⟩, nofun⟩
      · rw [he]; rfl
      · simp [opensAfter, he]
      · simp [Env.survives, he, hw]
      · simp [Env.lastError, Env.errorAfter, he, hk]
  | true =>
    have hattempt : Handled env w (w.attempt env) := by
      have hopens : (w.attempt env).opens = opensAfter w.opens w.errno := by
        simp [opensAfter, he, World.attempt, World.opened]
      refine ⟨rfl, rfl, by rw [he]; rfl, hopens, ?_, ?_, fun _ => ⟨rfl, rfl, rfl⟩⟩
      · simp only [World.attempt_mysql, Env.survives, he]
        split <;> simp_all
      · simp only [Env.lastError, Env.errorAfter, he, World.attempt_mysql]
        by_cases hc : env.connects w.opens = true
        · simp [hc, World.attempt, World.opened]
        · simp [hc, World.attempt, World.opened]
    rw [handleMysqlErrcode_lost _ _ he] at h
    split at h
    · next hcode =>
      obtain ⟨rfl, hsame⟩ := finishReconnect_ok h
      have hnone : (w.attempt env).mysql = none := by
        rw [World.attempt_mysql, Env.connects_of_openCode hcode]
        rfl
      refine ⟨⟨hsame.log.trans hattempt.log, hsame.durable.trans hattempt.durable,
        hsame.tx.trans hattempt.tx, hsame.opens.trans hattempt.opens, ?_, ?_, ?_⟩, fun _ => ?_⟩
      · rw [hsame.mysql, hattempt.alive]
      · rw [← hattempt.lastError]
        simp only [Env.lastError, hsame.mysql, hnone, hsame.opens]
      · intro hlive
        rw [hsame.mysql, hnone] at hlive
        cases hlive
      · rw [hsame.mysql, hnone]
    · change handleMysqlErrcode env 3 w.prepareError.toNat (w.attempt env) = _ at h
      rw [handleMysqlErrcode_flag] at h
      obtain ⟨rfl, rfl⟩ : b = false ∧ v = w.attempt env := by simpa [eq_comm] using h
      exact ⟨hattempt, nofun⟩

/-! ## `Execute` -/

/-- Handling an error calls `Execute` again only when there is no handle. -/
theorem onError_congr {x y : Run Bool} (hxy : ∀ v : World, v.mysql = none → x v = y v) {w : World}
    (hw : w.mysql.isSome) : onError env x w = onError env y w := by
  have hcode : mysqlErrno env w = .ok w.errno w := by
    obtain ⟨k, hk⟩ := Option.isSome_iff_exists.1 hw
    simp [mysqlErrno, Env.lastError, hk]
  unfold onError
  rw [bind_of_ok hcode, bind_of_ok hcode]
  cases hr : handleMysqlErrcode env defaultAgain w.errno w with
  | error e v => rw [bind_of_error hr, bind_of_error hr]
  | ok b v =>
    rw [bind_of_ok hr, bind_of_ok hr]
    cases b with
    | false => rfl
    | true => exact hxy v ((handleMysqlErrcode_ok hw hr).2 rfl)

end GameServer.Database
