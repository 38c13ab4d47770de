import GameServer.Database.Preparation

/-!
# Reconnecting after a lost connection

`HandleMysqlErrcode` is meant to open the connection again, as often as its tries allow, and to
report success once an `Open` succeeded and the statements are prepared on the new handle
(`reconnectIntended`); else it aborts, once the tries are used up or `PrepareStatements` has failed
(`GaveUp`). The test on the result of `Open` is inverted and the next try is made with the prepare
flag instead of the error, so `handleMysqlErrcode_reconnects_iff` leaves only a last try whose
`Open` fails, on a connection with nothing to prepare whose error flag is set already.
-/

namespace GameServer.Database

open GameServer.Lib GameServer.Lib.Exec

/-! ## The intended reconnect -/

/-- The reconnect as it is meant: `again + 1` tries with the same error, ended by the first
`Open` that succeeds. -/
def reconnectIntended (env : Env) (again errcode : Nat) : Run Bool := do
  closeLost errcode
  modify fun w => { w with reconnecting := true }
  let opened ← openConnection env
  if opened = 0 then finishReconnect env
  else
    match again with
    | 0 => throw .abort
    | again + 1 => reconnectIntended env again errcode

/-- The connection `v` is ready: its handle is the one opened last, every statement of its type
is prepared on it, and no reconnect is going on. -/
structure Ready (env : Env) (v : World) : Prop where
  mysql : v.mysql = some (v.opens - 1)
  stmts : ∀ item ∈ env.stmtMap, Loaded (v.opens - 1) v item
  reconnecting : v.reconnecting = false

/-- Going from `w` to `v`, all tries were used up and each `Open` failed, or `PrepareStatements` was
called and failed. -/
def GaveUp (env : Env) (again : Nat) (w v : World) : Prop :=
  (v.opens = w.opens + (again + 1) ∧ ∀ i ≤ again, env.openCode (w.opens + i) ≠ 0) ∨
    v.preparations = w.preparations ++ [false]

/-- `HandleMysqlErrcode` handles the lost connection as intended: it reports success in the same
cases and with a ready connection, makes the same number of tries, and else aborts, with a reason
to give up. -/
structure Reconnects (env : Env) (again errcode : Nat) (w : World) : Prop where
  succeeds : (∃ v, handleMysqlErrcode env again errcode w = .ok true v) ↔
    ∃ v, reconnectIntended env again errcode w = .ok true v
  ready : ∀ v, handleMysqlErrcode env again errcode w = .ok true v → Ready env v
  tries : (last (handleMysqlErrcode env again errcode w)).opens =
    (last (reconnectIntended env again errcode w)).opens
  givesUp : (¬∃ v, handleMysqlErrcode env again errcode w = .ok true v) →
    ∃ v, handleMysqlErrcode env again errcode w = .error .abort v ∧ GaveUp env again w v

/-- One try is allowed and its `Open` fails, the connection has nothing to prepare, and its error
flag is set already. -/
def ReconnectsWhen (env : Env) (again : Nat) (w : World) : Prop :=
  again = 0 ∧ env.openCode w.opens ≠ 0 ∧ w.prepareError = true ∧
    ∀ item ∈ env.stmtMap, w.Skips item

variable {env : Env} {again e : Nat} {w v : World}

/-! ## Both loops, one try at a time -/

theorem reconnectIntended_eq (env : Env) (again e : Nat) (w : World) :
    reconnectIntended env again e w =
      if env.openCode w.opens = 0 then finishReconnect env (w.attempt env)
      else
        match again with
        | 0 => .error .abort (w.attempt env)
        | again + 1 => reconnectIntended env again e (w.attempt env) := by
  obtain ⟨v, hv, hat, hop⟩ := closeLost_eq env e w
  rw [reconnectIntended.eq_def, bind_of_ok hv, modify_bind, bind_of_ok (openConnection_eq env _),
    hat, hop]
  split
  · rfl
  · cases again with
    | zero => rfl
    | succ again => rfl

theorem finishReconnect_opens (env : Env) (w : World) :
    (last (finishReconnect env w)).opens = w.opens := by
  have hkeeps := prepareStatements_keeps env w
  unfold finishReconnect
  cases hp : prepareStatements env w with
  | error h v =>
    rw [hp] at hkeeps
    rw [bind_of_error hp]
    exact hkeeps.opens
  | ok ready v =>
    rw [hp] at hkeeps
    rw [bind_of_ok hp]
    cases ready <;> exact hkeeps.opens

/-- The statements are prepared and the reconnect is over, or it stops: with an abort where
`PrepareStatements` reported an error. -/
theorem finishReconnect_cases (env : Env) (w : World) :
    (∃ v, finishReconnect env w = .ok true v) ∨
      (∃ v, finishReconnect env w = .error .abort v ∧ prepareStatements env w = .ok false v) ∨
      ∃ h v, finishReconnect env w = .error h v ∧ prepareStatements env w = .error h v := by
  unfold finishReconnect
  cases hp : prepareStatements env w with
  | error h v => exact .inr (.inr ⟨h, v, bind_of_error hp, rfl⟩)
  | ok ready v =>
    rw [bind_of_ok hp]
    cases ready with
    | true => exact .inl ⟨_, rfl⟩
    | false => exact .inr (.inl ⟨v, rfl, rfl⟩)

theorem reconnectIntended_opens (env : Env) (again e : Nat) (w : World) :
    w.opens < (last (reconnectIntended env again e w)).opens := by
  induction again generalizing w with
  | zero =>
    rw [reconnectIntended_eq]
    split
    · rw [finishReconnect_opens]
      exact Nat.lt_succ_self _
    · exact Nat.lt_succ_self _
  | succ again ih =>
    rw [reconnectIntended_eq]
    split
    · rw [finishReconnect_opens]
      exact Nat.lt_succ_self _
    · exact Nat.lt_trans (Nat.lt_succ_self _) (ih (w.attempt env))

/-- **The intended reconnect** reports success with a ready connection only, provided that `Open`
returns zero only with a handle. -/
theorem reconnectIntended_ready (hkeys : (env.stmtMap.map StmtEntry.index).Nodup)
    (hopen : ∀ k, env.openCode k = 0 → env.connects k)
    (h : reconnectIntended env again e w = .ok true v) : Ready env v := by
  have hfinish : ∀ w : World, env.openCode w.opens = 0 →
      finishReconnect env (w.attempt env) = .ok true v → Ready env v := by
    intro w h0 hok
    have hmysql : (w.attempt env).mysql = some w.opens := by
      rw [World.attempt_mysql, if_pos (hopen _ h0)]
    obtain ⟨ready, u, hu, hret⟩ := bind_eq_ok.1 hok
    cases ready with
    | false => cases hret
    | true =>
      obtain ⟨hhandle, hopens, hloaded⟩ := prepareStatements_ok hkeys hmysql hu
      have hlast : u.opens - 1 = w.opens := by
        rw [hopens]
        change w.opens + 1 - 1 = w.opens
        omega
      cases hret
      exact ⟨(hhandle.trans hmysql).trans (congrArg some hlast.symm), by rw [hlast]; exact hloaded,
        rfl⟩
  induction again generalizing w with
  | zero =>
    rw [reconnectIntended_eq] at h
    split at h
    · next h0 => exact hfinish w h0 h
    · cases h
  | succ again ih =>
    rw [reconnectIntended_eq] at h
    split at h
    · next h0 => exact hfinish w h0 h
    · exact ih h

/-! ## Exactly when -/

/-- `Open` succeeded: the code gives up without a reason, or returns false. -/
theorem not_reconnects_of_opened (he : lost e = true) (h0 : env.openCode w.opens = 0) :
    ¬Reconnects env again e w := by
  have hcode := handleMysqlErrcode_lost env again he w
  rw [if_neg (not_not_intro h0)] at hcode
  intro h
  cases again with
  | zero =>
    obtain ⟨v, hv, hgave⟩ := h.givesUp (by rw [hcode]; rintro ⟨v, hv⟩; cases hv)
    rw [hcode] at hv
    cases hv
    rcases hgave with ⟨-, hfailed⟩ | hprepared
    · exact hfailed 0 (Nat.le_refl 0) h0
    · -- nothing was prepared
      have hlength := congrArg List.length hprepared
      rw [List.length_append, List.length_singleton] at hlength
      exact Nat.succ_ne_self _ hlength.symm
  | succ again =>
    change _ = handleMysqlErrcode env again _ _ at hcode
    rw [handleMysqlErrcode_flag] at hcode
    obtain ⟨v, hv, -⟩ := h.givesUp (by rw [hcode]; rintro ⟨v, hv⟩; cases hv)
    rw [hcode] at hv
    cases hv

/-- `Open` failed and more tries are left: the code makes none of them. -/
theorem not_reconnects_of_more (he : lost e = true) (h0 : env.openCode w.opens ≠ 0) :
    ¬Reconnects env (again + 1) e w := by
  have hcode := handleMysqlErrcode_lost env (again + 1) he w
  rw [if_pos h0] at hcode
  have hspec := reconnectIntended_eq env (again + 1) e w
  rw [if_neg h0] at hspec
  change _ = reconnectIntended env again e (w.attempt env) at hspec
  have hone : (last (finishReconnect env (w.attempt env))).opens = w.opens + 1 :=
    finishReconnect_opens env _
  intro h
  have htries := h.tries
  rw [hcode, hone, hspec] at htries
  have hmore := reconnectIntended_opens env again e (w.attempt env)
  change w.opens + 1 < _ at hmore
  omega

/-- The `Open` of the last try failed: `PrepareStatements` is called without a handle. -/
theorem reconnects_iff_last (he : lost e = true) (h0 : env.openCode w.opens ≠ 0) :
    Reconnects env 0 e w ↔ w.prepareError = true ∧ ∀ item ∈ env.stmtMap, w.Skips item := by
  have hcode := handleMysqlErrcode_lost env 0 he w
  rw [if_pos h0] at hcode
  have hspec := reconnectIntended_eq env 0 e w
  rw [if_neg h0] at hspec
  change _ = EStateM.Result.error Halt.abort (w.attempt env) at hspec
  have hnone : (w.attempt env).mysql = none := by
    rw [World.attempt_mysql, Env.connects_of_openCode h0]
    rfl
  have herror : (w.attempt env).prepareError = w.prepareError := rfl
  have hnot : ¬∃ v, reconnectIntended env 0 e w = .ok true v := by
    rw [hspec]
    rintro ⟨v, hv⟩
    cases hv
  rcases finishReconnect_cases env (w.attempt env) with ⟨v, hv⟩ | ⟨v, hv, hp⟩ | ⟨g, v, hv, hp⟩
  · have hready : w.prepareError = false := by
      obtain ⟨ready, u, hu, hret⟩ := bind_eq_ok.1 hv
      cases ready with
      | false => cases hret
      | true => simpa [herror] using ((prepareStatements_null hnone rfl).1 hu).2.1
    refine iff_of_false (fun h => hnot (h.succeeds.1 ⟨v, hcode.trans hv⟩)) fun h => ?_
    rw [hready] at h
    exact Bool.false_ne_true h.1
  · obtain ⟨hskips, hready, hlast⟩ := (prepareStatements_null hnone rfl).1 hp
    refine iff_of_true ⟨?_, ?_, ?_, ?_⟩ ⟨by simpa [herror] using hready, hskips⟩
    · refine iff_of_false ?_ hnot
      rw [hcode, hv]
      rintro ⟨u, hu⟩
      cases hu
    · intro u hu
      rw [hcode, hv] at hu
      cases hu
    · rw [hcode, finishReconnect_opens, hspec]
      rfl
    · intro _
      refine ⟨v, hcode.trans hv, .inl ⟨?_, fun i hi => ?_⟩⟩
      · rw [hlast]
        rfl
      · rwa [Nat.le_zero.1 hi]
  · refine iff_of_false (fun h => ?_) fun h => ?_
    · obtain ⟨u, hu, -⟩ := h.givesUp (by rw [hcode, hv]; rintro ⟨u, hu⟩; cases hu)
      rw [hcode, hv] at hu
      cases hu
      -- without a handle `PrepareStatements` does not abort
      by_cases hskips : ∀ item ∈ env.stmtMap, w.Skips item
      · rw [(prepareStatements_null hnone rfl).2 ⟨hskips, rfl, rfl⟩] at hp
        cases hp
      · obtain ⟨u, hu⟩ := prepareStatements_null_fault hnone rfl hskips
        rw [hu] at hp
        cases hp
    · rw [(prepareStatements_null hnone rfl).2 ⟨h.2, rfl, rfl⟩] at hp
      cases hp

/-- **Reconnecting.** A lost connection is handled as intended exactly under `ReconnectsWhen`. -/
theorem handleMysqlErrcode_reconnects_iff (he : lost e = true) :
    Reconnects env again e w ↔ ReconnectsWhen env again w := by
  unfold ReconnectsWhen
  by_cases h0 : env.openCode w.opens = 0
  · exact iff_of_false (not_reconnects_of_opened he h0) fun h => h.2.1 h0
  · cases again with
    | zero =>
      rw [reconnects_iff_last he h0]
      exact ⟨fun h => ⟨rfl, h0, h⟩, fun h => h.2.2⟩
    | succ again => exact iff_of_false (not_reconnects_of_more he h0) fun h => nomatch h.1

/-- An asynchronous connection of the login database, whose one statement is for synchronous ones:
the server does not come back. -/
theorem handleMysqlErrcode_reconnects_iff_down :
    Reconnects { loginDatabase [] with
        realConnect := fun _ => false, errnoNull := fun _ => crConnHostError } 0 crServerGoneError
      { World.initial .async with
        mysql := some 0, opens := 1, stmts := [none, none], prepareError := true } := by
  refine (handleMysqlErrcode_reconnects_iff rfl).2 ⟨rfl, ?_, rfl, ?_⟩
  · decide
  · decide

/-- The server is gone and comes back at once: the new connection is thrown away. -/
theorem handleMysqlErrcode_gives_up :
    ¬∀ (env : Env) (again e : Nat) (w : World), lost e = true → Reconnects env again e w := by
  intro h
  have hrec := h (loginDatabase []) 4 crServerGoneError
    { loginConnection with stmts := [none, none] } rfl
  obtain ⟨v, hv⟩ := hrec.succeeds.2 ⟨_, rfl⟩
  have hbool := congrArg (fun r => match r with | .ok b _ => b | .error _ _ => true) hv
  exact Bool.false_ne_true hbool

end GameServer.Database
