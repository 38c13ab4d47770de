import Mathlib.Data.List.Nodup
import GameServer.Database.PoolReopening
import GameServer.Database.StatementTable
import GameServer.Database.MySqlPreparedStatement

/-!
# The number of parameters of a prepared statement

`PrepareStatements` of a pool collects the number of parameters of each statement from its
connections, and `GetPreparedStatement` makes a statement with as many values. In every state that a
pool reaches the recorded number is that of the statement of every connection that has it
(`getPreparedStatement_arity`), so that `BindParameters` assigns every slot once.

The invariant is `WorkerPool.Agrees`: what is recorded and what is prepared comes from the statement
table of the connection class, and a connection has no statement that is not recorded.
-/

namespace GameServer.Database

open GameServer.Lib GameServer.Lib.Exec

/-! ## The code -/

/-- `Query(std::string_view, ...)`; `stored` says whether the result has rows. -/
def querySqlBody (env : Env) (sql : Sql) (stored : Bool) (again : Run Bool) : Run Bool := do
  let w ← get
  if w.mysql.isNone then pure false
  else if (← call env (.query sql)) ≠ 0 then onError env again
  else pure stored

def querySql (env : Env) (sql : Sql) (stored : Bool) : Run Bool :=
  querySqlBody env sql stored (querySqlBody env sql stored (throw .diverged))

theorem querySql_refills {env : Env} (sql : Sql) (stored : Bool) :
    Keeps (Refills env) (querySql env sql stored) := by
  have hbody : ∀ {again : Run Bool}, Keeps (Refills env) again →
      Keeps (Refills env) (querySqlBody env sql stored again) := by
    intro again h
    refine .bind Refills.trans (.of_get .refl) fun w => .ite (.of_pure .refl _) ?_
    refine .bind Refills.trans (call_refills _) fun code => ?_
    exact .ite (onError_refills h) (.of_pure .refl _)
  exact hbody (hbody (.of_throw .refl _))

/-- What a pool has a connection do. -/
inductive ConnectionCall where
  | execute (sql : Sql)
  | executeStmt (pStmt : PreparedStatementBase)
  | query (sql : Sql) (stored : Bool)
  /-- `Query(PreparedStatementBase *, ...)` makes the calls of `Execute` and reads the result. -/
  | queryStmt (pStmt : PreparedStatementBase)
  | executeTransaction (queries : List SqlElementData)
  | transactionTask (queries : List SqlElementData) (durations : List Nat)

def ConnectionCall.run (env : Env) : ConnectionCall → Run Unit
  | execute sql => do let _ ← Database.executeSql env sql
  | executeStmt pStmt => do let _ ← Database.executeStmt env pStmt
  | query sql stored => do let _ ← querySql env sql stored
  | queryStmt pStmt => do let _ ← Database.executeStmt env pStmt
  | executeTransaction queries => do let _ ← Database.executeTransaction env queries
  | transactionTask queries durations => do let _ ← executeTask env queries durations

/-- The call on one of the connections. -/
def callConnection (envs : Nat → Env) (connType : EConnectionTypeIndex) (index : Nat)
    (c : ConnectionCall) : PoolRun Unit := do
  let p ← get
  match (p.connections connType)[index]? with
  | none => throw .fault
  | some pConnection =>
    let (_, pConnection) ← pConnection.call (c.run (envs pConnection.number))
    modify fun p => p.setConnections connType ((p.connections connType).set index pConnection)

/-- `GetPreparedStatement`; the number of parameters is a `uint8_t`. -/
def WorkerPool.getPreparedStatement (p : WorkerPool) (index : Nat) :
    Except Halt PreparedStatement :=
  match p.preparedStmtParamCount[index]? with
  | none => .error .fault
  | some paramCount =>
    .ok (.ofCapacity index (paramCount % 256) (Nat.mod_lt _ (by decide)))

/-- A connection class: its statement table, and the number of parameters of each text. -/
structure ConnectionClass where
  stmtMax : Nat
  stmtMap : List StmtEntry
  stmtParamCount : String → Nat
  keys : (stmtMap.map StmtEntry.index).Nodup

/-- The outcomes of the client calls of a connection of this class. -/
def ConnectionClass.envs (cls : ConnectionClass) (outcomes : Nat → Env) (number : Nat) : Env :=
  { outcomes number with
    stmtMax := cls.stmtMax, stmtMap := cls.stmtMap, stmtParamCount := cls.stmtParamCount }

inductive StatementPoolCall where
  | openPool (syncThreadCount asyncThreadCount : Nat)
  | prepareStatements
  | close
  | connection (connType : EConnectionTypeIndex) (index : Nat) (c : ConnectionCall)

/-- The pool after a call, if the call returns. -/
def poolAfter {α : Type} : EStateM.Result Halt WorkerPool α → Option WorkerPool
  | .ok _ pool => some pool
  | .error _ _ => none

def statementPools (cls : ConnectionClass) (outcomes : Nat → Env) :
    Machine WorkerPool StatementPoolCall where
  init p := p = .fresh
  step p
    | .openPool syncThreadCount asyncThreadCount =>
      poolAfter (openPool (cls.envs outcomes) syncThreadCount asyncThreadCount p)
    | .prepareStatements => poolAfter (preparePool (cls.envs outcomes) p)
    | .close => poolAfter (closePool p)
    | .connection connType index c =>
      poolAfter (callConnection (cls.envs outcomes) connType index c p)

/-! ## Agreement -/

/-- The statement comes from the table of the class. -/
def ConnectionClass.FromTable (cls : ConnectionClass) (t : ConnectionType) (index : Nat)
    (stmt : MySqlPreparedStatement) : Prop :=
  ∃ item ∈ cls.stmtMap, item.index = index ∧ t.Joins item.joinConnectionType ∧
    stmt.sqlString = item.sql ∧ stmt.paramCount = cls.stmtParamCount item.sql

/-- All statements of a connection of type `t` do. -/
def ConnectionClass.Tabled (cls : ConnectionClass) (t : ConnectionType)
    (stmts : List (Option MySqlPreparedStatement)) : Prop :=
  ∀ index stmt, stmts[index]? = some (some stmt) → cls.FromTable t index stmt

/-- The number of parameters is recorded for each entry that a connection of type `t` joins. -/
def ConnectionClass.Counts (cls : ConnectionClass) (t : ConnectionType) (counts : List Nat) :
    Prop :=
  ∀ item ∈ cls.stmtMap, t.Joins item.joinConnectionType →
    counts[item.index]? = some (cls.stmtParamCount item.sql)

/-- The connection has statements of the table only, and none that is not recorded. -/
structure World.Counted (cls : ConnectionClass) (counts : List Nat) (w : World) : Prop where
  tabled : cls.Tabled w.connectType w.stmts
  counts : w.stmts = [] ∨ cls.Counts w.connectType counts

/-- What is recorded comes from the table. -/
def ConnectionClass.Records (cls : ConnectionClass) (counts : List Nat) : Prop :=
  ∀ index paramCount, counts[index]? = some paramCount → paramCount < 255 ∧
    (0 < paramCount → ∃ item ∈ cls.stmtMap, item.index = index ∧
      cls.stmtParamCount item.sql = paramCount)

structure WorkerPool.Agrees (cls : ConnectionClass) (p : WorkerPool) : Prop where
  records : cls.Records p.preparedStmtParamCount
  connections : ∀ t, ∀ c ∈ p.connections t, c.world.Counted cls p.preparedStmtParamCount

/-! ## Recording -/

section Recording

variable {cls : ConnectionClass} {counts : List Nat} {stmts : List (Option MySqlPreparedStatement)}

theorem paramCounts_getElem? (counts : List Nat) (stmts : List (Option MySqlPreparedStatement))
    (index : Nat) : (paramCounts counts stmts)[index]? =
      if index < stmts.length then
        some (if 0 < counts[index]?.getD 0 then counts[index]?.getD 0
          else (stmts[index]?.join.map (·.paramCount)).getD 0)
      else counts[index]? := by
  induction counts, stmts using paramCounts.induct generalizing index with
  | case1 counts => simp [paramCounts]
  | case2 stmt stmts ih =>
    cases index with
    | zero => simp [paramCounts]
    | succ index => simpa [paramCounts] using ih index
  | case3 count counts stmt stmts ih =>
    cases index with
    | zero =>
      by_cases h : 0 < count
      · simp [paramCounts, h]
      · obtain rfl : count = 0 := by omega
        simp [paramCounts]
    | succ index => simpa [paramCounts] using ih index

theorem ConnectionClass.entry_unique (cls : ConnectionClass) {item item' : StmtEntry}
    (h : item ∈ cls.stmtMap) (h' : item' ∈ cls.stmtMap) (hindex : item.index = item'.index) :
    item = item' :=
  List.inj_on_of_nodup_map cls.keys h h' hindex

variable {t : ConnectionType}

/-- What a connection adds at an index: nothing, or the number of an entry of the table. -/
theorem ConnectionClass.Tabled.added (h : cls.Tabled t stmts) (index : Nat) :
    (stmts[index]?.join.map (·.paramCount)).getD 0 = 0 ∨ ∃ item ∈ cls.stmtMap,
      item.index = index ∧
        cls.stmtParamCount item.sql = (stmts[index]?.join.map (·.paramCount)).getD 0 := by
  cases hstmt : stmts[index]? with
  | none => exact .inl rfl
  | some stmt =>
    cases stmt with
    | none => exact .inl rfl
    | some stmt =>
      obtain ⟨item, hitem, hindex, -, -, hcount⟩ := h index stmt hstmt
      exact .inr ⟨item, hitem, hindex, hcount.symm⟩

/-- What is recorded at an index: nothing, or the number of an entry of the table. -/
theorem ConnectionClass.Records.recorded (h : cls.Records counts) {index : Nat}
    (hpos : 0 < counts[index]?.getD 0) : ∃ item ∈ cls.stmtMap,
      item.index = index ∧ cls.stmtParamCount item.sql = counts[index]?.getD 0 := by
  cases hcount : counts[index]? with
  | none =>
    rw [hcount] at hpos
    exact absurd hpos (Nat.lt_irrefl 0)
  | some n =>
    rw [hcount] at hpos
    exact (h index n hcount).2 hpos

theorem ConnectionClass.Records.record (h : cls.Records counts) (hstmts : cls.Tabled t stmts)
    (hsmall : (paramCounts counts stmts).all (· < 255)) :
    cls.Records (paramCounts counts stmts) := by
  intro index paramCount hcount
  have hlt := List.all_eq_true.1 hsmall _ (List.mem_of_getElem? hcount)
  refine ⟨of_decide_eq_true hlt, fun hpos => ?_⟩
  rw [paramCounts_getElem?] at hcount
  split at hcount
  · split at hcount
    · next hold =>
      cases hcount
      exact h.recorded hold
    · cases hcount
      rcases hstmts.added index with hzero | hentry
      · omega
      · exact hentry
  · exact (h index paramCount hcount).2 hpos

/-- A number that is recorded already stays. -/
theorem ConnectionClass.Tabled.keeps_count (hstmts : cls.Tabled t stmts) {item : StmtEntry}
    (hitem : item ∈ cls.stmtMap) (h : counts[item.index]? = some (cls.stmtParamCount item.sql)) :
    (paramCounts counts stmts)[item.index]? = some (cls.stmtParamCount item.sql) := by
  rw [paramCounts_getElem?, h, Option.getD_some]
  split
  · split
    · rfl
    · rcases hstmts.added item.index with hzero | ⟨item', hitem', hindex, hcount⟩
      · rw [hzero]
        congr 1
        omega
      · rw [← hcount, cls.entry_unique hitem' hitem hindex]
  · rfl

/-- The number of a statement of the connection is recorded. -/
theorem ConnectionClass.Records.new_count (h : cls.Records counts) (hstmts : cls.Tabled t stmts)
    {item : StmtEntry} (hitem : item ∈ cls.stmtMap) {stmt : MySqlPreparedStatement}
    (hstmt : stmts[item.index]? = some (some stmt)) :
    (paramCounts counts stmts)[item.index]? = some (cls.stmtParamCount item.sql) := by
  have hlt : item.index < stmts.length := (List.getElem?_eq_some_iff.1 hstmt).1
  obtain ⟨item', hitem', hindex, -, -, hcount⟩ := hstmts _ _ hstmt
  obtain rfl := cls.entry_unique hitem' hitem hindex
  rw [paramCounts_getElem?, if_pos hlt]
  split
  · next hold =>
    obtain ⟨item, hitem'', hindex', hn⟩ := h.recorded hold
    rw [← hn, cls.entry_unique hitem'' hitem hindex']
  · rw [hstmt]
    exact congrArg some hcount

end Recording

/-! ## Steps -/

section Steps

variable {cls : ConnectionClass} {outcomes : Nat → Env} {p q : WorkerPool}

/-- A connection that executes stays counted. -/
theorem World.Counted.refills {counts : List Nat} {w v : World} {number : Nat}
    (h : w.Counted cls counts) (hv : Refills (cls.envs outcomes number) w v) :
    v.Counted cls counts := by
  refine ⟨fun index stmt hstmt => ?_, ?_⟩
  · rw [hv.connectType]
    rcases hv.fromTable index stmt hstmt with hold | hnew
    · exact h.tabled index stmt hold
    · exact hnew
  · rw [hv.connectType]
    rcases h.counts with hnil | hcounts
    · left
      rw [← List.length_eq_zero_iff, hv.length, hnil]
      rfl
    · exact .inr hcounts

theorem World.Counted.congr {counts counts' : List Nat} {w : World} (h : w.Counted cls counts)
    (hcounts : ∀ item ∈ cls.stmtMap, counts[item.index]? = some (cls.stmtParamCount item.sql) →
      counts'[item.index]? = some (cls.stmtParamCount item.sql)) : w.Counted cls counts' := by
  refine ⟨h.tabled, h.counts.imp id ?_⟩
  intro hold item hitem hjoins
  exact hcounts item hitem (hold item hitem hjoins)

theorem World.Counted.of_nil {counts : List Nat} {w : World} (h : w.stmts = []) :
    w.Counted cls counts := by
  refine ⟨fun index stmt hstmt => ?_, .inl h⟩
  rw [h] at hstmt
  cases hstmt

/-- The statements of a connection after `PrepareStatements` come from the table. -/
theorem tabled_of_prepareStatements {counts : List Nat} {w v : World} {number : Nat} {ready : Bool}
    (h : w.Counted cls counts)
    (hv : prepareStatements (cls.envs outcomes number) w = .ok ready v) :
    v.connectType = w.connectType ∧ cls.Tabled v.connectType v.stmts := by
  have hrefills := prepareStatements_refills (cls.envs outcomes number) w
  rw [hv] at hrefills
  have htype : v.connectType = w.connectType :=
    hrefills.connectType.trans (sized_connectType w)
  refine ⟨htype, fun index stmt hstmt => ?_⟩
  rcases hrefills.fromTable index stmt hstmt with hold | hnew
  · rw [htype]
    exact h.tabled index stmt (sized_some hold)
  · rw [sized_connectType] at hnew
    rw [htype]
    exact hnew

/-- The connections of `q` are connections of `p`, or have no statements yet. -/
structure Draws (p q : WorkerPool) : Prop where
  counts : q.preparedStmtParamCount = p.preparedStmtParamCount
  connections : ∀ t, ∀ c ∈ q.connections t, c ∈ p.connections t ∨ c.world.stmts = []

namespace Draws

variable {r : WorkerPool} {t : EConnectionTypeIndex} {envs : Nat → Env} {n : Nat}

theorem of_same (hcounts : q.preparedStmtParamCount = p.preparedStmtParamCount)
    (hconnections : q.connections = p.connections) : Draws p q :=
  ⟨hcounts, fun _ _ hc => .inl (hconnections ▸ hc)⟩

theorem trans (h : Draws p q) (k : Draws q r) : Draws p r := by
  refine ⟨k.counts.trans h.counts, fun t c hc => ?_⟩
  rcases k.connections t c hc with hold | hnil
  · exact h.connections t c hold
  · exact .inr hnil

theorem constructed : Draws p (p.constructed t) := by
  cases t <;> exact .of_same rfl rfl

theorem destroyed : Draws p (p.destroyed t) := by
  cases t <;> exact .of_same rfl rfl

theorem cleared : Draws p (p.cleared t) := by
  have hfold : ∀ (l : List PoolConnection) (p : WorkerPool),
      Draws p (l.foldl (fun p _ => p.destroyed t) p) := by
    intro l
    induction l with
    | nil => exact fun p => .of_same rfl rfl
    | cons c l ih => exact fun p => destroyed.trans (ih _)
  refine ⟨(hfold (p.connections t) p).counts, fun u c hc => ?_⟩
  by_cases hu : u = t
  · subst hu
    rw [WorkerPool.cleared_self] at hc
    cases hc
  · rw [WorkerPool.cleared_of_ne hu] at hc
    exact .inl hc

theorem grown : Draws p (p.grown envs t n) := by
  refine ⟨?_, fun u c hc => ?_⟩
  · induction n generalizing p with
    | zero => rfl
    | succ n ih => exact ih.trans constructed.counts
  · by_cases hu : u = t
    · subst hu
      rw [WorkerPool.grown_self] at hc
      rcases List.mem_append.1 hc with hold | hnew
      · exact .inl hold
      · obtain ⟨number, -, rfl⟩ := List.mem_map.1 hnew
        exact .inr rfl
    · rw [WorkerPool.grown_of_ne hu] at hc
      exact .inl hc

theorem failed : Draws p (p.failed t) := constructed.trans (cleared.trans destroyed)

theorem opens {s a errcode : Nat} (h : Opens envs s a p errcode q) : Draws p q := by
  have hinformed : Draws p p.informed := .of_same rfl rfl
  cases h with
  | all => exact hinformed.trans (grown.trans grown)
  | async => exact hinformed.trans (grown.trans failed)
  | sync => exact hinformed.trans (grown.trans (grown.trans failed))

theorem closes (h : closePool p = .ok ⟨⟩ q) : Draws p q := by
  rw [closePool_ok h]
  exact cleared.trans cleared

end Draws

namespace WorkerPool

theorem agrees_fresh : fresh.Agrees cls := by
  refine ⟨fun index paramCount h => ?_, fun t c hc => ?_⟩
  · cases h
  · cases hc

theorem Agrees.draws (h : p.Agrees cls) (hq : Draws p q) : q.Agrees cls := by
  refine ⟨hq.counts ▸ h.records, fun t c hc => ?_⟩
  rw [hq.counts]
  rcases hq.connections t c hc with hold | hnil
  · exact h.connections t c hold
  · exact .of_nil hnil

/-- A connection of the pool is replaced, and its statements are recorded. -/
theorem Agrees.replace {t : EConnectionTypeIndex} {index : Nat} {c : PoolConnection}
    {counts : List Nat} (h : p.Agrees cls) (hrecords : cls.Records counts)
    (hcounts : ∀ item ∈ cls.stmtMap,
      p.preparedStmtParamCount[item.index]? = some (cls.stmtParamCount item.sql) →
        counts[item.index]? = some (cls.stmtParamCount item.sql))
    (hc : c.world.Counted cls counts) :
    Agrees cls { p.setConnections t ((p.connections t).set index c) with
      preparedStmtParamCount := counts } := by
  refine ⟨hrecords, fun u d hd => ?_⟩
  change d ∈ (p.setConnections t ((p.connections t).set index c)).connections u at hd
  by_cases hu : u = t
  · subst hu
    rw [setConnections_self] at hd
    rcases List.mem_or_eq_of_mem_set hd with hold | rfl
    · exact (h.connections u d hold).congr hcounts
    · exact hc
  · rw [setConnections_of_ne hu] at hd
    exact (h.connections u d hd).congr hcounts

theorem Agrees.close (h : cls.Records p.preparedStmtParamCount)
    (hclose : closePool p = .ok ⟨⟩ q) : q.Agrees cls := by
  refine ⟨(Draws.closes hclose).counts ▸ h, fun t c hc => ?_⟩
  rw [closePool_ok hclose] at hc
  cases t with
  | async =>
    rw [cleared_of_ne (by simp), cleared_self] at hc
    cases hc
  | sync =>
    rw [cleared_self] at hc
    cases hc

end WorkerPool

/-! ### Calls -/

theorem call_ok_world {α : Type} {c : PoolConnection} {x : Run α} {r : α × PoolConnection}
    (h : c.call x p = .ok r q) :
    q = p ∧ ∃ w, x c.world = .ok r.1 w ∧ r.2 = { c with world := w } := by
  unfold PoolConnection.call at h
  cases hx : x c.world with
  | ok a w =>
    rw [hx] at h
    cases h
    exact ⟨rfl, w, rfl, rfl⟩
  | error halt w =>
    rw [hx] at h
    cases h

theorem ConnectionCall.run_refills (env : Env) (c : ConnectionCall) :
    Keeps (Refills env) (c.run env) := by
  have hdiscard : ∀ {α : Type} {x : Run α}, Keeps (Refills env) x →
      Keeps (Refills env) (do let _ ← x) := fun hx =>
    .bind Refills.trans hx fun _ => .of_pure .refl _
  cases c with
  | execute sql => exact hdiscard (executeSql_refills sql)
  | executeStmt pStmt => exact hdiscard (executeStmt_refills pStmt)
  | query sql stored => exact hdiscard (querySql_refills sql stored)
  | queryStmt pStmt => exact hdiscard (executeStmt_refills pStmt)
  | executeTransaction queries => exact hdiscard (executeTransaction_refills queries)
  | transactionTask queries durations => exact hdiscard (executeTask_refills queries durations)

theorem callConnection_agrees {t : EConnectionTypeIndex} {index : Nat} {c : ConnectionCall}
    (hp : p.Agrees cls) (h : callConnection (cls.envs outcomes) t index c p = .ok ⟨⟩ q) :
    q.Agrees cls := by
  unfold callConnection at h
  rw [get_bind] at h
  cases hc : (p.connections t)[index]? with
  | none =>
    rw [hc] at h
    cases h
  | some pConnection =>
    rw [hc] at h
    obtain ⟨⟨_, c'⟩, p', hcall, hrest⟩ := bind_eq_ok.1 h
    obtain ⟨rfl, w, hrun, hc'⟩ := call_ok_world hcall
    cases hrest
    have hrefills := (ConnectionCall.run_refills _ c).ok hrun
    have hold := hp.connections t pConnection (List.mem_of_getElem? hc)
    refine hp.replace hp.records (fun _ _ h => h) ?_
    change c' = _ at hc'
    rw [hc']
    exact hold.refills hrefills

theorem prepareConnection_agrees {t : EConnectionTypeIndex} {index : Nat} {ready : Bool}
    (hp : p.Agrees cls) (h : prepareConnection (cls.envs outcomes) t index p = .ok ready q) :
    q.Agrees cls := by
  unfold prepareConnection at h
  rw [get_bind] at h
  cases hc : (p.connections t)[index]? with
  | none =>
    rw [hc] at h
    cases h
  | some pConnection =>
    rw [hc] at h
    obtain ⟨⟨prepared, c'⟩, p', hcall, hrest⟩ := bind_eq_ok.1 h
    obtain ⟨rfl, w, hrun, hc'⟩ := call_ok_world hcall
    have hold := hp.connections t pConnection (List.mem_of_getElem? hc)
    obtain ⟨htype, htabled⟩ := tabled_of_prepareStatements hold hrun
    simp only [modify_bind] at hrest
    change c' = { pConnection with world := w } at hc'
    subst hc'
    split at hrest
    · next hready =>
      obtain rfl : prepared = true := hready
      obtain ⟨_, p₁, hrecord, hret⟩ := bind_eq_ok.1 hrest
      cases hret
      unfold recordParamCounts at hrecord
      rw [get_bind] at hrecord
      split at hrecord
      · next hsmall =>
        cases hrecord
        refine hp.replace (hp.records.record htabled hsmall) ?_ ⟨htabled, .inr ?_⟩
        · exact fun item hitem hcount => htabled.keeps_count hitem hcount
        · intro item hitem hjoins
          obtain ⟨stmt, hstmt⟩ := prepareStatements_loaded cls.keys hrun hitem hjoins
          exact hp.records.new_count htabled hitem hstmt
      · cases hrecord
    · obtain ⟨_, p₁, hclose, hret⟩ := bind_eq_ok.1 hrest
      cases hret
      exact .close (p := p'.setConnections t _) hp.records hclose

theorem prepareConnections_agrees {t : EConnectionTypeIndex} {indices : List Nat} {ready : Bool}
    (hp : p.Agrees cls) (h : prepareConnections (cls.envs outcomes) t indices p = .ok ready q) :
    q.Agrees cls := by
  induction indices generalizing p with
  | nil =>
    cases h
    exact hp
  | cons index indices ih =>
    obtain ⟨prepared, p', hp', hrest⟩ := bind_eq_ok.1 h
    have hagrees := prepareConnection_agrees hp hp'
    cases prepared with
    | true => exact ih hagrees hrest
    | false =>
      cases hrest
      exact hagrees

theorem preparePool_agrees {ready : Bool} (hp : p.Agrees cls)
    (h : preparePool (cls.envs outcomes) p = .ok ready q) : q.Agrees cls := by
  unfold preparePool at h
  rw [get_bind] at h
  obtain ⟨prepared, p', hp', hrest⟩ := bind_eq_ok.1 h
  have hagrees := prepareConnections_agrees hp hp'
  cases prepared with
  | true => exact prepareConnections_agrees hagrees hrest
  | false =>
    cases hrest
    exact hagrees

theorem poolAfter_eq_some {α : Type} {r : EStateM.Result Halt WorkerPool α}
    (h : poolAfter r = some q) : ∃ a, r = .ok a q := by
  cases r with
  | ok a pool =>
    cases h
    exact ⟨a, rfl⟩
  | error halt pool => cases h

theorem agrees_step {c : StatementPoolCall} (hp : p.Agrees cls)
    (h : (statementPools cls outcomes).step p c = some q) : q.Agrees cls := by
  cases c with
  | openPool syncThreadCount asyncThreadCount =>
    obtain ⟨errcode, hopen⟩ := poolAfter_eq_some h
    obtain ⟨errcode', q', hopen', hopens⟩ :=
      openPool_opens (cls.envs outcomes) syncThreadCount asyncThreadCount p
    rw [hopen] at hopen'
    cases hopen'
    exact hp.draws (.opens hopens)
  | prepareStatements =>
    obtain ⟨ready, hprepare⟩ := poolAfter_eq_some h
    exact preparePool_agrees hp hprepare
  | close =>
    obtain ⟨_, hclose⟩ := poolAfter_eq_some h
    exact hp.draws (.closes hclose)
  | connection connType index c =>
    obtain ⟨_, hcall⟩ := poolAfter_eq_some h
    exact callConnection_agrees hp hcall

theorem agrees_reach (h : (statementPools cls outcomes).Reach p) : p.Agrees cls :=
  h.invariant (fun _ h0 => h0 ▸ WorkerPool.agrees_fresh) fun _ _ _ hp _ hs => agrees_step hp hs

end Steps

/-! ## Binding -/

/-- Each slot was assigned once more; a slot that was not assigned yet is not reported. -/
structure BoundOnce (b b' : ParameterSlots) : Prop where
  marks : b'.slots.map ParameterSlot.marks = b.slots.map fun slot => slot.marks + 1
  assigned : ∀ slot ∈ b'.slots, slot.assigned = true
  reported : (∀ slot ∈ b.slots, slot.assigned = false) → b'.reported = b.reported

/-- As many parameters as slots. -/
theorem boundOnce_of_length {b : ParameterSlots} {pStmt : PreparedStatement}
    (h : pStmt.statementData.length = b.paramCount) :
    ∃ b', b.bindParameters pStmt = .ok b' ∧ BoundOnce b b' := by
  have hslots : pStmt.statementData.length = b.slots.length := h
  refine ⟨_, ParameterSlots.bindParameters_eq b pStmt (Nat.le_of_eq h), ?_⟩
  rw [hslots, List.take_length, List.drop_length, List.append_nil]
  refine ⟨?_, ?_, ?_⟩
  · apply List.ext_getElem
    · simp [hslots]
    · intro i h₁ h₂
      simp [ParameterSlot.assign]
  · intro slot hslot
    obtain ⟨i, hi, rfl⟩ := List.mem_iff_getElem.1 hslot
    simp [ParameterSlot.assign]
  · intro hclear
    have hcount : b.slots.countP ParameterSlot.assigned = 0 := by
      rw [List.countP_eq_zero]
      intro slot hslot
      simp [hclear slot hslot]
    exact congrArg (b.reported + ·) hcount

/-- Behind `ClearParameters` no assignment is reported. -/
theorem bindParameters_cleared {b : ParameterSlots} {pStmt : PreparedStatement}
    (h : pStmt.statementData.length = b.paramCount) :
    ∃ b', b.clearParameters.bindParameters pStmt = .ok b' ∧ b'.reported = b.reported := by
  have hcount : b.clearParameters.paramCount = b.paramCount := List.length_map ..
  obtain ⟨b', hb', hbound⟩ := boundOnce_of_length (h.trans hcount.symm)
  refine ⟨b', hb', hbound.reported ?_⟩
  intro slot hslot
  obtain ⟨old, -, rfl⟩ := List.mem_map.1 hslot
  rfl

/-- **Arity.** In every state of a pool, for every connection that has the statement `index`: the
statement that `GetPreparedStatement` makes has as many parameters as the connection's, fewer than
255, and whatever its values are, binding it assigns each slot once. -/
theorem getPreparedStatement_arity (cls : ConnectionClass) (outcomes : Nat → Env) {p : WorkerPool}
    (h : (statementPools cls outcomes).Reach p) {connType : EConnectionTypeIndex}
    {c : PoolConnection} (hc : c ∈ p.connections connType) {index : Nat}
    {stmt : MySqlPreparedStatement} (hstmt : c.world.stmts[index]? = some (some stmt)) :
    ∃ pStmt, p.getPreparedStatement index = .ok pStmt ∧
      pStmt.preparedStatementIndex = index ∧
      pStmt.statementData.length = stmt.paramCount ∧ stmt.paramCount < 255 ∧
      ∀ values filled, pStmt.setValues values = .ok filled →
        ∀ b : ParameterSlots, b.paramCount = stmt.paramCount →
          ∃ b', b.bindParameters filled = .ok b' ∧ BoundOnce b b' := by
  have hagrees := agrees_reach h
  have hcounted := hagrees.connections connType c hc
  obtain ⟨item, hitem, rfl, hjoins, -, hcount⟩ := hcounted.tabled index stmt hstmt
  have hrecorded : p.preparedStmtParamCount[item.index]? = some stmt.paramCount := by
    rw [hcount]
    rcases hcounted.counts with hnil | hcounts
    · rw [hnil] at hstmt
      cases hstmt
    · exact hcounts item hitem hjoins
  have hsmall : stmt.paramCount < 255 := (hagrees.records _ _ hrecorded).1
  have hlength : (List.replicate (stmt.paramCount % 256) (PreparedStatementData.bool false)).length
      = stmt.paramCount := by
    rw [List.length_replicate, Nat.mod_eq_of_lt (by omega)]
  refine ⟨_, by rw [WorkerPool.getPreparedStatement, hrecorded], rfl, hlength, hsmall, ?_⟩
  intro values filled hfilled b hb
  obtain ⟨-, hsame⟩ := PreparedStatement.setValues_ok hfilled
  exact boundOnce_of_length (hsame.trans (hlength.trans hb.symm))

/-- The class of the login database. -/
def loginDatabaseClass : ConnectionClass :=
  ⟨loginDatabaseEnumMax, loginDatabaseStmtMap, fun _ => 1, by simp [loginDatabaseStmtMap]⟩

/-- The login database with an asynchronous and a synchronous connection, opened and prepared: the
one statement of the synchronous connection has one parameter. -/
theorem loginDatabase_arity :
    ∃ (p : WorkerPool) (stmt : MySqlPreparedStatement),
      (statementPools loginDatabaseClass fun _ => loginDatabase []).Reach p ∧
      stmt.paramCount = 1 ∧ ∃ pStmt, p.getPreparedStatement 0 = .ok pStmt ∧
        pStmt.preparedStatementIndex = 0 ∧
        pStmt.statementData.length = stmt.paramCount ∧ stmt.paramCount < 255 ∧
        ∀ values filled, pStmt.setValues values = .ok filled →
          ∀ b : ParameterSlots, b.paramCount = stmt.paramCount →
            ∃ b', b.bindParameters filled = .ok b' ∧ BoundOnce b b' := by
  set pools := statementPools loginDatabaseClass fun _ => loginDatabase []
  have hrun : ∃ p, pools.run .fresh [.openPool 1 1, .prepareStatements] = some p ∧
      ∃ c ∈ p.connections .sync, ∃ stmt : MySqlPreparedStatement,
        c.world.stmts[0]? = some (some stmt) ∧ stmt.paramCount = 1 :=
    ⟨_, rfl, _, List.mem_of_getElem? (i := 0) rfl, _, rfl, rfl⟩
  obtain ⟨p, hp, c, hc, stmt, hstmt, hcount⟩ := hrun
  have hreach : pools.Reach p := Machine.reach_of_run rfl hp
  exact ⟨p, stmt, hreach, hcount, getPreparedStatement_arity _ _ hreach hc hstmt⟩

end GameServer.Database
