import GameServer.Database.StatementArity

/-!
# What the lookups of a pool rely on

`GetFreeConnectionAndLock` takes an index modulo the number of synchronous connections, and
`GetPreparedStatement` reads the recorded number of parameters at the index it is given. Neither
looks whether there is one. What they find depends on the calls before and on what these gave
(`PoolHistory`): an `Open` that failed leaves synchronous connections behind or destroys them, a
`PrepareStatements` that failed destroys them and may have recorded statements. `lookups_safe_iff`
says that a run of calls does nothing undefined in the lookups exactly if the calls before each of
them have made what it needs.

`lookups` adds the lookups to the calls of `statementPools`. `history` is what the calls so far have
given and `faults` are the lookups that went wrong; no code reads them.
-/

namespace GameServer.Database

open GameServer.Lib GameServer.Lib.Exec

/-! ## The code -/

/-- What a lookup must not do. -/
inductive LookupFault where
  /-- `index++ % connectionCount` for no connections. -/
  | moduloZero
  /-- An access behind the end of the connections. -/
  | absentConnection
  /-- An access behind the end of `_preparedStmtParamCount`. -/
  | absentStatement
  deriving DecidableEq, Repr

/-- `GetFreeConnectionAndLock`: the index of the connection. The pointers in the list are not null,
so that the loop ends with its first turn, whatever `TryLock` returns. -/
def WorkerPool.getFreeConnectionAndLock (p : WorkerPool) : Except LookupFault Nat :=
  let connectionCount := (p.connections .sync).length
  let index := 0
  if connectionCount = 0 then .error .moduloZero
  else
    match (p.connections .sync)[index % connectionCount]? with
    | none => .error .absentConnection
    | some _ => .ok (index % connectionCount)

/-! ## What the calls have given -/

/-- What a call on the pool gives. -/
inductive PoolOutcome where
  /-- `Open`: how many synchronous connections it was to make, and the error codes of its two calls
  of `OpenConnections`; after an error the second one is not made. -/
  | opened (syncThreadCount asyncErrcode syncErrcode : Nat)
  /-- `PrepareStatements`: what it returned, and how many statements each connection had whose own
  preparation succeeded. -/
  | prepared (ready : Bool) (slots : List Nat)
  | closed
  | used

/-- What the calls so far have given. -/
structure PoolHistory where
  /-- Some `Open` has made synchronous connections, and no call has destroyed them since. -/
  synchronous : Bool
  /-- The greatest number of statements that a connection had when its preparation succeeded. -/
  slots : Nat
  deriving DecidableEq, Repr

namespace PoolHistory

def fresh : PoolHistory := ⟨false, 0⟩

def after (h : PoolHistory) : PoolOutcome → PoolHistory
  | .opened syncThreadCount asyncErrcode syncErrcode =>
    if asyncErrcode ≠ 0 then h
    else if syncErrcode ≠ 0 then { h with synchronous := false }
    else { h with synchronous := h.synchronous || syncThreadCount != 0 }
  | .prepared ready slots => ⟨h.synchronous && ready, slots.foldl max h.slots⟩
  | .closed => { h with synchronous := false }
  | .used => h

end PoolHistory

def errcodeOf : EStateM.Result Halt WorkerPool Nat → Nat
  | .ok errcode _ => errcode
  | .error _ _ => 0

/-- How many statements each of these connections has after its own `PrepareStatements`, as long as
that returns true. -/
def preparedSlots (envs : Nat → Env) : List PoolConnection → List Nat
  | [] => []
  | c :: connections =>
    match prepareStatements (envs c.number) c.world with
    | .ok true w => w.stmts.length :: preparedSlots envs connections
    | _ => []

def WorkerPool.outcome (p : WorkerPool) (envs : Nat → Env) : StatementPoolCall → PoolOutcome
  | .openPool syncThreadCount asyncThreadCount =>
    match openConnections envs .async asyncThreadCount p.informed with
    | .ok errcode q =>
      .opened syncThreadCount errcode (errcodeOf (openConnections envs .sync syncThreadCount q))
    | .error _ _ => .used
  | .prepareStatements =>
    let connections := p.connections .async ++ p.connections .sync
    let slots := preparedSlots envs connections
    .prepared (slots.length == connections.length) slots
  | .close => .closed
  | .connection _ _ _ => .used

structure LookupPool where
  pool : WorkerPool
  history : PoolHistory
  faults : List LookupFault

namespace LookupPool

def fresh : LookupPool := ⟨.fresh, .fresh, []⟩

/-- A call on the connection that `GetFreeConnectionAndLock` returns. -/
def useFreeConnection (s : LookupPool) (envs : Nat → Env) (c : ConnectionCall) :
    Option LookupPool :=
  match s.pool.getFreeConnectionAndLock with
  | .error fault => some { s with faults := s.faults ++ [fault] }
  | .ok index =>
    (poolAfter (callConnection envs .sync index c s.pool)).map fun pool => { s with pool }

def syncExecute (s : LookupPool) (envs : Nat → Env) (sql : Sql) : Option LookupPool :=
  s.useFreeConnection envs (.execute sql)

def syncExecuteStmt (s : LookupPool) (envs : Nat → Env) (pStmt : PreparedStatementBase) :
    Option LookupPool :=
  s.useFreeConnection envs (.executeStmt pStmt)

def syncQuery (s : LookupPool) (envs : Nat → Env) (sql : Sql) (stored : Bool) :
    Option LookupPool :=
  s.useFreeConnection envs (.query sql stored)

def syncQueryStmt (s : LookupPool) (envs : Nat → Env) (pStmt : PreparedStatementBase) :
    Option LookupPool :=
  s.useFreeConnection envs (.queryStmt pStmt)

/-- `GetPreparedStatement`, whose result the caller fills and hands in again. -/
def getPreparedStatement (s : LookupPool) (index : Nat) : LookupPool :=
  match s.pool.getPreparedStatement index with
  | .error _ => { s with faults := s.faults ++ [.absentStatement] }
  | .ok _ => s

end LookupPool

inductive LookupCall where
  | pool (c : StatementPoolCall)
  | syncExecute (sql : Sql)
  | syncExecuteStmt (pStmt : PreparedStatementBase)
  | syncQuery (sql : Sql) (stored : Bool)
  | syncQueryStmt (pStmt : PreparedStatementBase)
  | getPreparedStatement (index : Nat)

/-- The calls of a pool, with statements of the connection class. -/
def lookups (cls : ConnectionClass) (outcomes : Nat → Env) : Machine LookupPool LookupCall where
  init s := s = .fresh
  step s
    | .pool c =>
      ((statementPools cls outcomes).step s.pool c).map fun pool =>
        { s with pool, history := s.history.after (s.pool.outcome (cls.envs outcomes) c) }
    | .syncExecute sql => s.syncExecute (cls.envs outcomes) sql
    | .syncExecuteStmt pStmt => s.syncExecuteStmt (cls.envs outcomes) pStmt
    | .syncQuery sql stored => s.syncQuery (cls.envs outcomes) sql stored
    | .syncQueryStmt pStmt => s.syncQueryStmt (cls.envs outcomes) pStmt
    | .getPreparedStatement index =>
      if index < cls.stmtMax then some (s.getPreparedStatement index) else none

/-! ## When they are safe -/

namespace LookupPool

/-- No lookup went wrong. -/
def Sound (s : LookupPool) : Prop := s.faults = []

/-- An `Open` has made a synchronous connection that was not destroyed since; or a connection with
so many statements has been prepared. -/
def Serves (s : LookupPool) : LookupCall → Prop
  | .pool _ => True
  | .syncExecute _ | .syncExecuteStmt _ | .syncQuery _ _ | .syncQueryStmt _ =>
    s.history.synchronous = true
  | .getPreparedStatement index => index < s.history.slots

theorem sound_append (s : LookupPool) (fault : LookupFault) :
    ¬Sound { s with faults := s.faults ++ [fault] } := by
  simp [Sound]

end LookupPool

/-! ## The pool follows the history -/

/-- The history says what the lookups find. -/
structure Follows (p : WorkerPool) (h : PoolHistory) : Prop where
  synchronous : h.synchronous = true ↔ p.connections .sync ≠ []
  slots : p.preparedStmtParamCount.length = h.slots

theorem follows_fresh : Follows .fresh .fresh :=
  ⟨iff_of_false Bool.false_ne_true (not_not_intro rfl), rfl⟩

section Calls

variable {envs : Nat → Env} {p q : WorkerPool} {h : PoolHistory} {b : Bool}
  {t : EConnectionTypeIndex}

/-- A call that keeps the number of synchronous connections and what is recorded. -/
theorem Follows.same (hp : Follows p h)
    (hsync : (q.connections .sync).length = (p.connections .sync).length)
    (hcounts : q.preparedStmtParamCount = p.preparedStmtParamCount) : Follows q h := by
  refine ⟨hp.synchronous.trans ?_, by rw [hcounts, hp.slots]⟩
  rw [← List.length_pos_iff, ← List.length_pos_iff, hsync]

/-- A call that leaves no connections. -/
theorem Follows.emptied {n : Nat} (hsync : q.connections .sync = [])
    (hcounts : q.preparedStmtParamCount.length = n) : Follows q ⟨false, n⟩ :=
  ⟨iff_of_false Bool.false_ne_true (not_not_intro hsync), hcounts⟩

/-! ### `Open` -/

theorem Follows.opens {s a errcode : Nat} (hp : Follows p h)
    (hopens : Opens envs s a p errcode q) :
    Follows q (h.after (p.outcome envs (.openPool s a))) := by
  have hcounts : q.preparedStmtParamCount = p.preparedStmtParamCount := (Draws.opens hopens).counts
  cases hopens with
  | all hall =>
    have hasync := @openConnections_all envs .async p.informed a fun i hi =>
      hall i (Nat.lt_add_right s hi)
    have hsync := @openConnections_all envs .sync (p.informed.grown envs .async a) s (by
      intro i hi
      rw [WorkerPool.grown_created, Nat.add_assoc]
      exact hall (a + i) (Nat.add_lt_add_left hi a))
    refine ⟨?_, ?_⟩
    · rw [WorkerPool.grown_self, WorkerPool.grown_of_ne (by decide)]
      simp only [WorkerPool.outcome, hasync, hsync, errcodeOf, PoolHistory.after, ne_eq,
        not_true_eq_false, if_false, Bool.or_eq_true, bne_iff_ne, List.append_eq_nil_iff,
        List.map_eq_nil_iff, List.range'_eq_nil_iff, not_and_or]
      exact or_congr hp.synchronous Iff.rfl
    · rw [hcounts, hp.slots]
      simp [WorkerPool.outcome, hasync, hsync, errcodeOf, PoolHistory.after]
  | @async k hk hfirst he =>
    have hasync := @openConnections_first envs .async p.informed a k hk hfirst he
    have hsame : h.after (p.outcome envs (.openPool s a)) = h := by
      simp only [WorkerPool.outcome, hasync, PoolHistory.after]
      exact if_pos he
    rw [hsame]
    refine hp.same ?_ hcounts
    rw [WorkerPool.failed_of_ne (by decide), WorkerPool.grown_of_ne (by decide)]
    rfl
  | @sync k hk hfirst he =>
    have hasync := @openConnections_all envs .async p.informed a fun i hi =>
      hfirst i (Nat.lt_add_right k hi)
    have hnext : ∀ i, (p.informed.grown envs .async a).created + i = p.created + (a + i) := by
      intro i
      rw [WorkerPool.grown_created, Nat.add_assoc]
      rfl
    have hsync := @openConnections_first envs .sync (p.informed.grown envs .async a) s k hk
      (fun i hi => by rw [hnext]; exact hfirst (a + i) (Nat.add_lt_add_left hi a))
      (by rw [hnext]; exact he)
    have hcleared : h.after (p.outcome envs (.openPool s a)) = ⟨false, h.slots⟩ := by
      simp only [WorkerPool.outcome, hasync, hsync, errcodeOf, PoolHistory.after, hnext]
      rw [if_neg (not_not_intro rfl), if_pos he]
    rw [hcleared]
    exact .emptied WorkerPool.failed_self (by rw [hcounts, hp.slots])

/-! ### `PrepareStatements` -/

theorem length_paramCounts (counts : List Nat) (stmts : List (Option MySqlPreparedStatement)) :
    (paramCounts counts stmts).length = max counts.length stmts.length := by
  induction counts, stmts using paramCounts.induct with
  | case1 counts => simp [paramCounts]
  | case2 stmt stmts ih => simp [paramCounts, ih]
  | case3 count counts stmt stmts ih => simp [paramCounts, ih, Nat.succ_max_succ]

theorem preparedSlots_cons {c : PoolConnection} {connections : List PoolConnection} {w : World}
    (hc : prepareStatements (envs c.number) c.world = .ok b w) :
    preparedSlots envs (c :: connections) =
      if b then w.stmts.length :: preparedSlots envs connections else [] := by
  cases b <;> simp [preparedSlots, hc]

theorem length_preparedSlots_le (connections : List PoolConnection) :
    (preparedSlots envs connections).length ≤ connections.length := by
  induction connections with
  | nil => exact Nat.le_refl 0
  | cons c connections ih =>
    unfold preparedSlots
    split
    · exact Nat.succ_le_succ ih
    · exact Nat.zero_le _

theorem preparedSlots_append (first second : List PoolConnection) :
    preparedSlots envs (first ++ second) =
      if (preparedSlots envs first).length = first.length
      then preparedSlots envs first ++ preparedSlots envs second
      else preparedSlots envs first := by
  induction first with
  | nil => rfl
  | cons c first ih =>
    rw [List.cons_append, preparedSlots, preparedSlots]
    split
    · rw [ih]
      simp only [List.length_cons, Nat.succ_inj]
      split <;> rfl
    · exact (if_neg (Nat.succ_ne_zero _).symm).symm

/-- How the preparation of these connections ends: which succeeded, and what is recorded. -/
structure Prepared (envs : Nat → Env) (t : EConnectionTypeIndex) (p : WorkerPool)
    (connections : List PoolConnection) (b : Bool) (q : WorkerPool) : Prop where
  counts : q.preparedStmtParamCount.length =
    (preparedSlots envs connections).foldl max p.preparedStmtParamCount.length
  ready : b = true ↔ (preparedSlots envs connections).length = connections.length
  lengths : b = true → ∀ u, (q.connections u).length = (p.connections u).length
  others : b = true → ∀ u, u ≠ t → q.connections u = p.connections u
  closed : b = false → ∀ u, q.connections u = []

/-- One connection: its slots are recorded and it is put back, or the pool is closed. -/
theorem prepareConnection_cases {index : Nat}
    (hrun : prepareConnection envs t index p = .ok b q) :
    ∃ c w, (p.connections t)[index]? = some c ∧
      prepareStatements (envs c.number) c.world = .ok b w ∧
      (b = true → q.preparedStmtParamCount = paramCounts p.preparedStmtParamCount w.stmts ∧
        q.connections =
          (p.setConnections t ((p.connections t).set index { c with world := w })).connections) ∧
      (b = false → q.preparedStmtParamCount = p.preparedStmtParamCount ∧
        ∀ u, q.connections u = []) := by
  unfold prepareConnection at hrun
  rw [get_bind] at hrun
  cases hc : (p.connections t)[index]? with
  | none =>
    rw [hc] at hrun
    cases hrun
  | some c =>
    rw [hc] at hrun
    obtain ⟨⟨ready, c'⟩, p', hcall, hrest⟩ := bind_eq_ok.1 hrun
    obtain ⟨rfl, w, hw, hc'⟩ := call_ok_world hcall
    change c' = { c with world := w } at hc'
    subst hc'
    simp only [modify_bind] at hrest
    split at hrest
    · next hready =>
      obtain rfl : ready = true := hready
      obtain ⟨_, p₁, hrecord, hret⟩ := bind_eq_ok.1 hrest
      cases hret
      unfold recordParamCounts at hrecord
      rw [get_bind] at hrecord
      split at hrecord
      · cases hrecord
        exact ⟨c, w, rfl, hw, fun _ => ⟨rfl, rfl⟩, nofun⟩
      · cases hrecord
    · next hready =>
      obtain rfl : ready = false := Bool.eq_false_iff.2 hready
      obtain ⟨_, p₁, hclose, hret⟩ := bind_eq_ok.1 hrest
      cases hret
      refine ⟨c, w, rfl, hw, nofun, fun _ => ⟨(Draws.closes hclose).counts, fun u => ?_⟩⟩
      rw [closePool_ok hclose]
      cases u with
      | async => rw [WorkerPool.cleared_of_ne (by decide), WorkerPool.cleared_self]
      | sync => exact WorkerPool.cleared_self

/-- The loop from the connection at `i` on. -/
theorem prepareConnections_prepared {n i : Nat} (hn : ((p.connections t).drop i).length = n)
    (hrun : prepareConnections envs t (List.range' i n) p = .ok b q) :
    Prepared envs t p ((p.connections t).drop i) b q := by
  induction n generalizing i p with
  | zero =>
    cases hrun
    rw [List.length_eq_zero_iff.1 hn]
    exact ⟨rfl, iff_of_true rfl rfl, fun _ _ => rfl, fun _ _ _ => rfl, nofun⟩
  | succ n ih =>
    obtain ⟨ready, p', hp', hrest⟩ := bind_eq_ok.1 hrun
    obtain ⟨c, w, hc, hw, htrue, hfalse⟩ := prepareConnection_cases hp'
    obtain ⟨hi, hget⟩ := List.getElem?_eq_some_iff.1 hc
    rw [List.drop_eq_getElem_cons hi, hget] at hn ⊢
    have hslots := @preparedSlots_cons envs ready c ((p.connections t).drop (i + 1)) w hw
    cases ready with
    | false =>
      cases hrest
      obtain ⟨hcounts, hnil⟩ := hfalse rfl
      refine ⟨?_, ?_, nofun, nofun, fun _ => hnil⟩
      · rw [hslots, hcounts]
        rfl
      · rw [hslots]
        exact iff_of_false Bool.false_ne_true (Nat.succ_ne_zero _).symm
    | true =>
      obtain ⟨hcounts, hconnections⟩ := htrue rfl
      have hdrop : (p'.connections t).drop (i + 1) = (p.connections t).drop (i + 1) := by
        rw [hconnections, WorkerPool.setConnections_self,
          List.drop_set_of_lt (Nat.lt_succ_self i)]
      have hrec : Prepared envs t p' ((p'.connections t).drop (i + 1)) b q :=
        ih (by rw [hdrop]; exact Nat.succ_injective hn) hrest
      rw [hdrop] at hrec
      have hothers : ∀ u, u ≠ t → p'.connections u = p.connections u := by
        intro u hu
        rw [hconnections, WorkerPool.setConnections_of_ne hu]
      have hlengths : ∀ u, (p'.connections u).length = (p.connections u).length := by
        intro u
        by_cases hu : u = t
        · subst hu
          rw [hconnections, WorkerPool.setConnections_self, List.length_set]
        · rw [hothers u hu]
      refine ⟨?_, ?_, fun hb u => (hrec.lengths hb u).trans (hlengths u),
        fun hb u hu => (hrec.others hb u hu).trans (hothers u hu), hrec.closed⟩
      · rw [hrec.counts, hslots, hcounts, length_paramCounts]
        rfl
      · rw [hrec.ready, hslots]
        exact Nat.succ_inj.symm

/-- All of them, the asynchronous ones first. -/
theorem preparePool_prepared (hrun : preparePool envs p = .ok b q) :
    q.preparedStmtParamCount.length =
        (preparedSlots envs (p.connections .async ++ p.connections .sync)).foldl max
          p.preparedStmtParamCount.length ∧
      (b = true ↔ (preparedSlots envs (p.connections .async ++ p.connections .sync)).length =
        (p.connections .async ++ p.connections .sync).length) ∧
      (b = true → (q.connections .sync).length = (p.connections .sync).length) ∧
      (b = false → q.connections .sync = []) := by
  unfold preparePool at hrun
  rw [get_bind] at hrun
  obtain ⟨ready, p', hp', hrest⟩ := bind_eq_ok.1 hrun
  rw [List.range_eq_range'] at hp'
  have hasync : Prepared envs .async p (p.connections .async) ready p' :=
    prepareConnections_prepared (i := 0) rfl hp'
  rw [preparedSlots_append]
  cases ready with
  | false =>
    cases hrest
    have hfew : (preparedSlots envs (p.connections .async)).length ≠
        (p.connections .async).length := fun h => Bool.false_ne_true (hasync.ready.2 h)
    rw [if_neg hfew]
    refine ⟨hasync.counts, iff_of_false Bool.false_ne_true fun h => ?_, nofun,
      fun _ => hasync.closed rfl .sync⟩
    have hle := @length_preparedSlots_le envs (p.connections .async)
    rw [List.length_append] at h
    omega
  | true =>
    have hall := hasync.ready.1 rfl
    have hsame := hasync.others rfl .sync (by decide)
    change prepareConnections envs .sync (List.range (p.connections .sync).length) p' = _ at hrest
    rw [List.range_eq_range', ← hsame] at hrest
    have hsync : Prepared envs .sync p' (p'.connections .sync) b q :=
      prepareConnections_prepared (i := 0) rfl hrest
    rw [hsame] at hsync
    rw [if_pos hall]
    refine ⟨?_, ?_, fun hb => ?_, fun hb => hsync.closed hb .sync⟩
    · rw [hsync.counts, hasync.counts, List.foldl_append]
    · rw [hsync.ready, List.length_append, List.length_append, hall]
      exact Nat.add_left_cancel_iff.symm
    · rw [hsync.lengths hb, hsame]

theorem Follows.prepares (hp : Follows p h) (hrun : preparePool envs p = .ok b q) :
    Follows q (h.after (p.outcome envs .prepareStatements)) := by
  obtain ⟨hcounts, hready, hlengths, hclosed⟩ := preparePool_prepared hrun
  have hb : ((preparedSlots envs (p.connections .async ++ p.connections .sync)).length ==
      (p.connections .async ++ p.connections .sync).length) = b := by
    rw [Bool.eq_iff_iff, beq_iff_eq, hready]
  rw [hp.slots] at hcounts
  change Follows q ⟨h.synchronous && _, _⟩
  rw [hb]
  cases b with
  | true =>
    refine ⟨?_, hcounts⟩
    rw [Bool.and_true, hp.synchronous, ← List.length_pos_iff, ← List.length_pos_iff, hlengths rfl]
  | false =>
    rw [Bool.and_false]
    exact .emptied (hclosed rfl) hcounts

/-- A connection that has not reconnected has all statements of its class when it is prepared. -/
theorem length_stmts_prepared {env : Env} {w v : World} (hw : w.reconnecting = false)
    (hrun : prepareStatements env w = .ok b v) : v.stmts.length = env.stmtMax := by
  have hrefills := prepareStatements_refills env w
  rw [hrun] at hrefills
  refine hrefills.length.trans ?_
  rw [World.sized, hw, if_neg Bool.false_ne_true]
  simp only [resizeStmts, List.length_append, List.length_take, List.length_replicate]
  omega

/-! ### `Close`, and calls on a connection -/

theorem Follows.closes (hp : Follows p h) (hclose : closePool p = .ok ⟨⟩ q) :
    Follows q (h.after .closed) := by
  refine .emptied ?_ (by rw [(Draws.closes hclose).counts, hp.slots])
  rw [closePool_ok hclose]
  exact WorkerPool.cleared_self

theorem Follows.uses {index : Nat} {c : ConnectionCall} (hp : Follows p h)
    (hrun : callConnection envs t index c p = .ok ⟨⟩ q) : Follows q h := by
  unfold callConnection at hrun
  rw [get_bind] at hrun
  cases hc : (p.connections t)[index]? with
  | none =>
    rw [hc] at hrun
    cases hrun
  | some pConnection =>
    rw [hc] at hrun
    obtain ⟨⟨_, c'⟩, p', hcall, hrest⟩ := bind_eq_ok.1 hrun
    obtain ⟨rfl, -⟩ := call_ok_world hcall
    cases hrest
    refine hp.same ?_ rfl
    cases t with
    | async => rw [WorkerPool.setConnections_of_ne (by decide)]
    | sync => rw [WorkerPool.setConnections_self, List.length_set]

end Calls

/-- **One call on the pool.** -/
theorem Follows.step {cls : ConnectionClass} {outcomes : Nat → Env} {p q : WorkerPool}
    {h : PoolHistory} {c : StatementPoolCall} (hp : Follows p h)
    (hq : (statementPools cls outcomes).step p c = some q) :
    Follows q (h.after (p.outcome (cls.envs outcomes) c)) := by
  cases c with
  | openPool syncThreadCount asyncThreadCount =>
    obtain ⟨errcode, hopen⟩ := poolAfter_eq_some hq
    obtain ⟨errcode', q', hopen', hopens⟩ :=
      openPool_opens (cls.envs outcomes) syncThreadCount asyncThreadCount p
    rw [hopen] at hopen'
    cases hopen'
    exact hp.opens hopens
  | prepareStatements =>
    obtain ⟨ready, hprepare⟩ := poolAfter_eq_some hq
    exact hp.prepares hprepare
  | close =>
    obtain ⟨_, hclose⟩ := poolAfter_eq_some hq
    exact hp.closes hclose
  | connection connType index c =>
    obtain ⟨_, hcall⟩ := poolAfter_eq_some hq
    exact hp.uses hcall

/-! ## The lookups -/

/-- A synchronous connection is all that the lookup needs. -/
theorem getFreeConnectionAndLock_eq (p : WorkerPool) :
    p.getFreeConnectionAndLock =
      if p.connections .sync = [] then .error .moduloZero else .ok 0 := by
  unfold WorkerPool.getFreeConnectionAndLock
  cases p.connections .sync with
  | nil => rfl
  | cons c connections => simp

section Steps

variable {cls : ConnectionClass} {outcomes : Nat → Env} {s t : LookupPool}

theorem useFreeConnection_sound_iff {envs : Nat → Env} {c : ConnectionCall} (hs : s.Sound)
    (hf : Follows s.pool s.history) (ht : s.useFreeConnection envs c = some t) :
    (t.Sound ↔ s.history.synchronous = true) ∧ Follows t.pool t.history := by
  rw [hf.synchronous]
  unfold LookupPool.useFreeConnection at ht
  rw [getFreeConnectionAndLock_eq] at ht
  split at ht
  · next fault hfault =>
    cases ht
    refine ⟨iff_of_false (s.sound_append fault) fun hne => ?_, hf⟩
    rw [if_neg hne] at hfault
    cases hfault
  · next index hindex =>
    obtain ⟨pool, hpool, rfl⟩ := Option.map_eq_some_iff.1 ht
    obtain ⟨_, hcall⟩ := poolAfter_eq_some hpool
    refine ⟨iff_of_true hs fun hnil => ?_, hf.uses hcall⟩
    rw [if_pos hnil] at hindex
    cases hindex

theorem getPreparedStatement_sound_iff {index : Nat} (hs : s.Sound)
    (hf : Follows s.pool s.history) :
    ((s.getPreparedStatement index).Sound ↔ index < s.history.slots) ∧
      Follows (s.getPreparedStatement index).pool (s.getPreparedStatement index).history := by
  rw [← hf.slots]
  unfold LookupPool.getPreparedStatement WorkerPool.getPreparedStatement
  cases hcount : s.pool.preparedStmtParamCount[index]? with
  | none =>
    exact ⟨iff_of_false (s.sound_append _) (Nat.not_lt.2 (List.getElem?_eq_none_iff.1 hcount)), hf⟩
  | some paramCount => exact ⟨iff_of_true hs (List.getElem?_eq_some_iff.1 hcount).1, hf⟩

/-- **One call.** -/
theorem lookup_sound_iff {c : LookupCall} (hs : s.Sound) (hf : Follows s.pool s.history)
    (ht : (lookups cls outcomes).step s c = some t) :
    (t.Sound ↔ s.Serves c) ∧ Follows t.pool t.history := by
  cases c with
  | pool c =>
    obtain ⟨pool, hpool, rfl⟩ := Option.map_eq_some_iff.1 ht
    exact ⟨iff_of_true hs trivial, hf.step hpool⟩
  | syncExecute sql => exact useFreeConnection_sound_iff hs hf ht
  | syncExecuteStmt pStmt => exact useFreeConnection_sound_iff hs hf ht
  | syncQuery sql stored => exact useFreeConnection_sound_iff hs hf ht
  | syncQueryStmt pStmt => exact useFreeConnection_sound_iff hs hf ht
  | getPreparedStatement index =>
    simp only [lookups, Option.ite_none_right_eq_some, Option.some.injEq] at ht
    obtain ⟨-, rfl⟩ := ht
    exact getPreparedStatement_sound_iff hs hf

end Steps

/-- **The lookups of a pool.** A run of calls, from the constructor on, does nothing undefined in
a lookup exactly if before each synchronous call an `Open` has made synchronous connections that
were not destroyed since, and before each `GetPreparedStatement` a connection that has the statement
has been prepared. -/
theorem lookups_safe_iff (cls : ConnectionClass) (outcomes : Nat → Env) (calls : List LookupCall) :
    (lookups cls outcomes).Along LookupPool.Sound .fresh calls ↔
      (lookups cls outcomes).Meets LookupPool.Serves .fresh calls := by
  refine Machine.along_iff_meets (I := fun s : LookupPool => s.Sound ∧ Follows s.pool s.history)
    (fun _ h => h.1) ?_ ?_ ⟨rfl, follows_fresh⟩
  · intro s c t hs hc ht
    obtain ⟨hsound, hfollows⟩ := lookup_sound_iff hs.1 hs.2 ht
    exact ⟨hsound.2 hc, hfollows⟩
  · intro s c t hs hc ht hsound
    exact hc ((lookup_sound_iff hs.1 hs.2 ht).1.1 hsound)

/-- A pool that was opened without synchronous connections. -/
theorem modulo_zero_reached :
    ¬∀ (cls : ConnectionClass) (outcomes : Nat → Env) (s : LookupPool),
      (lookups cls outcomes).Reach s → s.Sound := by
  intro h
  have hrun : ∃ s, (lookups loginDatabaseClass fun _ => loginDatabase []).run .fresh
      [.pool (.openPool 0 1), .pool .prepareStatements, .syncExecute (.text "select 1")] = some s ∧
        s.faults = [.moduloZero] := ⟨_, rfl, rfl⟩
  obtain ⟨s, hrun, hfaults⟩ := hrun
  have hsound := h _ _ s (Machine.reach_of_run rfl hrun)
  rw [LookupPool.Sound, hfaults] at hsound
  cases hsound

end GameServer.Database
