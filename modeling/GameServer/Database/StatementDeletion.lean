import GameServer.Database.TransactionSharing

/-!
# Every statement deleted once

When all is done each statement should have been deleted once. `owners` counts the places a
statement is in, the deleted ones included: every step keeps it at one for a statement that was
handed out. `lost` counts the statements in places where nothing will delete them: those passed
to `SyncExecute`, and those of a transaction that is cleaned up already. It grows by the steps
that are not `Owned`, so each statement is deleted once exactly in the runs without such a step
(`deletedOnce_iff`).
-/

namespace GameServer.Database

open GameServer.Lib GameServer.Threading

/-! ## Transactions -/

namespace SharedTransaction

/-- The statements that no clean-up will delete any more. -/
def stranded (tr : SharedTransaction) : List Nat :=
  if tr.transaction.cleanUp then tr.transaction.statements else []

/-- A transaction without a pointer to it has been cleaned up. -/
def Settled (tr : SharedTransaction) : Prop :=
  tr.clientRefs = 0 → tr.taskRefs = 0 → tr.transaction.cleanUp = true

/-- What `f` deletes of a transaction it removes from it, and it deletes all it can where no
pointer is left. -/
structure Settles (f : SharedTransaction → List Nat × SharedTransaction) : Prop where
  count : ∀ tr x, (f tr).1.count x + (f tr).2.transaction.statements.count x =
    tr.transaction.statements.count x
  stranded : ∀ tr, (f tr).2.stranded = tr.stranded
  settled : ∀ tr, tr.Settled → (f tr).2.Settled

theorem cleanedUp_settles : Settles cleanedUp := by
  have hcases : ∀ tr : SharedTransaction, tr.cleanedUp = ([], tr) ∨
      tr.transaction.cleanUp = false ∧ tr.cleanedUp =
        (tr.transaction.statements, { tr with transaction := ⟨[], true⟩ }) := by
    intro tr
    unfold cleanedUp TransactionBase.cleanedUp
    cases htr : tr.transaction.cleanUp with
    | true => exact .inl rfl
    | false => exact .inr ⟨rfl, rfl⟩
  constructor
  · intro tr x
    rcases hcases tr with h | ⟨-, h⟩
    · rw [h]
      exact Nat.zero_add _
    · rw [h]
      rfl
  · intro tr
    rcases hcases tr with h | ⟨hlive, h⟩
    · rw [h]
    · rw [h, stranded, stranded, hlive]
      rfl
  · intro tr htr
    rcases hcases tr with h | ⟨-, h⟩
    · rw [h]
      exact htr
    · rw [h]
      exact fun _ _ => rfl

/-- After the clean-up the flag is up. -/
theorem cleanedUp_cleanUp (tr : SharedTransaction) :
    tr.cleanedUp.2.transaction.cleanUp = true := by
  unfold cleanedUp TransactionBase.cleanedUp
  cases htr : tr.transaction.cleanUp with
  | true => exact htr
  | false => rfl

/-- `f` with other counts of pointers, and then the destructor if there is none. -/
theorem destructed_settles {f : SharedTransaction → SharedTransaction}
    (hf : ∀ tr, (f tr).transaction = tr.transaction) : Settles fun tr => (f tr).destructed := by
  constructor
  · intro tr x
    unfold destructed
    split
    · rw [cleanedUp_settles.count, hf]
    · rw [hf]
      exact Nat.zero_add _
  · intro tr
    have hsame : (f tr).stranded = tr.stranded := by rw [stranded, stranded, hf]
    unfold destructed
    split
    · rw [cleanedUp_settles.stranded, hsame]
    · exact hsame
  · intro tr _
    unfold destructed
    split
    · exact fun _ _ => cleanedUp_cleanUp _
    · next hrefs => exact fun hclient htask => absurd ⟨hclient, htask⟩ hrefs

theorem clientReleased_settles : Settles clientReleased := destructed_settles fun _ => rfl

theorem taskReleased_settles : Settles taskReleased := destructed_settles fun _ => rfl

end SharedTransaction

/-! ## Counting the places of a statement -/

/-- The statement that a task owns. -/
def SqlTask.statements : SqlTask → List Nat
  | preparedQuery pStmt _ => [pStmt]
  | _ => []

namespace StatementSystem

/-- In how many places the statement `x` is. -/
def owners (s : StatementSystem) (x : Nat) : Nat :=
  s.held.count x + (s.queue.queue.flatMap SqlTask.statements).count x +
    (s.popped.flatMap (·.task.statements)).count x +
    (s.transactions.flatMap (·.transaction.statements)).count x +
    s.executed.count x + s.deleted.count x

/-- The statements that nothing will delete any more. -/
def lost (s : StatementSystem) : List Nat :=
  s.executed ++ s.transactions.flatMap SharedTransaction.stranded

/-- A statement that was handed out is in one place, any other in none. -/
def Balanced (s : StatementSystem) : Prop :=
  ∀ x, s.owners x = if x < s.handed then 1 else 0

def Settled (s : StatementSystem) : Prop := ∀ tr ∈ s.transactions, tr.Settled

/-- What a step keeps: the balance, and that transactions are cleaned up when they should be. It
loses `n` statements. -/
structure Accounts (s t : StatementSystem) (n : Nat) : Prop where
  balanced : s.Balanced → t.Balanced
  settled : s.Settled → t.Settled
  lost : t.lost.length = s.lost.length + n

variable {s t u : StatementSystem} {n m x i : Nat} {tr tr' : SharedTransaction}

theorem Accounts.trans (h : Accounts s t n) (k : Accounts t u m) : Accounts s u (n + m) where
  balanced := k.balanced ∘ h.balanced
  settled := k.settled ∘ h.settled
  lost := by rw [k.lost, h.lost, Nat.add_assoc]

theorem Balanced.congr (h : s.Balanced) (howners : ∀ x, t.owners x = s.owners x)
    (hhanded : t.handed = s.handed) : t.Balanced := by
  intro x
  rw [howners, hhanded]
  exact h x

/-- A step that leaves the transactions alone and moves statements between the other places. -/
theorem Accounts.of_owners (howners : ∀ x, t.owners x = s.owners x)
    (hhanded : t.handed = s.handed) (htransactions : t.transactions = s.transactions)
    (hexecuted : t.executed.length = s.executed.length + n) : Accounts s t n where
  balanced h := h.congr howners hhanded
  settled h := by rwa [Settled, htransactions]
  lost := by
    simp only [StatementSystem.lost, htransactions, hexecuted, List.length_append]
    omega

@[simp] theorem owners_delete (l : List Nat) : (s.delete l).owners x = s.owners x + l.count x := by
  simp only [owners, delete, List.count_append]
  omega

/-! ## Steps on a transaction -/

theorem owners_setTransaction (h : s.transactions[i]? = some tr) (tr' : SharedTransaction)
    (x : Nat) : (s.setTransaction i tr').owners x + tr.transaction.statements.count x =
      s.owners x + tr'.transaction.statements.count x := by
  have hset := (flatMap_set_perm (·.transaction.statements) h tr').count_eq x
  rw [List.count_append, List.count_append] at hset
  simp only [owners, setTransaction]
  omega

theorem lost_setTransaction (h : s.transactions[i]? = some tr) (tr' : SharedTransaction) :
    (s.setTransaction i tr').lost.length + tr.stranded.length =
      s.lost.length + tr'.stranded.length := by
  have hset := (flatMap_set_perm SharedTransaction.stranded h tr').length_eq
  rw [List.length_append, List.length_append] at hset
  simp only [lost, setTransaction, List.length_append]
  omega

theorem Settled.setTransaction (hs : s.Settled) (h : tr'.Settled) :
    (s.setTransaction i tr').Settled := by
  intro tr htr
  rcases List.mem_or_eq_of_mem_set htr with hmem | rfl
  · exact hs tr hmem
  · exact h

/-- Only the counts of pointers of a transaction change. -/
theorem setTransaction_accounts (h : s.transactions[i]? = some tr)
    (hsame : tr'.transaction = tr.transaction) (hsettled : tr.Settled → tr'.Settled) :
    Accounts s (s.setTransaction i tr') 0 where
  balanced hs := by
    refine hs.congr (fun x => ?_) rfl
    have hcount := owners_setTransaction h tr' x
    rw [hsame] at hcount
    exact Nat.add_right_cancel hcount
  settled hs := hs.setTransaction (hsettled (hs tr (List.mem_of_getElem? h)))
  lost := by
    have hlost := lost_setTransaction h tr'
    simp only [SharedTransaction.stranded, hsame] at hlost
    exact Nat.add_right_cancel hlost

theorem settle_accounts {f : SharedTransaction → List Nat × SharedTransaction}
    (hf : SharedTransaction.Settles f) : Accounts s (s.settle i f) 0 := by
  unfold settle
  cases h : s.transactions[i]? with
  | none => exact .of_owners (fun _ => rfl) rfl rfl rfl
  | some tr =>
    constructor
    · intro hs
      refine hs.congr (fun x => ?_) rfl
      have hset := owners_setTransaction h (f tr).2 x
      have hcount := hf.count tr x
      rw [owners_delete]
      omega
    · intro hs
      exact hs.setTransaction (hf.settled tr (hs tr (List.mem_of_getElem? h)))
    · have hset := lost_setTransaction h (f tr).2
      rw [hf.stranded tr] at hset
      exact Nat.add_right_cancel hset

/-! ## Steps on the tasks -/

/-- The destructor of a task, taken from its place in `s`, deletes what the task owns. -/
theorem destroyTask_accounts (task : SqlTask)
    (howners : ∀ x, t.owners x + task.statements.count x = s.owners x)
    (hhanded : t.handed = s.handed) (htransactions : t.transactions = s.transactions)
    (hexecuted : t.executed.length = s.executed.length) : Accounts s (t.destroyTask task) 0 := by
  cases task with
  | adhocQuery sql hasResult => exact .of_owners howners hhanded htransactions hexecuted
  | preparedQuery pStmt hasResult =>
    refine .of_owners (fun x => ?_) hhanded htransactions hexecuted
    rw [← howners]
    exact owners_delete _
  | transaction pTransaction withResult =>
    have htaken : Accounts s t 0 := .of_owners howners hhanded htransactions hexecuted
    exact htaken.trans (settle_accounts SharedTransaction.taskReleased_settles)

theorem push_accounts {task : SqlTask}
    (h : ∀ x, s.owners x + task.statements.count x = t.owners x) (hhanded : s.handed = t.handed)
    (htransactions : s.transactions = t.transactions)
    (hexecuted : s.executed.length = t.executed.length) : Accounts t (s.push task) 0 := by
  refine .of_owners (fun x => ?_) hhanded htransactions hexecuted
  rw [← h]
  simp only [owners, push, ProducerConsumerQueue.push, List.flatMap_append,
    List.flatMap_singleton, List.count_append]
  omega

/-- A task that owns no statement. -/
theorem pushOther_accounts {task : SqlTask} (h : task.statements = []) :
    Accounts s (s.push task) 0 := by
  refine push_accounts (fun x => ?_) rfl rfl rfl
  rw [h]
  rfl

theorem pop_accounts (h : s.pop = some t) : Accounts s t 0 := by
  unfold pop at h
  split at h
  · cases h
  · next task queue hpop =>
    cases h
    have hfront := ProducerConsumerQueue.pop_eq_some hpop
    refine .of_owners (fun x => ?_) rfl rfl rfl
    simp only [owners, hfront, List.flatMap_append, List.flatMap_cons, List.flatMap_nil,
      List.count_append, List.count_nil]
    omega

theorem setPhase_accounts {p : PoppedTask} (hp : s.popped[i]? = some p) (phase : TaskPhase) :
    Accounts s (s.setPhase i p phase) 0 := by
  refine .of_owners (fun x => ?_) rfl rfl rfl
  have hset := count_flatMap_set (fun p : PoppedTask => p.task.statements) hp { p with phase } x
  dsimp only at hset
  simp only [owners, setPhase]
  omega

theorem start_accounts (h : s.start i = some t) : Accounts s t 0 := by
  unfold start at h
  cases hp : s.popped[i]? with
  | none =>
    rw [hp] at h
    cases h
  | some p =>
    rw [hp] at h
    simp only [Option.ite_none_right_eq_some, Option.some.injEq] at h
    obtain ⟨-, rfl⟩ := h
    exact setPhase_accounts hp _

theorem execute_accounts {errcode : Nat} {retries : List Nat}
    (h : s.execute i errcode retries = some t) : Accounts s t 0 := by
  unfold execute at h
  cases hp : s.popped[i]? with
  | none =>
    rw [hp] at h
    cases h
  | some p =>
    rw [hp] at h
    simp only [Option.ite_none_right_eq_some, Option.some.injEq] at h
    obtain ⟨-, rfl⟩ := h
    exact setPhase_accounts hp _

/-- The second half of `CleanUp`, alone with the transaction, does what the whole would do. -/
theorem finishCleanUp_accounts (hs : s.Shared []) (h : s.finishCleanUp i = some t) :
    Accounts s t 0 := by
  obtain ⟨p, pStmts, u, withResult, tr, hp, -, -, htr, hflag, rfl, rfl⟩ :=
    finishCleanUp_spec hs h
  have hwhole : (s.setPhase i p .executed).settle u
      (SharedTransaction.emptied tr.transaction.statements) =
        (s.setPhase i p .executed).settle u SharedTransaction.cleanedUp := by
    have hget : (s.setPhase i p .executed).transactions[u]? = some tr := htr
    have hsame : tr.cleanedUp = tr.emptied tr.transaction.statements := by
      simp [SharedTransaction.cleanedUp, SharedTransaction.emptied, TransactionBase.cleanedUp,
        hflag]
    rw [settle_eq hget, settle_eq hget, hsame]
  rw [hwhole]
  exact (setPhase_accounts hp _).trans (settle_accounts SharedTransaction.cleanedUp_settles)

theorem destroyPopped_accounts (h : s.destroyPopped i = some t) : Accounts s t 0 := by
  unfold destroyPopped at h
  cases hp : s.popped[i]? with
  | none =>
    rw [hp] at h
    cases h
  | some p =>
    rw [hp] at h
    simp only [Option.ite_none_right_eq_some, Option.some.injEq] at h
    obtain ⟨-, rfl⟩ := h
    refine destroyTask_accounts p.task (fun x => ?_) rfl rfl rfl
    have herase := count_flatMap_eraseIdx (fun p : PoppedTask => p.task.statements) hp x
    simp only [owners]
    omega

theorem clearTasks_accounts {tasks : List SqlTask} (h : s.queue.queue = tasks) :
    Accounts s (s.clearTasks tasks) 0 := by
  induction tasks generalizing s with
  | nil =>
    refine .of_owners (fun x => ?_) rfl rfl rfl
    simp only [owners, clearTasks, ProducerConsumerQueue.clear, h]
  | cons task tasks ih =>
    have hfront : Accounts s ({ s with queue.queue := tasks }.destroyTask task) 0 := by
      refine destroyTask_accounts task (fun x => ?_) rfl rfl rfl
      simp only [owners, h, List.flatMap_cons, List.count_append]
      omega
    exact hfront.trans (ih (by rw [destroyTask_queue]))

/-! ## Steps of the client -/

theorem pass_eq_some {pStmt : Nat} (h : s.pass pStmt = some t) :
    (∀ x, t.owners x + [pStmt].count x = s.owners x) ∧
      t = { s with held := s.held.erase pStmt } := by
  unfold pass at h
  split at h
  · next hmem =>
    cases h
    refine ⟨fun x => ?_, rfl⟩
    have hpos : 0 < s.held.count pStmt := List.count_pos_iff.2 hmem
    simp only [owners, List.count_erase, List.count_singleton, beq_iff_eq]
    split
    · next heq =>
      subst heq
      omega
    · omega
  · cases h

theorem getPreparedStatement_accounts : Accounts s s.getPreparedStatement 0 where
  balanced hs := by
    intro x
    have hx := hs x
    have howners : s.getPreparedStatement.owners x = s.owners x + [s.handed].count x := by
      simp only [owners, getPreparedStatement, List.count_append]
      omega
    rw [howners, hx]
    simp only [List.count_singleton, beq_iff_eq]
    change _ = if x < s.handed + 1 then 1 else 0
    rcases Nat.lt_trichotomy x s.handed with hlt | rfl | hgt
    · rw [if_pos hlt, if_neg (Nat.ne_of_gt hlt), if_pos (Nat.lt_succ_of_lt hlt)]
    · rw [if_neg (Nat.lt_irrefl _), if_pos rfl, if_pos (Nat.lt_succ_self _)]
    · rw [if_neg (Nat.not_lt_of_gt hgt), if_neg (Nat.ne_of_lt hgt), if_neg (by omega)]
  settled hs := hs
  lost := rfl

theorem beginTransaction_accounts : Accounts s s.beginTransaction 0 where
  balanced hs := by
    refine hs.congr (fun x => ?_) rfl
    simp [owners, beginTransaction, TransactionBase.statements, TransactionBase.empty]
  settled hs := by
    intro tr htr
    rcases List.mem_append.1 htr with hmem | hmem
    · exact hs tr hmem
    · rw [List.mem_singleton.1 hmem]
      exact fun hclient => absurd hclient (Nat.succ_ne_zero 0)
  lost := by
    simp [StatementSystem.lost, beginTransaction, SharedTransaction.stranded,
      TransactionBase.empty]

theorem syncExecute_accounts {pStmt : Nat} (h : s.pass pStmt = some t) :
    Accounts s (t.syncExecute pStmt) 1 := by
  obtain ⟨howners, rfl⟩ := pass_eq_some h
  refine .of_owners (fun x => ?_) rfl rfl (List.length_append ..)
  rw [← howners]
  simp only [owners, syncExecute, List.count_append]
  omega

theorem syncQuery_accounts {pStmt : Nat} (h : s.pass pStmt = some t) :
    Accounts s (t.syncQuery pStmt) 0 := by
  obtain ⟨howners, rfl⟩ := pass_eq_some h
  refine .of_owners (fun x => ?_) rfl rfl rfl
  rw [← howners]
  exact owners_delete _

theorem asyncPrepared_accounts {pStmt : Nat} {hasResult : Bool} (h : s.pass pStmt = some t) :
    Accounts s (t.push (.preparedQuery pStmt hasResult)) 0 := by
  obtain ⟨howners, rfl⟩ := pass_eq_some h
  exact push_accounts howners rfl rfl rfl

theorem commitTransaction_accounts {withResult : Bool} (h : s.transactions[i]? = some tr) :
    Accounts s (s.commitTransaction i tr withResult) 0 := by
  have hset : Accounts s (s.setTransaction i { tr with taskRefs := tr.taskRefs + 1 }) 0 :=
    setTransaction_accounts h rfl fun _ _ htask => absurd htask (Nat.succ_ne_zero _)
  exact hset.trans (pushOther_accounts rfl)

theorem append_accounts {sql : String} (h : s.transactions[i]? = some tr) :
    Accounts s (s.setQueries i tr (tr.transaction.append sql)) 0 := by
  have hstatements : (tr.transaction.append sql).statements = tr.transaction.statements := by
    simp [TransactionBase.statements, TransactionBase.append, QueryElement.statement]
  constructor
  · intro hs
    refine hs.congr (fun x => ?_) rfl
    have hcount := owners_setTransaction h { tr with transaction := tr.transaction.append sql } x
    rw [hstatements] at hcount
    exact Nat.add_right_cancel hcount
  · intro hs
    exact hs.setTransaction (hs tr (List.mem_of_getElem? h))
  · have hlost := lost_setTransaction h { tr with transaction := tr.transaction.append sql }
    simp only [SharedTransaction.stranded, hstatements] at hlost
    exact Nat.add_right_cancel hlost

/-- A statement appended to a transaction that is cleaned up already is lost. -/
theorem appendPreparedStatement_accounts {pStmt : Nat} (h : s.transactions[i]? = some tr)
    (hpass : s.pass pStmt = some t) :
    Accounts s (t.setQueries i tr (tr.transaction.appendPreparedStatement pStmt))
      tr.transaction.cleanUp.toNat := by
  obtain ⟨howners, rfl⟩ := pass_eq_some hpass
  have hstatements : (tr.transaction.appendPreparedStatement pStmt).statements =
      tr.transaction.statements ++ [pStmt] := by
    simp [TransactionBase.statements, TransactionBase.appendPreparedStatement,
      QueryElement.statement]
  constructor
  · intro hs
    refine hs.congr (fun x => ?_) rfl
    have hcount := owners_setTransaction (s := { s with held := s.held.erase pStmt }) h
      { tr with transaction := tr.transaction.appendPreparedStatement pStmt } x
    dsimp only at hcount
    rw [hstatements, List.count_append] at hcount
    have hx := howners x
    simp only [setQueries]
    omega
  · intro hs
    exact Settled.setTransaction hs (hs tr (List.mem_of_getElem? h))
  · have hlost := lost_setTransaction (s := { s with held := s.held.erase pStmt }) h
      { tr with transaction := tr.transaction.appendPreparedStatement pStmt }
    have hup : (tr.transaction.appendPreparedStatement pStmt).cleanUp =
      tr.transaction.cleanUp := rfl
    have hsame : lost { s with held := s.held.erase pStmt } = s.lost := rfl
    simp only [SharedTransaction.stranded, hstatements, hup, hsame] at hlost
    simp only [setQueries]
    cases hcleanUp : tr.transaction.cleanUp with
    | true =>
      simp only [hcleanUp, if_true, List.length_append, List.length_singleton] at hlost
      simp only [Bool.toNat_true]
      omega
    | false =>
      simp only [hcleanUp, if_false, Bool.false_eq_true] at hlost
      exact hlost

/-! ## Any step, any run -/

/-- How many statements a step gives to where nothing deletes them. -/
def strands (s : StatementSystem) : StatementEvent → Nat
  | .syncExecute _ => 1
  | .appendPreparedStatement t _ =>
    ((s.transactions[t]?).map (·.transaction.cleanUp.toNat)).getD 0
  | _ => 0

theorem strands_eq_zero_iff {e : StatementEvent} : s.strands e = 0 ↔ s.Owned e := by
  cases e with
  | syncExecute pStmt => exact iff_of_false Nat.one_ne_zero id
  | appendPreparedStatement t pStmt =>
    simp only [strands, Owned]
    cases s.transactions[t]? with
    | none => simp
    | some tr => simp
  | _ => exact iff_of_true rfl trivial

theorem step_accounts {e : StatementEvent} (hs : s.Shared [])
    (h : statementMachine.step s e = some t) : Accounts s t (s.strands e) := by
  cases e with
  | getPreparedStatement =>
    cases h
    exact getPreparedStatement_accounts
  | asyncExecute pStmt =>
    obtain ⟨u, hu, rfl⟩ := Option.map_eq_some_iff.1 h
    exact asyncPrepared_accounts hu
  | asyncQuery pStmt =>
    obtain ⟨u, hu, rfl⟩ := Option.map_eq_some_iff.1 h
    exact asyncPrepared_accounts hu
  | syncExecute pStmt =>
    obtain ⟨u, hu, rfl⟩ := Option.map_eq_some_iff.1 h
    exact syncExecute_accounts hu
  | syncQuery pStmt =>
    obtain ⟨u, hu, rfl⟩ := Option.map_eq_some_iff.1 h
    exact syncQuery_accounts hu
  | asyncText sql hasResult =>
    cases h
    exact pushOther_accounts rfl
  | beginTransaction =>
    cases h
    exact beginTransaction_accounts
  | append i sql =>
    obtain ⟨tr, htr, rfl⟩ := Option.map_eq_some_iff.1 h
    exact append_accounts (client_eq_some htr)
  | appendPreparedStatement i pStmt =>
    obtain ⟨tr, htr, hpass⟩ := Option.bind_eq_some_iff.1 h
    obtain ⟨u, hu, rfl⟩ := Option.map_eq_some_iff.1 hpass
    have hget := client_eq_some htr
    have hstrands : s.strands (.appendPreparedStatement i pStmt) =
        tr.transaction.cleanUp.toNat := by
      simp only [strands, hget, Option.map_some, Option.getD_some]
    rw [hstrands]
    exact appendPreparedStatement_accounts hget hu
  | commitTransaction i withCallback =>
    obtain ⟨tr, htr, rfl⟩ := Option.map_eq_some_iff.1 h
    exact commitTransaction_accounts (client_eq_some htr)
  | copy i =>
    obtain ⟨tr, htr, rfl⟩ := Option.map_eq_some_iff.1 h
    exact setTransaction_accounts (client_eq_some htr) rfl fun _ hclient =>
      absurd hclient (Nat.succ_ne_zero _)
  | release i =>
    obtain ⟨tr, htr, rfl⟩ := Option.map_eq_some_iff.1 h
    exact settle_accounts SharedTransaction.clientReleased_settles
  | pop => exact pop_accounts h
  | start i => exact start_accounts h
  | execute i errcode retries => exact execute_accounts h
  | finishCleanUp i => exact finishCleanUp_accounts hs h
  | destroyPopped i => exact destroyPopped_accounts h
  | clear =>
    cases h
    exact clearTasks_accounts rfl

/-- When all is done the statements that are left in transactions are lost. -/
theorem Quiescent.lost_eq (hq : s.Quiescent) (hs : s.Settled) :
    s.lost = s.executed ++ s.transactions.flatMap (·.transaction.statements) := by
  have hstranded : ∀ tr ∈ s.transactions, tr.stranded = tr.transaction.statements := by
    intro tr htr
    obtain ⟨hclient, htask⟩ := hq.released tr htr
    exact if_pos (hs tr htr hclient htask)
  rw [lost, List.flatMap_congr hstranded]

theorem Quiescent.owners_eq (hq : s.Quiescent) (hs : s.Settled) (x : Nat) :
    s.owners x = s.lost.count x + s.deleted.count x := by
  rw [hq.lost_eq hs, owners, hq.held, hq.queue, hq.popped, List.count_append]
  simp only [List.flatMap_nil, List.count_nil]
  omega

/-- When all is done each statement has been deleted once if none is lost, and only then. -/
theorem Quiescent.deletedOnce_iff_lost (hq : s.Quiescent) (hs : s.Settled) (hb : s.Balanced) :
    s.DeletedOnce ↔ s.lost.length = 0 := by
  rw [List.length_eq_zero_iff]
  constructor
  · intro h
    by_contra hne
    obtain ⟨x, hx⟩ := List.exists_mem_of_ne_nil _ hne
    have hcount := List.count_pos_iff.2 hx
    have howners := (hb x).symm.trans (hq.owners_eq hs x)
    by_cases hlt : x < s.handed
    · rw [if_pos hlt, h x hlt] at howners
      omega
    · rw [if_neg hlt] at howners
      omega
  · intro hnil x hx
    have howners := (hb x).symm.trans (hq.owners_eq hs x)
    rw [hnil, if_pos hx, List.count_nil, Nat.zero_add] at howners
    exact howners.symm

theorem balanced_initial : initial.Balanced := fun x => (if_neg (Nat.not_lt_zero x)).symm

theorem settled_initial : initial.Settled := fun _ htr => absurd htr List.not_mem_nil

end StatementSystem

open StatementSystem

/-- **Deleted exactly once.** When all is done after a run without data races on transactions, each
statement that was handed out has been deleted exactly once, exactly if all steps of the run are
`Owned`. -/
theorem deletedOnce_iff {s : StatementSystem} {events : List StatementEvent}
    (h : statementMachine.run .initial events = some s)
    (hapart : statementMachine.Meets Apart .initial events) (hq : s.Quiescent) :
    s.DeletedOnce ↔ statementMachine.Meets Owned .initial events := by
  obtain ⟨⟨hb, hs, -⟩, hlost⟩ := Machine.run_gained_of_meets (M := statementMachine)
    (w := fun s => s.lost.length) (g := strands)
    (I := fun s : StatementSystem => s.Balanced ∧ s.Settled ∧ s.Shared [])
    (fun _ _ _ hi hc hstep => ⟨(step_accounts hi.2.2 hstep).balanced hi.1,
      (step_accounts hi.2.2 hstep).settled hi.2.1, hi.2.2.step hc hstep⟩)
    (fun _ _ _ hi _ hstep => (step_accounts hi.2.2 hstep).lost)
    ⟨balanced_initial, settled_initial, shared_initial⟩ hapart h
  have hzero : initial.lost.length = 0 := rfl
  rw [hq.deletedOnce_iff_lost hs hb, hlost, hzero, Nat.zero_add, Machine.gained_eq_zero_iff h]
  simp only [strands_eq_zero_iff]

/-- A statement that is executed asynchronously, and one of a transaction that fails after a
deadlock. -/
def deadlockRun : List StatementEvent :=
  [.getPreparedStatement, .asyncExecute 0, .getPreparedStatement, .beginTransaction,
    .append 0 "a", .appendPreparedStatement 0 1, .commitTransaction 0 true, .release 0, .pop, .pop,
    .start 0, .start 1, .execute 0 0 [], .execute 1 erLockDeadlock [erLockDeadlock, crServerLost],
    .finishCleanUp 1, .destroyPopped 0, .destroyPopped 0]

/-- Where it ends: both statements are deleted, the one of the transaction by its clean-up. -/
def deadlockEnd : StatementSystem :=
  { initial with
    handed := 2
    transactions := [⟨⟨[], true⟩, 0, 0⟩]
    deleted := [1, 0] }

theorem deletedOnce_deadlock : statementMachine.run .initial deadlockRun = some deadlockEnd ∧
    statementMachine.Meets Apart .initial deadlockRun ∧ deadlockEnd.DeletedOnce ∧
      statementMachine.Meets Owned .initial deadlockRun := by
  have hrun : statementMachine.run .initial deadlockRun = some deadlockEnd := by decide
  have hq : deadlockEnd.Quiescent := ⟨rfl, rfl, rfl, by decide⟩
  have hdeleted : deadlockEnd.DeletedOnce := by
    unfold DeletedOnce
    decide
  have hapart : statementMachine.Meets Apart .initial deadlockRun :=
    Machine.Permits.meets (by decide)
  exact ⟨hrun, hapart, hdeleted, (deletedOnce_iff hrun hapart hq).1 hdeleted⟩

/-- Two commits of one transaction that fail at the same time: both clean-ups find the flag unset,
and both delete the statement. -/
theorem overlapping_cleanUps_delete_twice : ∃ events s,
    statementMachine.run .initial events = some s ∧ s.Quiescent ∧
      statementMachine.Meets Owned .initial events ∧ s.deleted = [0, 0] := by
  refine ⟨[.getPreparedStatement, .beginTransaction, .appendPreparedStatement 0 0,
    .commitTransaction 0 false, .commitTransaction 0 false, .release 0, .pop, .pop, .start 0,
    .start 1, .execute 0 crServerLost [], .execute 1 crServerLost [], .finishCleanUp 0,
    .finishCleanUp 1, .destroyPopped 0, .destroyPopped 0], _, rfl, ⟨rfl, rfl, rfl, ?_⟩,
    Machine.Permits.meets ?_, rfl⟩
  · decide
  · decide

/-- `SyncExecute` of one statement: it is never deleted. -/
theorem syncExecute_never_deletes : ¬∀ events s,
    statementMachine.run .initial events = some s → s.Quiescent → s.DeletedOnce := by
  intro h
  have hdeleted := h [.getPreparedStatement, .syncExecute 0] _ rfl
    ⟨rfl, rfl, rfl, fun _ htr => absurd htr List.not_mem_nil⟩ 0 (by decide)
  exact absurd hdeleted (by decide)

end GameServer.Database
