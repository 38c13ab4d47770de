import GameServer.Database.ErrorHandling
import GameServer.Threading.ProducerConsumerQueue

/-!
# Opening a pool

`Open` makes the asynchronous connections and then the synchronous ones; it is meant to leave all
of them connected behind, or an error code and none (`AllOrNone`). It returns at the first
error code and destroys only the connections of the type at hand, and a refused connect can have
the code zero: `openPool_allOrNone_iff` says for which outcomes it does what is meant.

The connections are numbered as they are made, and `envs` holds the outcomes of the client calls
of each. The worker threads are counted: `running` is those started and not joined yet, `joined`
those that a destructor has joined.
-/

namespace GameServer.Database

open GameServer.Lib GameServer.Lib.Exec GameServer.Threading

inductive EConnectionTypeIndex where
  | async
  | sync
  deriving DecidableEq, Repr

def EConnectionTypeIndex.connectionType : EConnectionTypeIndex → ConnectionType
  | async => .async
  | sync => .sync

structure PoolConnection where
  number : Nat
  world : World
  deriving DecidableEq, Repr

/-- `DatabaseWorkerPool`: its connections, its queue and the worker threads. -/
structure WorkerPool where
  /-- Whether `_pConnectionInfo` is set. -/
  connectionInfo : Bool
  connections : EConnectionTypeIndex → List PoolConnection
  queue : ProducerConsumerQueue Nat
  preparedStmtParamCount : List Nat
  created : Nat
  running : Nat
  joined : Nat

abbrev PoolRun (α : Type) : Type := EStateM Halt WorkerPool α

namespace WorkerPool

def fresh : WorkerPool := ⟨false, fun _ => [], .empty, [], 0, 0, 0⟩

/-- The constructors of `IMySqlConnection`: an asynchronous connection starts its worker. -/
def constructed (p : WorkerPool) : EConnectionTypeIndex → WorkerPool
  | .async => { p with created := p.created + 1, running := p.running + 1 }
  | .sync => { p with created := p.created + 1 }

/-- `~IMySqlConnection`: the worker of an asynchronous connection clears the queue and is joined. -/
def destroyed (p : WorkerPool) : EConnectionTypeIndex → WorkerPool
  | .async => { p with queue := p.queue.clear, running := p.running - 1, joined := p.joined + 1 }
  | .sync => p

/-- `_connections[connType] = list`. -/
def setConnections (p : WorkerPool) (connType : EConnectionTypeIndex)
    (list : List PoolConnection) : WorkerPool :=
  { p with connections := Function.update p.connections connType list }

/-- `_connections[connType].clear()`. -/
def cleared (p : WorkerPool) (connType : EConnectionTypeIndex) : WorkerPool :=
  ((p.connections connType).foldl (fun p _ => p.destroyed connType) p).setConnections connType []

end WorkerPool

/-! ## The code -/

/-- A call of a connection's own method. -/
def PoolConnection.call {α : Type} (c : PoolConnection) (x : Run α) :
    PoolRun (α × PoolConnection) := fun p =>
  match x c.world with
  | .ok a world => .ok (a, { c with world }) p
  | .error halt _ => .error halt p

def makeConnection (connType : EConnectionTypeIndex) : PoolRun PoolConnection := do
  let p ← get
  modify fun p => p.constructed connType
  pure ⟨p.created, .initial connType.connectionType⟩

/-- The loop of `OpenConnections`, with the number of turns left. -/
def openConnections (envs : Nat → Env) (connType : EConnectionTypeIndex) : Nat → PoolRun Nat
  | 0 => pure 0
  | left + 1 => do
    let pConnection ← makeConnection connType
    let (errcode, pConnection) ← pConnection.call (openConnection (envs pConnection.number))
    if errcode ≠ 0 then
      modify fun p => p.cleared connType
      -- the new connection goes out of scope
      modify fun p => p.destroyed connType
      pure errcode
    else
      modify fun p => p.setConnections connType (p.connections connType ++ [pConnection])
      openConnections envs connType left

/-- `DatabaseWorkerPool::Open`. -/
def openPool (envs : Nat → Env) (syncThreadCount asyncThreadCount : Nat) : PoolRun Nat := do
  modify fun p => { p with connectionInfo := true }
  let errcode ← openConnections envs .async asyncThreadCount
  if errcode ≠ 0 then pure errcode
  else openConnections envs .sync syncThreadCount

/-! ## What it should do -/

/-- What opening should leave behind: all connections, or an error code and nothing. -/
structure AllOrNone (envs : Nat → Env) (syncThreadCount asyncThreadCount errcode : Nat)
    (p : WorkerPool) : Prop where
  asyncCount : errcode = 0 → (p.connections .async).length = asyncThreadCount
  syncCount : errcode = 0 → (p.connections .sync).length = syncThreadCount
  connected : errcode = 0 → ∀ connType, ∀ c ∈ p.connections connType, c.world.mysql.isSome
  nothing : (∃ i < p.created, (envs i).connects 0 = false) →
    errcode ≠ 0 ∧ (∀ connType, p.connections connType = []) ∧ p.running = 0

/-- The first `Open` of the connection fails and has an error code to report. -/
def Env.reportsFailure (env : Env) : Bool :=
  !env.init 0 || (!env.realConnect 0 && env.errnoNull 1 != 0)

/-- Every connect succeeds, or the first failure that is reported comes before all connections of
the first type are made, or there is no first type. -/
def OpensWhole (envs : Nat → Env) (syncThreadCount asyncThreadCount : Nat) : Prop :=
  (∀ i < asyncThreadCount + syncThreadCount, (envs i).connects 0) ∨
    ∃ k < asyncThreadCount + syncThreadCount, (∀ i < k, (envs i).reportsFailure = false) ∧
      (envs k).reportsFailure ∧ (k < asyncThreadCount ∨ asyncThreadCount = 0)

/-! ## One connection -/

theorem Env.reportsFailure_iff {env : Env} : env.reportsFailure ↔ env.openCode 0 ≠ 0 := by
  unfold Env.reportsFailure Env.openCode Env.connects
  cases env.init 0 with
  | false => simp [crUnknownError]
  | true => cases env.realConnect 0 <;> simp

theorem Env.reportsFailure_eq_false {env : Env} :
    env.reportsFailure = false ↔ env.openCode 0 = 0 := by
  rw [← Bool.not_eq_true, Env.reportsFailure_iff, not_not]

theorem Env.connects_of_reportsFailure {env : Env} (h : env.reportsFailure) :
    env.connects 0 = false :=
  Env.connects_of_openCode (Env.reportsFailure_iff.1 h)

/-- A connection of the pool after its `Open`. -/
def openedConnection (envs : Nat → Env) (connType : EConnectionTypeIndex) (number : Nat) :
    PoolConnection :=
  ⟨number, (World.initial connType.connectionType).opened (envs number)⟩

theorem openedConnection_mysql {envs : Nat → Env} {t : EConnectionTypeIndex} {number : Nat} :
    (openedConnection envs t number).world.mysql.isSome = (envs number).connects 0 := by
  change (if (envs number).connects 0 = true then some 0 else none).isSome = _
  split
  · next h => rw [h]; rfl
  · next h => rw [Bool.eq_false_iff.2 h]; rfl

namespace WorkerPool

variable {p : WorkerPool} {t u : EConnectionTypeIndex} {l : List PoolConnection}

@[simp] theorem setConnections_self : (p.setConnections t l).connections t = l := by
  simp [setConnections]

theorem setConnections_of_ne (h : u ≠ t) :
    (p.setConnections t l).connections u = p.connections u := by
  simp [setConnections, h]

@[simp] theorem constructed_connections : (p.constructed t).connections = p.connections := by
  cases t <;> rfl

@[simp] theorem constructed_created : (p.constructed t).created = p.created + 1 := by
  cases t <;> rfl

@[simp] theorem destroyed_connections : (p.destroyed t).connections = p.connections := by
  cases t <;> rfl

@[simp] theorem destroyed_created : (p.destroyed t).created = p.created := by
  cases t <;> rfl

theorem foldl_destroyed_connections :
    (l.foldl (fun p _ => p.destroyed t) p).connections = p.connections := by
  induction l generalizing p with
  | nil => rfl
  | cons c l ih => rw [List.foldl_cons, ih, destroyed_connections]

theorem foldl_destroyed_created :
    (l.foldl (fun p _ => p.destroyed t) p).created = p.created := by
  induction l generalizing p with
  | nil => rfl
  | cons c l ih => rw [List.foldl_cons, ih, destroyed_created]

@[simp] theorem cleared_self : (p.cleared t).connections t = [] := setConnections_self

theorem cleared_of_ne (h : u ≠ t) : (p.cleared t).connections u = p.connections u := by
  rw [cleared, setConnections_of_ne h, foldl_destroyed_connections]

@[simp] theorem cleared_created : (p.cleared t).created = p.created := foldl_destroyed_created

/-- The pool after a turn of `OpenConnections` that made a connection. -/
def turned (p : WorkerPool) (envs : Nat → Env) (t : EConnectionTypeIndex) : WorkerPool :=
  (p.constructed t).setConnections t (p.connections t ++ [openedConnection envs t p.created])

/-- After `n` of them. -/
def grown (p : WorkerPool) (envs : Nat → Env) (t : EConnectionTypeIndex) : Nat → WorkerPool
  | 0 => p
  | n + 1 => (p.turned envs t).grown envs t n

/-- The pool after a turn that got an error code. -/
def failed (p : WorkerPool) (t : EConnectionTypeIndex) : WorkerPool :=
  ((p.constructed t).cleared t).destroyed t

section Turns

variable {envs : Nat → Env} {n : Nat}

@[simp] theorem turned_created : (p.turned envs t).created = p.created + 1 := constructed_created

@[simp] theorem grown_created : (p.grown envs t n).created = p.created + n := by
  induction n generalizing p with
  | zero => rfl
  | succ n ih => rw [grown, ih, turned_created, Nat.add_assoc, Nat.add_comm 1]

theorem grown_self : (p.grown envs t n).connections t =
    p.connections t ++ (List.range' p.created n).map (openedConnection envs t) := by
  induction n generalizing p with
  | zero => exact (List.append_nil _).symm
  | succ n ih =>
    rw [grown, ih, turned_created, turned, setConnections_self, List.append_assoc]
    rfl

theorem grown_of_ne (h : u ≠ t) : (p.grown envs t n).connections u = p.connections u := by
  induction n generalizing p with
  | zero => rfl
  | succ n ih => rw [grown, ih, turned, setConnections_of_ne h, constructed_connections]

@[simp] theorem failed_self : (p.failed t).connections t = [] := by
  rw [failed, destroyed_connections, cleared_self]

theorem failed_of_ne (h : u ≠ t) : (p.failed t).connections u = p.connections u := by
  rw [failed, destroyed_connections, cleared_of_ne h, constructed_connections]

@[simp] theorem failed_created : (p.failed t).created = p.created + 1 := by
  rw [failed, destroyed_created, cleared_created, constructed_created]

end Turns

/-! ### Worker threads -/

/-- Each asynchronous connection has its worker thread, and there are no others. -/
def Staffed (p : WorkerPool) : Prop := p.running = (p.connections .async).length

theorem staffed_fresh : fresh.Staffed := rfl

theorem foldl_destroyed_sync : l.foldl (fun p _ => p.destroyed .sync) p = p := by
  induction l with
  | nil => rfl
  | cons c l ih => exact ih

theorem foldl_destroyed_running :
    (l.foldl (fun p _ => p.destroyed .async) p).running = p.running - l.length := by
  induction l generalizing p with
  | nil => rfl
  | cons c l ih =>
    rw [List.foldl_cons, ih, List.length_cons]
    change p.running - 1 - l.length = _
    omega

theorem Staffed.cleared (h : p.Staffed) : (p.cleared t).Staffed := by
  cases t with
  | async =>
    rw [Staffed, cleared_self]
    change (List.foldl _ p _).running = _
    rw [foldl_destroyed_running, h, Nat.sub_self]
    rfl
  | sync =>
    rw [Staffed, cleared_of_ne (by decide)]
    change (List.foldl _ p _).running = _
    rw [foldl_destroyed_sync]
    exact h

theorem Staffed.turned {envs : Nat → Env} (h : p.Staffed) : (p.turned envs t).Staffed := by
  cases t with
  | async =>
    rw [Staffed, WorkerPool.turned, setConnections_self, List.length_append]
    exact congrArg (· + 1) h
  | sync =>
    rw [Staffed, WorkerPool.turned, setConnections_of_ne (by decide)]
    exact h

theorem Staffed.grown {envs : Nat → Env} {n : Nat} (h : p.Staffed) :
    (p.grown envs t n).Staffed := by
  induction n generalizing p with
  | zero => exact h
  | succ n ih => exact ih h.turned

theorem Staffed.failed (h : p.Staffed) : (p.failed t).Staffed := by
  cases t with
  | async =>
    rw [Staffed, failed_self]
    change (List.foldl _ (p.constructed .async) _).running - 1 = 0
    rw [foldl_destroyed_running, constructed_connections]
    change p.running + 1 - _ - 1 = 0
    rw [h]
    omega
  | sync =>
    have hsame : (p.constructed .sync).Staffed := h
    exact hsame.cleared

end WorkerPool

/-! ## The loop -/

section Loop

variable {envs : Nat → Env} {t : EConnectionTypeIndex} {p : WorkerPool} {n : Nat}

theorem openConnections_succ :
    openConnections envs t (n + 1) p =
      if (envs p.created).openCode 0 ≠ 0 then .ok ((envs p.created).openCode 0) (p.failed t)
      else openConnections envs t n (p.turned envs t) := by
  have hmake : makeConnection t p =
      .ok ⟨p.created, .initial t.connectionType⟩ (p.constructed t) := rfl
  have hcall : ∀ q : WorkerPool, PoolConnection.call ⟨p.created, .initial t.connectionType⟩
      (openConnection (envs p.created)) q =
        .ok ((envs p.created).openCode 0, openedConnection envs t p.created) q := by
    intro q
    simp only [PoolConnection.call, openConnection_eq]
    rfl
  rw [openConnections, bind_of_ok hmake, bind_of_ok (hcall _)]
  by_cases h : (envs p.created).openCode 0 ≠ 0
  · simp only [if_pos h, modify_bind]
    rfl
  · simp only [if_neg h, modify_bind, WorkerPool.turned, WorkerPool.constructed_connections]

/-- No turn gets an error code. -/
theorem openConnections_all (h : ∀ i < n, (envs (p.created + i)).openCode 0 = 0) :
    openConnections envs t n p = .ok 0 (p.grown envs t n) := by
  induction n generalizing p with
  | zero => rfl
  | succ n ih =>
    have h0 : (envs p.created).openCode 0 = 0 := h 0 (Nat.succ_pos n)
    rw [openConnections_succ, if_neg (not_not.2 h0), ih]
    · rfl
    · intro i hi
      rw [WorkerPool.turned_created, Nat.add_assoc, Nat.add_comm 1]
      exact h (i + 1) (Nat.succ_lt_succ hi)

/-- Turn `k` is the first one that gets an error code. -/
theorem openConnections_first {k : Nat} (hk : k < n)
    (h : ∀ i < k, (envs (p.created + i)).openCode 0 = 0)
    (he : (envs (p.created + k)).openCode 0 ≠ 0) :
    openConnections envs t n p =
      .ok ((envs (p.created + k)).openCode 0) ((p.grown envs t k).failed t) := by
  induction k generalizing p n with
  | zero =>
    obtain ⟨n, rfl⟩ := Nat.exists_eq_succ_of_ne_zero (Nat.ne_of_gt hk)
    rw [Nat.add_zero] at he ⊢
    rw [openConnections_succ, if_pos he]
    rfl
  | succ k ih =>
    obtain ⟨n, rfl⟩ := Nat.exists_eq_succ_of_ne_zero (Nat.ne_of_gt (Nat.zero_lt_of_lt hk))
    have h0 : (envs p.created).openCode 0 = 0 := h 0 (Nat.succ_pos k)
    have hnext : ∀ i, (p.turned envs t).created + i = p.created + (i + 1) := by
      intro i
      rw [WorkerPool.turned_created, Nat.add_assoc, Nat.add_comm 1]
    rw [openConnections_succ, if_neg (not_not.2 h0), ih (Nat.lt_of_succ_lt_succ hk)]
    · rw [hnext]
      rfl
    · intro i hi
      rw [hnext]
      exact h (i + 1) (Nat.succ_lt_succ hi)
    · rw [hnext]
      exact he

end Loop

/-! ## The whole opening -/

/-- Up to `n` a property holds throughout, or there is a first place where it does not. -/
theorem all_or_first (P : Nat → Prop) [DecidablePred P] (n : Nat) :
    (∀ i < n, P i) ∨ ∃ k < n, (∀ i < k, P i) ∧ ¬P k := by
  induction n with
  | zero => exact .inl fun i hi => absurd hi (Nat.not_lt_zero i)
  | succ n ih =>
    rcases ih with hall | ⟨k, hk, hfirst⟩
    · by_cases hn : P n
      · refine .inl fun i hi => ?_
        rcases Nat.lt_succ_iff_lt_or_eq.1 hi with h | rfl
        · exact hall i h
        · exact hn
      · exact .inr ⟨n, Nat.lt_succ_self n, hall, hn⟩
    · exact .inr ⟨k, Nat.lt_succ_of_lt hk, hfirst⟩

section Opening

variable {envs : Nat → Env} {s a : Nat}

/-- The pool when `OpenConnections` is called first. -/
def WorkerPool.informed (p : WorkerPool) : WorkerPool := { p with connectionInfo := true }

theorem openPool_eq (p : WorkerPool) : openPool envs s a p =
    (openConnections envs .async a >>= fun errcode =>
      if errcode ≠ 0 then pure errcode else openConnections envs .sync s) p.informed := rfl

variable {p : WorkerPool}

theorem openPool_all (h : ∀ i < a + s, (envs (p.created + i)).openCode 0 = 0) :
    openPool envs s a p =
      .ok 0 ((p.informed.grown envs .async a).grown envs .sync s) := by
  have hasync := @openConnections_all envs .async p.informed a fun i hi =>
    h i (Nat.lt_add_right s hi)
  rw [openPool_eq, bind_of_ok hasync, if_neg (not_not.2 rfl)]
  apply openConnections_all
  intro i hi
  rw [WorkerPool.grown_created, Nat.add_assoc]
  exact h (a + i) (Nat.add_lt_add_left hi a)

/-- The first error code comes while the asynchronous connections are made. -/
theorem openPool_async {k : Nat} (hk : k < a)
    (h : ∀ i < k, (envs (p.created + i)).openCode 0 = 0)
    (he : (envs (p.created + k)).openCode 0 ≠ 0) :
    openPool envs s a p = .ok ((envs (p.created + k)).openCode 0)
      ((p.informed.grown envs .async k).failed .async) := by
  have hfirst : openConnections envs .async a p.informed =
      .ok ((envs (p.created + k)).openCode 0) ((p.informed.grown envs .async k).failed .async) :=
    openConnections_first hk h he
  rw [openPool_eq, bind_of_ok hfirst, if_pos he]
  rfl

/-- It comes while the synchronous ones are made. -/
theorem openPool_sync {k : Nat} (hk : k < s)
    (h : ∀ i < a + k, (envs (p.created + i)).openCode 0 = 0)
    (he : (envs (p.created + (a + k))).openCode 0 ≠ 0) :
    openPool envs s a p = .ok ((envs (p.created + (a + k))).openCode 0)
      (((p.informed.grown envs .async a).grown envs .sync k).failed .sync) := by
  have hasync := @openConnections_all envs .async p.informed a fun i hi =>
    h i (Nat.lt_add_right k hi)
  have hnext : ∀ i, (p.informed.grown envs .async a).created + i = p.created + (a + i) := by
    intro i
    rw [WorkerPool.grown_created, Nat.add_assoc]
    rfl
  rw [openPool_eq, bind_of_ok hasync, if_neg (not_not.2 rfl), openConnections_first hk]
  · rw [hnext]
  · intro i hi
    rw [hnext]
    exact h (a + i) (Nat.add_lt_add_left hi a)
  · rw [hnext]
    exact he

/-- How `Open` ends: it returns the code of the first connect that reports a failure, if any. -/
inductive Opens (envs : Nat → Env) (s a : Nat) (p : WorkerPool) : Nat → WorkerPool → Prop
  | all (h : ∀ i < a + s, (envs (p.created + i)).openCode 0 = 0) :
      Opens envs s a p 0 ((p.informed.grown envs .async a).grown envs .sync s)
  | async {k : Nat} (hk : k < a) (h : ∀ i < k, (envs (p.created + i)).openCode 0 = 0)
      (he : (envs (p.created + k)).openCode 0 ≠ 0) :
      Opens envs s a p ((envs (p.created + k)).openCode 0)
        ((p.informed.grown envs .async k).failed .async)
  | sync {k : Nat} (hk : k < s) (h : ∀ i < a + k, (envs (p.created + i)).openCode 0 = 0)
      (he : (envs (p.created + (a + k))).openCode 0 ≠ 0) :
      Opens envs s a p ((envs (p.created + (a + k))).openCode 0)
        (((p.informed.grown envs .async a).grown envs .sync k).failed .sync)

theorem openPool_opens (envs : Nat → Env) (s a : Nat) (p : WorkerPool) :
    ∃ errcode q, openPool envs s a p = .ok errcode q ∧ Opens envs s a p errcode q := by
  rcases all_or_first (fun i => (envs (p.created + i)).openCode 0 = 0) (a + s) with
    hall | ⟨k, hk, hfirst, he⟩
  · exact ⟨_, _, openPool_all hall, .all hall⟩
  · rcases Nat.lt_or_ge k a with hlt | hge
    · exact ⟨_, _, openPool_async hlt hfirst he, .async hlt hfirst he⟩
    · obtain ⟨j, rfl⟩ := Nat.exists_eq_add_of_le hge
      have hj : j < s := by omega
      exact ⟨_, _, openPool_sync hj hfirst he, .sync hj hfirst he⟩

theorem exists_allOrNone_iff {errcode : Nat}
    (h : openPool envs s a .fresh = .ok errcode p) :
    (∃ errcode p, openPool envs s a .fresh = .ok errcode p ∧ AllOrNone envs s a errcode p) ↔
      AllOrNone envs s a errcode p := by
  constructor
  · rintro ⟨errcode', p', h', hall⟩
    rw [h] at h'
    cases h'
    exact hall
  · intro hall
    exact ⟨errcode, p, h, hall⟩

/-- An error code, and nothing left behind. -/
theorem AllOrNone.of_nothing {errcode : Nat} (he : errcode ≠ 0)
    (hnil : ∀ t, p.connections t = []) (hp : p.Staffed) : AllOrNone envs s a errcode p where
  asyncCount h := absurd h he
  syncCount h := absurd h he
  connected h := absurd h he
  nothing _ := by
    refine ⟨he, hnil, ?_⟩
    rw [hp, hnil]
    rfl

/-- No error code at all: the connections are there, connected or not. -/
theorem allOrNone_all_iff :
    AllOrNone envs s a 0 ((WorkerPool.fresh.informed.grown envs .async a).grown envs .sync s) ↔
      ∀ i < a + s, (envs i).connects 0 := by
  set p := (WorkerPool.fresh.informed.grown envs .async a).grown envs .sync s with hp
  have hcreated : p.created = a + s := by
    rw [hp, WorkerPool.grown_created, WorkerPool.grown_created]
    exact congrArg (· + s) (Nat.zero_add a)
  have hasync : p.connections .async =
      (List.range' 0 a).map (openedConnection envs .async) := by
    rw [hp, WorkerPool.grown_of_ne (by decide), WorkerPool.grown_self]
    rfl
  have hsync : p.connections .sync = (List.range' a s).map (openedConnection envs .sync) := by
    rw [hp, WorkerPool.grown_self, WorkerPool.grown_of_ne (by decide), WorkerPool.grown_created]
    exact congrArg (fun i => (List.range' i s).map _) (Nat.zero_add a)
  constructor
  · intro h i hi
    by_contra hc
    exact (h.nothing ⟨i, hcreated ▸ hi, Bool.eq_false_iff.2 hc⟩).1 rfl
  · intro h
    refine ⟨fun _ => ?_, fun _ => ?_, fun _ t c hc => ?_, ?_⟩
    · rw [hasync, List.length_map, List.length_range']
    · rw [hsync, List.length_map, List.length_range']
    · obtain ⟨i, hi, rfl⟩ : ∃ i < a + s, openedConnection envs t i = c := by
        cases t with
        | async =>
          rw [hasync] at hc
          obtain ⟨i, hi, rfl⟩ := List.mem_map.1 hc
          rw [List.mem_range'_1] at hi
          exact ⟨i, by omega, rfl⟩
        | sync =>
          rw [hsync] at hc
          obtain ⟨i, hi, rfl⟩ := List.mem_map.1 hc
          rw [List.mem_range'_1] at hi
          exact ⟨i, by omega, rfl⟩
      rw [openedConnection_mysql]
      exact h i hi
    · rintro ⟨i, hi, hc⟩
      rw [h i (hcreated ▸ hi)] at hc
      cases hc

/-- The condition, where the first error code is that of connection `k`. -/
theorem opensWhole_iff_of_first {k : Nat} (hk : k < a + s)
    (h : ∀ i < k, (envs i).openCode 0 = 0) (he : (envs k).openCode 0 ≠ 0) :
    OpensWhole envs s a ↔ k < a ∨ a = 0 := by
  have hfails : (envs k).reportsFailure := Env.reportsFailure_iff.2 he
  constructor
  · rintro (hall | ⟨j, -, hj, hfail, hplace⟩)
    · have hc := Env.connects_of_reportsFailure hfails
      rw [hall k hk] at hc
      cases hc
    · rcases Nat.lt_trichotomy j k with hlt | rfl | hlt
      · exact absurd (h j hlt) (Env.reportsFailure_iff.1 hfail)
      · exact hplace
      · rw [hj k hlt] at hfails
        cases hfails
  · intro hplace
    exact .inr ⟨k, hk, fun i hi => Env.reportsFailure_eq_false.2 (h i hi), hfails, hplace⟩

theorem opensWhole_iff_of_all (h : ∀ i < a + s, (envs i).openCode 0 = 0) :
    OpensWhole envs s a ↔ ∀ i < a + s, (envs i).connects 0 := by
  constructor
  · rintro (hall | ⟨k, hk, -, hfail, -⟩)
    · exact hall
    · exact absurd (h k hk) (Env.reportsFailure_iff.1 hfail)
  · exact .inl

/-- The asynchronous connections are cleared, the synchronous ones were never made. -/
theorem allOrNone_async {k errcode : Nat} (he : errcode ≠ 0) : AllOrNone envs s a errcode
    ((WorkerPool.fresh.informed.grown envs .async k).failed .async) := by
  have hfresh : WorkerPool.fresh.informed.Staffed := WorkerPool.staffed_fresh
  refine .of_nothing he ?_ hfresh.grown.failed
  intro t
  cases t with
  | async => exact WorkerPool.failed_self
  | sync =>
    rw [WorkerPool.failed_of_ne (by decide), WorkerPool.grown_of_ne (by decide)]
    rfl

/-- The synchronous connections are cleared, the asynchronous ones stay. -/
theorem allOrNone_sync_iff {k errcode : Nat} (he : errcode ≠ 0)
    (hfail : (envs (a + k)).connects 0 = false) : AllOrNone envs s a errcode
      (((WorkerPool.fresh.informed.grown envs .async a).grown envs .sync k).failed .sync) ↔
        a = 0 := by
  have hfresh : WorkerPool.fresh.informed.Staffed := WorkerPool.staffed_fresh
  set p := ((WorkerPool.fresh.informed.grown envs .async a).grown envs .sync k).failed .sync
    with hp
  have hasync : p.connections .async = (List.range' 0 a).map (openedConnection envs .async) := by
    rw [hp, WorkerPool.failed_of_ne (by decide), WorkerPool.grown_of_ne (by decide),
      WorkerPool.grown_self]
    rfl
  have hcreated : p.created = a + k + 1 := by
    rw [hp, WorkerPool.failed_created, WorkerPool.grown_created, WorkerPool.grown_created]
    exact congrArg (· + k + 1) (Nat.zero_add a)
  constructor
  · intro h
    have hnil := (h.nothing ⟨a + k, by omega, hfail⟩).2.1 .async
    rwa [hasync, List.map_eq_nil_iff, List.range'_eq_nil_iff] at hnil
  · rintro rfl
    refine .of_nothing he ?_ hfresh.grown.grown.failed
    intro t
    cases t with
    | async => exact hasync
    | sync => exact WorkerPool.failed_self

end Opening

/-- **Opening a pool.** All connections or none are left behind exactly under `OpensWhole`. -/
theorem openPool_allOrNone_iff (envs : Nat → Env) (syncThreadCount asyncThreadCount : Nat) :
    (∃ errcode p, openPool envs syncThreadCount asyncThreadCount .fresh = .ok errcode p ∧
      AllOrNone envs syncThreadCount asyncThreadCount errcode p) ↔
        OpensWhole envs syncThreadCount asyncThreadCount := by
  have hindex : ∀ i, WorkerPool.fresh.created + i = i := Nat.zero_add
  obtain ⟨errcode, p, hopen, hopens⟩ :=
    openPool_opens envs syncThreadCount asyncThreadCount .fresh
  rw [exists_allOrNone_iff hopen]
  cases hopens with
  | all h =>
    simp only [hindex] at h
    rw [allOrNone_all_iff, opensWhole_iff_of_all h]
  | @async k hk h he =>
    simp only [hindex] at h he ⊢
    rw [opensWhole_iff_of_first (by omega) h he]
    exact iff_of_true (allOrNone_async he) (.inl hk)
  | @sync k hk h he =>
    simp only [hindex] at h he ⊢
    have hfail := Env.connects_of_reportsFailure (Env.reportsFailure_iff.2 he)
    rw [opensWhole_iff_of_first (by omega) h he, allOrNone_sync_iff he hfail,
      or_iff_right (Nat.not_lt_of_le (Nat.le_add_right _ k))]

/-- The outcomes of a pool whose second connection gets no handle from `mysql_init`. -/
def secondUninitialized (number : Nat) : Env :=
  { loginDatabase [] with init := fun _ => number != 1 }

/-- The synchronous connection fails; the asynchronous one stays, and so does its worker. -/
theorem openPool_leaves_worker : ¬∀ (envs : Nat → Env) (syncThreadCount asyncThreadCount : Nat),
    ∃ errcode p, openPool envs syncThreadCount asyncThreadCount .fresh = .ok errcode p ∧
      AllOrNone envs syncThreadCount asyncThreadCount errcode p := by
  intro h
  obtain ⟨errcode, p, hopen, hall⟩ := h secondUninitialized 1 1
  cases hopen
  have hrunning := (hall.nothing ⟨1, by decide, rfl⟩).2.2
  exact absurd hrunning (by decide)

end GameServer.Database
