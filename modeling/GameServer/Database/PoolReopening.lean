import GameServer.Database.PoolOpening
import GameServer.Lib.Machine

/-!
# Opening, preparing and closing a pool again

The calls of `Open`, `PrepareStatements` and `Close` on one pool, with tasks pushed and worked on
in between. While the pool is open its queue should not be shut down (`Usable`). The flag is never
lowered and every destructor of a worker raises it, so this holds in a run exactly if no `Open`
succeeds after the pool has destroyed an asynchronous connection (`usable_along_iff`);
`joined_step_iff` says which calls do that.
-/

namespace GameServer.Database

open GameServer.Lib GameServer.Lib.Exec GameServer.Threading

/-! ## The code -/

/-- `DatabaseWorkerPool::Close`; the message it logs reads `_pConnectionInfo`. -/
def closePool : PoolRun Unit := do
  let p ← get
  if p.connectionInfo then
    modify fun p => p.cleared .async
    modify fun p => p.cleared .sync
  else throw .fault

/-- `_preparedStmtParamCount` after the statements of a connection: the first positive count of a
statement stays. -/
def paramCounts : List Nat → List (Option MySqlPreparedStatement) → List Nat
  | counts, [] => counts
  | [], stmt :: stmts => (stmt.map (·.paramCount)).getD 0 :: paramCounts [] stmts
  | count :: counts, stmt :: stmts =>
    (if count > 0 then count else (stmt.map (·.paramCount)).getD count) :: paramCounts counts stmts

/-- The counts are asserted to fit into a `uint8_t`. -/
def recordParamCounts (stmts : List (Option MySqlPreparedStatement)) : PoolRun Unit := do
  let p ← get
  let counts := paramCounts p.preparedStmtParamCount stmts
  if counts.all (· < 255) then modify fun p => { p with preparedStmtParamCount := counts }
  else throw .abort

/-- The turn of the loop in `PrepareStatements` for one connection. -/
def prepareConnection (envs : Nat → Env) (connType : EConnectionTypeIndex) (index : Nat) :
    PoolRun Bool := do
  let p ← get
  match (p.connections connType)[index]? with
  | none => throw .fault
  | some pConnection =>
    let (ready, pConnection) ← pConnection.call (prepareStatements (envs pConnection.number))
    modify fun p => p.setConnections connType ((p.connections connType).set index pConnection)
    if ready then
      recordParamCounts pConnection.world.stmts
      pure true
    else
      closePool
      pure false

/-- The inner loop. -/
def prepareConnections (envs : Nat → Env) (connType : EConnectionTypeIndex) :
    List Nat → PoolRun Bool
  | [] => pure true
  | index :: indices => do
    if ← prepareConnection envs connType index then prepareConnections envs connType indices
    else pure false

/-- `DatabaseWorkerPool::PrepareStatements`. -/
def preparePool (envs : Nat → Env) : PoolRun Bool := do
  let p ← get
  if ← prepareConnections envs .async (List.range (p.connections .async).length) then
    prepareConnections envs .sync (List.range (p.connections .sync).length)
  else pure false

/-! ## The machine -/

/-- A pool, and whether the last `Open` returned zero with no `Close` after it. -/
structure PoolSession where
  pool : WorkerPool
  opened : Bool

inductive PoolCall where
  | openPool (syncThreadCount asyncThreadCount : Nat)
  | prepareStatements
  | close
  /-- `AsyncExecute`, `AsyncQuery` or `CommitTransaction` pushes its task. -/
  | push (task : Nat)
  /-- The worker of this asynchronous connection pops a task; `world` is the connection after it. -/
  | work (index : Nat) (world : World)

namespace PoolSession

def fresh : PoolSession := ⟨.fresh, false⟩

def push (s : PoolSession) (task : Nat) : PoolSession :=
  { s with pool := { s.pool with queue := s.pool.queue.push task } }

def work (s : PoolSession) (index : Nat) (world : World) : Option PoolSession :=
  match (s.pool.connections .async)[index]? with
  | none => none
  | some pConnection =>
    if s.pool.queue.waitCondition then
      let connections := (s.pool.connections .async).set index { pConnection with world }
      let pool := { s.pool with queue := s.pool.queue.popWaited.2 }
      some { s with pool := pool.setConnections .async connections }
    else none

/-- The session after a call on the pool, if the call returns. -/
def after {α : Type} (opened : α → Bool) : EStateM.Result Halt WorkerPool α → Option PoolSession
  | .ok result pool => some ⟨pool, opened result⟩
  | .error _ _ => none

end PoolSession

def poolSessions (envs : Nat → Env) : Machine PoolSession PoolCall where
  init s := s = .fresh
  step s
    | .openPool syncThreadCount asyncThreadCount =>
      PoolSession.after (· == 0) (openPool envs syncThreadCount asyncThreadCount s.pool)
    | .prepareStatements => PoolSession.after (s.opened && ·) (preparePool envs s.pool)
    | .close => PoolSession.after (fun _ => false) (closePool s.pool)
    | .push task => some (s.push task)
    | .work index world => s.work index world

namespace PoolSession

/-- While the pool is open its queue is not shut down. -/
def Usable (s : PoolSession) : Prop := s.opened → s.pool.queue.shutdown = false

/-- An `Open` that finds no failure finds no worker destroyed either. -/
def FirstOpening (envs : Nat → Env) (s : PoolSession) : PoolCall → Prop
  | .openPool syncThreadCount asyncThreadCount =>
    (∀ i < asyncThreadCount + syncThreadCount,
      (envs (s.pool.created + i)).reportsFailure = false) → s.pool.joined = 0
  | _ => True

end PoolSession

namespace WorkerPool

variable {p q : WorkerPool} {t : EConnectionTypeIndex} {l : List PoolConnection}
  {envs : Nat → Env} {n : Nat}

/-! ## The shutdown flag and the joined workers -/

/-- The queue is shut down exactly if a worker has been joined. -/
def Marked (p : WorkerPool) : Prop := p.queue.shutdown = true ↔ p.joined ≠ 0

theorem marked_fresh : fresh.Marked := by simp [Marked, fresh, ProducerConsumerQueue.empty]

theorem Marked.congr (h : p.Marked) (hqueue : q.queue.shutdown = p.queue.shutdown)
    (hjoined : q.joined = p.joined) : q.Marked := by
  rwa [Marked, hqueue, hjoined]

theorem Marked.destroyed (h : p.Marked) : (p.destroyed t).Marked := by
  cases t with
  | async => exact iff_of_true rfl (Nat.succ_ne_zero _)
  | sync => exact h

theorem Marked.cleared (h : p.Marked) : (p.cleared t).Marked := by
  have hfold : ∀ {l : List PoolConnection} {p : WorkerPool}, p.Marked →
      (l.foldl (fun p _ => p.destroyed t) p).Marked := by
    intro l
    induction l with
    | nil => exact id
    | cons c l ih => exact fun h => ih h.destroyed
  exact (hfold h).congr rfl rfl

theorem Marked.constructed (h : p.Marked) : (p.constructed t).Marked := by
  cases t <;> exact h

theorem Marked.grown (h : p.Marked) : (p.grown envs t n).Marked := by
  induction n generalizing p with
  | zero => exact h
  | succ n ih => exact ih (h.constructed.congr rfl rfl)

theorem Marked.failed (h : p.Marked) : (p.failed t).Marked := h.constructed.cleared.destroyed

theorem cleared_sync : p.cleared .sync = p.setConnections .sync [] := by
  rw [cleared, foldl_destroyed_sync]

theorem cleared_async_joined :
    (p.cleared .async).joined = p.joined + (p.connections .async).length := by
  have hfold : ∀ {l : List PoolConnection} {p : WorkerPool},
      (l.foldl (fun p _ => p.destroyed .async) p).joined = p.joined + l.length := by
    intro l
    induction l with
    | nil => intro p; rfl
    | cons c l ih =>
      intro p
      rw [List.foldl_cons, ih, List.length_cons]
      change p.joined + 1 + _ = _
      omega
  exact hfold

theorem grown_joined : (p.grown envs t n).joined = p.joined := by
  induction n generalizing p with
  | zero => rfl
  | succ n ih =>
    rw [grown, ih]
    cases t <;> rfl

theorem failed_async_joined : p.joined < (p.failed .async).joined := by
  change p.joined < ((p.constructed .async).cleared .async).joined + 1
  rw [cleared_async_joined]
  exact Nat.lt_succ_of_le (Nat.le_add_right _ _)

theorem failed_sync_joined : (p.failed .sync).joined = p.joined := by
  rw [failed, cleared_sync]
  rfl

end WorkerPool

/-! ## The calls -/

section Calls

variable {envs : Nat → Env} {p q : WorkerPool} {t : EConnectionTypeIndex} {b : Bool}

theorem closePool_ok (h : closePool p = .ok ⟨⟩ q) : q = (p.cleared .async).cleared .sync := by
  unfold closePool at h
  rw [get_bind] at h
  split at h
  · cases h
    rfl
  · cases h

theorem closePool_joined (h : closePool p = .ok ⟨⟩ q) :
    q.joined = p.joined + (p.connections .async).length := by
  rw [closePool_ok h, WorkerPool.cleared_sync]
  exact WorkerPool.cleared_async_joined

/-- The two pools have the same queue, the same workers and as many asynchronous connections. -/
structure SameWorkers (p q : WorkerPool) : Prop where
  queue : q.queue = p.queue
  joined : q.joined = p.joined
  asyncLength : (q.connections .async).length = (p.connections .async).length

theorem SameWorkers.refl (p : WorkerPool) : SameWorkers p p := ⟨rfl, rfl, rfl⟩

theorem SameWorkers.trans {r : WorkerPool} (h : SameWorkers p q) (k : SameWorkers q r) :
    SameWorkers p r :=
  ⟨k.queue.trans h.queue, k.joined.trans h.joined, k.asyncLength.trans h.asyncLength⟩

/-- Preparing ends with the workers as they were, or with `Close`. -/
inductive Prepares (p : WorkerPool) : Bool → WorkerPool → Prop
  | ready {q : WorkerPool} (h : SameWorkers p q) : Prepares p true q
  | closed {q r : WorkerPool} (h : SameWorkers p q) (hclose : closePool q = .ok ⟨⟩ r) :
      Prepares p false r

theorem Prepares.trans {r : WorkerPool} (h : SameWorkers p q) (k : Prepares q b r) :
    Prepares p b r := by
  cases k with
  | ready k => exact .ready (h.trans k)
  | closed k hclose => exact .closed (h.trans k) hclose

theorem sameWorkers_setConnections (p : WorkerPool) (t : EConnectionTypeIndex) (index : Nat)
    (c : PoolConnection) :
    SameWorkers p (p.setConnections t ((p.connections t).set index c)) := by
  refine ⟨rfl, rfl, ?_⟩
  cases t with
  | async => rw [WorkerPool.setConnections_self, List.length_set]
  | sync => rw [WorkerPool.setConnections_of_ne (by decide)]

theorem call_ok {α : Type} {c : PoolConnection} {x : Run α} {r : α × PoolConnection}
    (h : c.call x p = .ok r q) : q = p := by
  unfold PoolConnection.call at h
  cases hx : x c.world with
  | ok a w =>
    rw [hx] at h
    cases h
    rfl
  | error halt w =>
    rw [hx] at h
    cases h

theorem prepareConnection_ok {index : Nat} (h : prepareConnection envs t index p = .ok b q) :
    Prepares p b q := by
  unfold prepareConnection at h
  rw [get_bind] at h
  cases hc : (p.connections t)[index]? with
  | none =>
    rw [hc] at h
    cases h
  | some c =>
    rw [hc] at h
    obtain ⟨⟨ready, c'⟩, p', hcall, hrest⟩ := bind_eq_ok.1 h
    obtain rfl := (call_ok hcall).symm
    have hsame := sameWorkers_setConnections p t index c'
    simp only [modify_bind] at hrest
    split at hrest
    · unfold recordParamCounts at hrest
      obtain ⟨_, p₁, hrecord, hret⟩ := bind_eq_ok.1 hrest
      cases hret
      rw [get_bind] at hrecord
      split at hrecord
      · cases hrecord
        exact .ready (hsame.trans ⟨rfl, rfl, rfl⟩)
      · cases hrecord
    · obtain ⟨_, p₁, hclose, hret⟩ := bind_eq_ok.1 hrest
      cases hret
      exact .closed hsame hclose

theorem prepareConnections_ok {indices : List Nat}
    (h : prepareConnections envs t indices p = .ok b q) : Prepares p b q := by
  induction indices generalizing p with
  | nil =>
    cases h
    exact .ready (.refl _)
  | cons index indices ih =>
    obtain ⟨ready, p', hp', hrest⟩ := bind_eq_ok.1 h
    cases prepareConnection_ok hp' with
    | ready hsame => exact .trans hsame (ih hrest)
    | closed hsame hclose =>
      cases hrest
      exact .closed hsame hclose

theorem preparePool_ok (h : preparePool envs p = .ok b q) : Prepares p b q := by
  unfold preparePool at h
  rw [get_bind] at h
  obtain ⟨ready, p', hp', hrest⟩ := bind_eq_ok.1 h
  cases prepareConnections_ok hp' with
  | ready hsame => exact .trans hsame (prepareConnections_ok hrest)
  | closed hsame hclose =>
    cases hrest
    exact .closed hsame hclose

theorem Opens.marked {syncThreadCount asyncThreadCount errcode : Nat}
    (h : Opens envs syncThreadCount asyncThreadCount p errcode q) (hp : p.Marked) : q.Marked := by
  have hinformed : p.informed.Marked := hp
  cases h with
  | all => exact hinformed.grown.grown
  | async => exact hinformed.grown.failed
  | sync => exact hinformed.grown.grown.failed

/-- `Open` returns zero where no connect reports a failure, and then it destroys nothing. -/
theorem Opens.zero_iff {syncThreadCount asyncThreadCount errcode : Nat}
    (h : Opens envs syncThreadCount asyncThreadCount p errcode q) :
    errcode = 0 ↔ ∀ i < asyncThreadCount + syncThreadCount,
      (envs (p.created + i)).reportsFailure = false := by
  simp only [Env.reportsFailure_eq_false]
  cases h with
  | all h => exact iff_of_true rfl h
  | async hk _ he => exact iff_of_false he fun h => he (h _ (Nat.lt_add_right _ hk))
  | sync hk _ he => exact iff_of_false he fun h => he (h _ (Nat.add_lt_add_left hk _))

/-- `Open` destroys an asynchronous connection where the connect of one reports a failure. -/
theorem Opens.joined_iff {syncThreadCount asyncThreadCount errcode : Nat}
    (h : Opens envs syncThreadCount asyncThreadCount p errcode q) :
    q.joined = p.joined ↔ ∀ i < asyncThreadCount,
      (envs (p.created + i)).reportsFailure = false := by
  simp only [Env.reportsFailure_eq_false]
  cases h with
  | all h =>
    rw [WorkerPool.grown_joined, WorkerPool.grown_joined]
    exact iff_of_true rfl fun i hi => h i (Nat.lt_add_right _ hi)
  | @async k hk _ he =>
    refine iff_of_false (Nat.ne_of_gt ?_) fun h => he (h k hk)
    have hjoined := @WorkerPool.failed_async_joined (p.informed.grown envs .async k)
    rwa [WorkerPool.grown_joined] at hjoined
  | sync _ h _ =>
    rw [WorkerPool.failed_sync_joined, WorkerPool.grown_joined, WorkerPool.grown_joined]
    exact iff_of_true rfl fun i hi => h i (Nat.lt_add_right _ hi)

theorem Prepares.marked (h : Prepares p b q) (hp : p.Marked) : q.Marked := by
  cases h with
  | ready hsame => exact hp.congr (congrArg _ hsame.queue) hsame.joined
  | closed hsame hclose =>
    rw [closePool_ok hclose]
    exact (hp.congr (congrArg _ hsame.queue) hsame.joined).cleared.cleared

/-- `PrepareStatements` destroys the asynchronous connections where it fails. -/
theorem Prepares.joined_iff (h : Prepares p b q) :
    q.joined = p.joined ↔ b = true ∨ p.connections .async = [] := by
  cases h with
  | ready hsame => exact iff_of_true hsame.joined (.inl rfl)
  | closed hsame hclose =>
    rw [closePool_joined hclose, hsame.joined, hsame.asyncLength]
    simp

end Calls

/-! ## Steps -/

namespace PoolSession

variable {envs : Nat → Env} {s t : PoolSession} {c : PoolCall}

theorem after_eq_some {α : Type} {opened : α → Bool} {r : EStateM.Result Halt WorkerPool α} :
    after opened r = some t ↔ ∃ result pool, r = .ok result pool ∧ t = ⟨pool, opened result⟩ := by
  cases r with
  | ok result pool =>
    constructor
    · intro h
      cases h
      exact ⟨result, pool, rfl, rfl⟩
    · rintro ⟨_, _, h, rfl⟩
      cases h
      rfl
  | error halt pool => simp [after]

structure SameFlags (s t : PoolSession) : Prop where
  shutdown : t.pool.queue.shutdown = s.pool.queue.shutdown
  joined : t.pool.joined = s.pool.joined
  opened : t.opened = s.opened

/-- What a call does to the pool and the flag. -/
inductive CallEffect (envs : Nat → Env) (s t : PoolSession) : PoolCall → Prop
  | opens {syncThreadCount asyncThreadCount errcode : Nat}
      (h : Opens envs syncThreadCount asyncThreadCount s.pool errcode t.pool)
      (hopened : t.opened = (errcode == 0)) :
      CallEffect envs s t (.openPool syncThreadCount asyncThreadCount)
  | prepares {ready : Bool} (hrun : preparePool envs s.pool = .ok ready t.pool)
      (hopened : t.opened = (s.opened && ready)) : CallEffect envs s t .prepareStatements
  | closes (h : closePool s.pool = .ok ⟨⟩ t.pool) (hopened : t.opened = false) :
      CallEffect envs s t .close
  | pushes {task : Nat} (h : SameFlags s t) : CallEffect envs s t (.push task)
  | works {index : Nat} {world : World} (h : SameFlags s t) :
      CallEffect envs s t (.work index world)

theorem step_effect (h : (poolSessions envs).step s c = some t) : CallEffect envs s t c := by
  cases c with
  | openPool syncThreadCount asyncThreadCount =>
    obtain ⟨errcode, q, hrun, rfl⟩ := after_eq_some.1 h
    obtain ⟨errcode', q', hrun', hopens⟩ :=
      openPool_opens envs syncThreadCount asyncThreadCount s.pool
    rw [hrun] at hrun'
    cases hrun'
    exact .opens hopens rfl
  | prepareStatements =>
    obtain ⟨ready, q, hrun, rfl⟩ := after_eq_some.1 h
    exact .prepares hrun rfl
  | close =>
    obtain ⟨_, q, hrun, rfl⟩ := after_eq_some.1 h
    exact .closes hrun rfl
  | push task =>
    cases h
    exact .pushes ⟨rfl, rfl, rfl⟩
  | work index world =>
    change s.work index world = some t at h
    unfold work at h
    split at h
    · cases h
    · split at h
      · cases h
        exact .works ⟨ProducerConsumerQueue.popWaited_shutdown _, rfl, rfl⟩
      · cases h

/-- The invariant: an open pool has joined no worker. -/
structure Sound (s : PoolSession) : Prop where
  marked : s.pool.Marked
  opened : s.opened → s.pool.joined = 0

theorem sound_fresh : fresh.Sound := ⟨WorkerPool.marked_fresh, nofun⟩

theorem Sound.usable (h : s.Sound) : s.Usable := by
  intro hopened
  by_contra hup
  exact h.marked.1 (Bool.not_eq_false _ ▸ hup) (h.opened hopened)

theorem Sound.same (h : s.Sound) (k : SameFlags s t) : t.Sound :=
  ⟨h.marked.congr k.shutdown k.joined, fun hup =>
    k.joined.trans (h.opened (k.opened.symm.trans hup))⟩

theorem Sound.step (h : s.Sound) (hc : s.FirstOpening envs c)
    (hs : (poolSessions envs).step s c = some t) : t.Sound := by
  cases step_effect hs with
  | opens hopens hopened =>
    refine ⟨hopens.marked h.marked, fun hup => ?_⟩
    have hzero := hopens.zero_iff.1 (eq_of_beq (hopened.symm.trans hup))
    rw [hopens.joined_iff.2 fun i hi => hzero i (Nat.lt_add_right _ hi)]
    exact hc hzero
  | prepares hrun hopened =>
    have hprepares := preparePool_ok hrun
    refine ⟨hprepares.marked h.marked, fun hup => ?_⟩
    obtain ⟨hbefore, hready⟩ := Bool.and_eq_true_iff.1 (hopened.symm.trans hup)
    rw [hprepares.joined_iff.2 (.inl hready)]
    exact h.opened hbefore
  | closes hclose hopened =>
    refine ⟨?_, fun hup => ?_⟩
    · rw [closePool_ok hclose]
      exact h.marked.cleared.cleared
    · cases hopened.symm.trans hup
  | pushes k => exact h.same k
  | works k => exact h.same k

/-- An `Open` that succeeds after a worker was joined leaves the pool open with its queue down. -/
theorem Sound.not_usable (h : s.Sound) (hc : ¬s.FirstOpening envs c)
    (hs : (poolSessions envs).step s c = some t) : ¬t.Usable := by
  cases step_effect hs with
  | opens hopens hopened =>
    obtain ⟨hreports, hjoined⟩ := Classical.not_imp.1 hc
    have hopen : t.opened = true := by
      rw [hopened, hopens.zero_iff.2 hreports]
      rfl
    have hdown : t.pool.queue.shutdown = true := by
      apply (hopens.marked h.marked).2
      rw [hopens.joined_iff.2 fun i hi => hreports i (Nat.lt_add_right _ hi)]
      exact hjoined
    intro husable
    exact Bool.false_ne_true ((husable hopen).symm.trans hdown)
  | prepares => exact absurd trivial hc
  | closes => exact absurd trivial hc
  | pushes => exact absurd trivial hc
  | works => exact absurd trivial hc

/-- The calls that destroy an asynchronous connection. -/
def Destroys (envs : Nat → Env) (s : PoolSession) : PoolCall → Prop
  | .openPool _ asyncThreadCount =>
    ∃ i < asyncThreadCount, (envs (s.pool.created + i)).reportsFailure
  | .prepareStatements =>
    s.pool.connections .async ≠ [] ∧ ∃ p, preparePool envs s.pool = .ok false p
  | .close => s.pool.connections .async ≠ []
  | _ => False

/-- **Joined workers.** A call joins workers exactly if it destroys an asynchronous connection. -/
theorem joined_step_iff (h : (poolSessions envs).step s c = some t) :
    t.pool.joined = s.pool.joined ↔ ¬s.Destroys envs c := by
  cases step_effect h with
  | opens hopens =>
    rw [hopens.joined_iff]
    simp [Destroys]
  | @prepares ready hrun =>
    rw [(preparePool_ok hrun).joined_iff]
    constructor
    · rintro hready ⟨hne, p, hp⟩
      rw [hrun] at hp
      cases hp
      exact hready.elim Bool.false_ne_true hne
    · intro hnot
      cases ready with
      | true => exact .inl rfl
      | false =>
        refine .inr ?_
        by_contra hne
        exact hnot ⟨hne, _, hrun⟩
  | closes hclose =>
    rw [closePool_joined hclose]
    simp [Destroys]
  | pushes k => exact iff_of_true k.joined id
  | works k => exact iff_of_true k.joined id

/-- In a usable open pool the worker of each asynchronous connection can pop a pushed task. -/
theorem Usable.serves (h : s.Usable) (hopened : s.opened) (task : Nat) {index : Nat}
    (hindex : index < (s.pool.connections .async).length) (world : World) :
    ∃ t, (poolSessions envs).run s [.push task, .work index world] = some t := by
  have hwait : (s.push task).pool.queue.waitCondition = true := by
    change (!(s.pool.queue.queue ++ [task]).isEmpty && !s.pool.queue.shutdown) = true
    rw [h hopened]
    simp
  have hget : ((s.push task).pool.connections .async)[index]? =
      some (s.pool.connections .async)[index] := List.getElem?_eq_getElem hindex
  have hwork : ∃ t, (s.push task).work index world = some t := by
    unfold work
    rw [hget]
    simp only [hwait, if_true]
    exact ⟨_, rfl⟩
  obtain ⟨t, ht⟩ := hwork
  refine ⟨t, ?_⟩
  rw [Machine.run_cons]
  change (poolSessions envs).run (s.push task) [.work index world] = some t
  rw [Machine.run_cons]
  change ((s.push task).work index world).bind _ = some t
  rw [ht]
  rfl

end PoolSession

open PoolSession

/-- **Opening a pool again.** In no state of a run is an open pool's queue shut down, exactly if
each `Open` of the run that succeeds finds no worker joined before. -/
theorem usable_along_iff (envs : Nat → Env) (calls : List PoolCall) :
    (poolSessions envs).Along Usable .fresh calls ↔
      (poolSessions envs).Meets (FirstOpening envs) .fresh calls :=
  Machine.along_iff_meets (I := Sound) (fun _ h => h.usable) (fun _ _ _ h hc hs => h.step hc hs)
    (fun _ _ _ h hc hs => h.not_usable hc hs) sound_fresh

/-- `Open`, `Close`, `Open`: the queue of the pool stays shut down. -/
theorem reopened_shutdown : ¬∀ envs calls,
    (poolSessions envs).Along Usable .fresh calls := by
  intro h
  have hreopened := (((h (fun _ => loginDatabase []) [.openPool 1 1, .close, .openPool 1 1]).2 _
    rfl).2 _ rfl).2 _ rfl
  exact Bool.false_ne_true (hreopened rfl).symm

end GameServer.Database
