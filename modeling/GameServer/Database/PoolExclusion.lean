import GameServer.Database.DatabaseWorkerPool

/-!
# Mutual exclusion of the pooled connections

A thread between acquiring a connection and `UnLock` should hold its mutex (`Exclusive`). The
loop of `GetFreeConnectionAndLock` ends after its first probe whether or not that probe locked
the connection, `PrepareStatements` goes on without the lock, and `Close` destroys connections
that other threads have. So exclusion lasts exactly as long as every `TryLock` finds its connection
there and its mutex free, and the pool is closed while no mutex is locked (`exclusive_along_iff`).
-/

namespace GameServer.Database

open GameServer.Lib

namespace PoolThread

/-- The thread is between acquiring this connection and `UnLock`. -/
def Holds : PoolThread → Nat → Prop
  | .using connection, c => connection = c
  | .preparing connection, c => connection = c
  | _, _ => False

end PoolThread

namespace DatabaseWorkerPool

/-- Each thread between acquiring a connection and `UnLock` holds its mutex, no two threads are
there with the same connection, and nothing was misused: no thread has unlocked a mutex it does not
hold. -/
structure Exclusive (p : DatabaseWorkerPool) : Prop where
  owner : ∀ t c, (p.threads t).Holds c → p.owner c = some t
  unique : ∀ t u c, (p.threads t).Holds c → (p.threads u).Holds c → t = u
  used : p.misused = false

/-- A `TryLock` finds its connection there and the mutex free, the counts are read from a connection
that is there, and the pool is closed while no mutex of it is locked. -/
def FindsFree (p : DatabaseWorkerPool) : PoolEvent → Prop
  | .probe t => ∀ connectionCount index, p.threads t = .probing connectionCount index →
      connectionCount ≠ 0 ∧ index % connectionCount < p.syncCount ∧
        p.owner (p.probed connectionCount index) = none
  | .visit t => ∀ c, p.threads t = .visiting c → c < p.total ∧ p.owner c = none
  | .recorded t => ∀ c, p.threads t = .recording c → c < p.total
  | .close _ => ∀ c, c < p.total → p.owner c = none
  | _ => True

/-- The invariant: the mutexes are held by the threads that are between lock and unlock, on
connections that are there. -/
structure Locked (p : DatabaseWorkerPool) : Prop where
  holds_iff : ∀ t c, (p.threads t).Holds c ↔ p.owner c = some t
  present : ∀ t c, (p.threads t).Holds c → c < p.total
  used : p.misused = false

theorem Locked.exclusive {p : DatabaseWorkerPool} (h : p.Locked) : p.Exclusive :=
  ⟨fun t c => (h.holds_iff t c).1, fun t u c ht hu => by
    rw [h.holds_iff] at ht hu
    exact Option.some.inj (ht.symm.trans hu), h.used⟩

theorem opened_locked (asyncCount syncCount : Nat) : (opened asyncCount syncCount).Locked :=
  ⟨fun _ _ => ⟨nofun, nofun⟩, fun _ _ => False.elim, rfl⟩

variable {p q : DatabaseWorkerPool} {t c : Nat}

/-! ## Threads that move -/

@[simp] theorem setThread_threads (p : DatabaseWorkerPool) (t u : Nat) (s : PoolThread) :
    (p.setThread t s).threads u = if u = t then s else p.threads u := by
  simp [setThread, Function.update_apply]

@[simp] theorem setThread_owner (p : DatabaseWorkerPool) (t : Nat) (s : PoolThread) :
    (p.setThread t s).owner = p.owner := rfl

@[simp] theorem setThread_total (p : DatabaseWorkerPool) (t : Nat) (s : PoolThread) :
    (p.setThread t s).total = p.total := rfl

theorem misuse_not_exclusive (p : DatabaseWorkerPool) (t : Nat) : ¬(p.misuse t).Exclusive :=
  fun h => Bool.noConfusion h.used

theorem unlocked_iff : p.unlocked = true ↔ ∀ c, c < p.total → p.owner c = none := by
  simp [unlocked]

/-- A thread that holds nothing moves to a place where it holds nothing. -/
theorem Locked.move (h : p.Locked) {s s' : PoolThread} (ht : p.threads t = s)
    (hold : ∀ c, ¬s.Holds c) (hnew : ∀ c, ¬s'.Holds c) : (p.setThread t s').Locked := by
  subst ht
  refine ⟨?_, ?_, h.used⟩
  · intro u c
    rw [setThread_threads, setThread_owner, ← h.holds_iff]
    split
    · next hu => subst hu; exact iff_of_false (hnew c) (hold c)
    · exact Iff.rfl
  · intro u c hu
    rw [setThread_threads] at hu
    split at hu
    · exact absurd hu (hnew c)
    · exact h.present u c hu

/-- It locks a free mutex and enters the section of that connection. -/
theorem Locked.lock (h : p.Locked) {s s' : PoolThread} (ht : p.threads t = s)
    (hold : ∀ d, ¬s.Holds d) (hlt : c < p.total) (hfree : p.owner c = none)
    (hnew : ∀ d, s'.Holds d ↔ d = c) : ((p.tryLock t c).2.setThread t s').Locked := by
  subst ht
  have hlock : p.tryLock t c = (true, { p with owner := Function.update p.owner c (some t) }) := by
    simp [tryLock, hfree]
  rw [hlock]
  refine ⟨?_, ?_, h.used⟩
  · intro u d
    rw [setThread_threads, setThread_owner]
    simp only [Function.update_apply]
    by_cases hu : u = t
    · subst hu
      rw [if_pos rfl, hnew]
      split
      · next hd => exact iff_of_true hd rfl
      · next hd =>
        refine iff_of_false hd ?_
        intro ho
        exact hold d ((h.holds_iff u d).2 ho)
    · rw [if_neg hu, h.holds_iff]
      split
      · next hd =>
        subst hd
        rw [hfree]
        refine iff_of_false nofun ?_
        intro ho
        exact hu (Option.some.inj ho).symm
      · exact Iff.rfl
  · intro u d hd
    rw [setThread_threads] at hd
    split at hd
    · obtain rfl := (hnew d).1 hd
      exact hlt
    · exact h.present u d hd

/-- It leaves the section of a connection and unlocks it. -/
theorem Locked.unlock (h : p.Locked) {s s' : PoolThread} (ht : p.threads t = s)
    (hold : ∀ d, s.Holds d ↔ c = d) (hnew : ∀ d, ¬s'.Holds d) :
    ((p.unLock t c).setThread t s').Locked := by
  subst ht
  have hc : p.owner c = some t := (h.holds_iff t c).1 ((hold c).2 rfl)
  refine ⟨?_, ?_, ?_⟩
  · intro u d
    rw [setThread_threads, setThread_owner]
    simp only [unLock, Function.update_apply]
    by_cases hu : u = t
    · subst hu
      rw [if_pos rfl]
      refine iff_of_false (hnew d) ?_
      intro ho
      split at ho
      · cases ho
      · next hd => exact hd ((hold d).1 ((h.holds_iff u d).2 ho)).symm
    · rw [if_neg hu, h.holds_iff]
      split
      · next hd =>
        subst hd
        rw [hc]
        refine iff_of_false ?_ nofun
        intro ho
        exact hu (Option.some.inj ho).symm
      · exact Iff.rfl
  · intro u d hd
    rw [setThread_threads] at hd
    split at hd
    · exact absurd hd (hnew d)
    · exact h.present u d hd
  · simp [setThread, unLock, hc, h.used]

/-- With all mutexes free no thread is in a section, so the connections can be destroyed. -/
theorem Locked.close (h : p.Locked) (hfree : ∀ c, c < p.total → p.owner c = none) (t : Nat) :
    (p.close t).Locked := by
  have hnobody : ∀ u c, ¬(p.threads u).Holds c := by
    intro u c hc
    have ho := (h.holds_iff u c).1 hc
    rw [hfree c (h.present u c hc)] at ho
    cases ho
  have hthreads : ∀ u c, ¬((p.close t).threads u).Holds c := by
    intro u c
    rw [DatabaseWorkerPool.close, setThread_threads]
    split
    · exact id
    · exact hnobody u c
  refine ⟨fun u c => iff_of_false (hthreads u c) nofun, fun u c hc => absurd hc (hthreads u c), ?_⟩
  simp [DatabaseWorkerPool.close, setThread, h.used, unlocked_iff.2 hfree]

/-- A thread that enters the section of a connection it did not lock. -/
theorem Locked.not_exclusive (h : p.Locked) {s s' : PoolThread} {u : Nat}
    (ht : p.threads t = s) (hold : ¬s.Holds c) (hbusy : p.owner c = some u) (hnew : s'.Holds c) :
    ¬((p.tryLock t c).2.setThread t s').Exclusive := by
  subst ht
  intro hex
  have hlock : p.tryLock t c = (false, p) := by simp [tryLock, hbusy]
  rw [hlock] at hex
  have ho : p.owner c = some t := by
    have := hex.owner t c
    rw [setThread_threads, if_pos rfl, setThread_owner] at this
    exact this hnew
  exact hold ((h.holds_iff t c).2 ho)

/-! ## Steps -/

/-- Locked or not, the probed connection is the one that is returned. -/
theorem probe_eq (p : DatabaseWorkerPool) (t : Nat) {connectionCount index : Nat}
    (hcount : connectionCount ≠ 0) (hlt : index % connectionCount < p.syncCount) :
    p.probe t connectionCount index =
      (p.tryLock t (p.probed connectionCount index)).2.setThread t
        (.using (p.probed connectionCount index)) := by
  rw [probe, if_neg (not_or.2 ⟨hcount, Nat.not_le.2 hlt⟩)]
  dsimp only
  split
  · rfl
  · rfl

theorem probed_lt {connectionCount index : Nat} (hlt : index % connectionCount < p.syncCount) :
    p.probed connectionCount index < p.total :=
  Nat.add_lt_add_left hlt _

theorem Locked.enter (h : p.Locked) (hold : ∀ c, ¬(p.threads t).Holds c) (c : Nat) :
    (p.enter t c).Locked := by
  refine h.move rfl hold ?_
  split
  · exact fun _ => id
  · exact fun _ => id

theorem Locked.step {asyncCount syncCount : Nat} {e : PoolEvent} (h : p.Locked)
    (hc : p.FindsFree e) (hs : (pool asyncCount syncCount).step p e = some q) : q.Locked := by
  cases e with
  | call t =>
    simp only [pool] at hs
    split at hs
    · next ht =>
      cases hs
      exact h.move ht (fun _ => id) fun _ => id
    · cases hs
  | probe t =>
    simp only [pool] at hs
    split at hs
    · next connectionCount index ht =>
      cases hs
      obtain ⟨hcount, hlt, hfree⟩ := hc connectionCount index ht
      rw [probe_eq p t hcount hlt]
      exact h.lock ht (fun _ => id) (probed_lt hlt) hfree fun _ => eq_comm
    · cases hs
  | unLock t =>
    simp only [pool] at hs
    split at hs
    · next c ht =>
      cases hs
      exact h.unlock ht (fun _ => Iff.rfl) fun _ => id
    · cases hs
  | prepareStatements t =>
    simp only [pool] at hs
    split at hs
    · next ht =>
      cases hs
      refine h.enter ?_ 0
      rw [ht]
      exact fun _ => id
    · cases hs
  | visit t =>
    simp only [pool] at hs
    split at hs
    · next c ht =>
      cases hs
      obtain ⟨hlt, hfree⟩ := hc c ht
      rw [visit, if_pos hlt]
      exact h.lock ht (fun _ => id) hlt hfree fun _ => eq_comm
    · cases hs
  | prepared t ok =>
    simp only [pool] at hs
    split at hs
    · next c ht =>
      cases hs
      refine h.unlock ht (fun _ => Iff.rfl) ?_
      cases ok with
      | true => exact fun _ => id
      | false => exact fun _ => id
    · cases hs
  | recorded t =>
    simp only [pool] at hs
    split at hs
    · next c ht =>
      cases hs
      rw [recorded, if_pos (hc c ht)]
      refine h.enter ?_ (c + 1)
      rw [ht]
      exact fun _ => id
    · cases hs
  | close t =>
    simp only [pool] at hs
    split at hs
    · cases hs
      exact h.close hc t
    · cases hs

/-- A `TryLock` that fails ends with the thread in the section of another one; a connection that is
not there, and a mutex that is destroyed while it is locked, are misused. -/
theorem Locked.not_exclusive_step {asyncCount syncCount : Nat} {e : PoolEvent} (h : p.Locked)
    (hc : ¬p.FindsFree e) (hs : (pool asyncCount syncCount).step p e = some q) : ¬q.Exclusive := by
  cases e with
  | probe t =>
    simp only [FindsFree, not_forall] at hc
    obtain ⟨connectionCount, index, ht, hbad⟩ := hc
    simp only [pool, ht] at hs
    cases hs
    by_cases hthere : connectionCount ≠ 0 ∧ index % connectionCount < p.syncCount
    · have hbusy := fun hfree => hbad ⟨hthere.1, hthere.2, hfree⟩
      obtain ⟨u, hu⟩ := Option.ne_none_iff_exists'.1 hbusy
      rw [probe_eq p t hthere.1 hthere.2]
      exact h.not_exclusive ht id hu rfl
    · have habsent : connectionCount = 0 ∨ p.syncCount ≤ index % connectionCount := by
        rw [not_and_or] at hthere
        exact hthere.imp Decidable.of_not_not Nat.not_lt.1
      rw [probe, if_pos habsent]
      exact misuse_not_exclusive p t
  | visit t =>
    simp only [FindsFree, not_forall] at hc
    obtain ⟨c, ht, hbad⟩ := hc
    simp only [pool, ht] at hs
    cases hs
    rw [visit]
    split
    · next hlt =>
      obtain ⟨u, hu⟩ := Option.ne_none_iff_exists'.1 fun hfree => hbad ⟨hlt, hfree⟩
      exact h.not_exclusive ht id hu rfl
    · exact misuse_not_exclusive p t
  | recorded t =>
    simp only [FindsFree, not_forall] at hc
    obtain ⟨c, ht, hgone⟩ := hc
    simp only [pool, ht] at hs
    cases hs
    rw [recorded, if_neg hgone]
    exact misuse_not_exclusive p t
  | close t =>
    have hlocked : p.unlocked = false :=
      Bool.eq_false_iff.2 fun hfree => hc (unlocked_iff.1 hfree)
    simp only [pool] at hs
    split at hs
    · cases hs
      intro hex
      have hused := hex.used
      simp [DatabaseWorkerPool.close, setThread, hlocked] at hused
    · cases hs
  | call t => exact absurd trivial hc
  | unLock t => exact absurd trivial hc
  | prepareStatements t => exact absurd trivial hc
  | prepared t ok => exact absurd trivial hc

end DatabaseWorkerPool

open DatabaseWorkerPool

/-- **Mutual exclusion.** Every state of a run is exclusive exactly if every `TryLock` of the run
finds its connection there and its mutex free, `PrepareStatements` reads no connection that is gone,
and no mutex is locked when the pool is closed. -/
theorem exclusive_along_iff (asyncCount syncCount : Nat) (events : List PoolEvent) :
    (pool asyncCount syncCount).Along Exclusive (opened asyncCount syncCount) events ↔
      (pool asyncCount syncCount).Meets FindsFree (opened asyncCount syncCount) events :=
  Machine.along_iff_meets (fun _ h => h.exclusive) (fun _ _ _ h hc hs => h.step hc hs)
    (fun _ _ _ h hc hs => h.not_exclusive_step hc hs) (opened_locked asyncCount syncCount)

/-- Two threads and one connection: the second gets it while the first is using it. -/
theorem connection_shared : ¬∀ (asyncCount syncCount : Nat), 1 ≤ syncCount →
    ∀ events, (pool asyncCount syncCount).Along Exclusive (opened asyncCount syncCount) events := by
  intro h
  have hex := ((((h 0 1 (Nat.le_refl 1) [.call 0, .probe 0, .call 1, .probe 1]).2 _ rfl).2 _ rfl).2
    _ rfl).2 _ rfl
  exact Nat.zero_ne_one (hex.unique 0 1 0 rfl rfl)

end GameServer.Database
