import GameServer.Lib.Potential
import GameServer.Threading.QueueHistory

/-!
# Wake-ups

`notify_one` wakes a thread whenever one is blocked (`Notifies`); so far it could also wake none.
With it, a thread is blocked in `WaitAndPop()` while the queue has an element only if at least as
many threads as there are elements are on their way to take one, as long as the queue is not shut
down (`schedule_attended`).

Left alone, the threads come to rest: each statement lowers `pending`, and where no statement can be
executed every thread has returned or is blocked (`schedule_rests`). Neither a wake-up nor the lock
is lost.
-/

namespace GameServer.Threading

open GameServer.Lib Happening

namespace QueuePlace

variable {α : Type}

/-- In the wait, and not woken. -/
def blocked : QueuePlace α → Bool
  | waiting false => true
  | _ => false

/-- On the way to take an element, or to wake a thread that does. -/
def awake : QueuePlace α → Nat
  | notifying | testing | taking | waiting true => 1
  | _ => 0

/-- A bound on the statements that a call has before it among `n` threads; it counts the wake-ups
that it causes. -/
def rank (n : Nat) : QueuePlace α → Nat
  | idle | waiting false => 0
  | unlocking => 1
  | popping | taking => 2
  | testing => 3
  | waiting true => 4
  | notifying => 6
  | pushing _ => 8
  | closing => 4 * n + 2
  | clearing => 4 * n + 3
  | locking .clear => 4 * n + 4
  | locking (.push _) => 9
  | locking .pop => 3
  | locking .waitAndPop => 4

end QueuePlace

def QueueEvent.thread {α : Type} : QueueEvent α → Nat
  | call t _ | advance t _ | wakeSpuriously t => t

namespace QueueSystem

variable {α : Type}

/-- `notify_one` among `n` threads: a blocked thread is woken, if there is one. -/
def Notifies (n : Nat) (s : QueueSystem α) : Option Nat → Prop
  | none => ∀ u < n, (s.threads u).blocked = false
  | some u => (s.threads u).blocked = true

/-- The events of `n` threads. -/
def Scheduled (n : Nat) (s : QueueSystem α) (e : QueueEvent α) : Prop :=
  e.thread < n ∧
    match e with
    | .advance t woken =>
      match s.threads t with
      | .notifying => s.Notifies n woken
      | _ => True
    | _ => True

instance decidableNotifies (n : Nat) (s : QueueSystem α) :
    ∀ woken, Decidable (s.Notifies n woken)
  | none => inferInstanceAs (Decidable (∀ u < n, (s.threads u).blocked = false))
  | some u => inferInstanceAs (Decidable ((s.threads u).blocked = true))

instance decidableScheduled (n : Nat) (s : QueueSystem α) :
    ∀ e, Decidable (s.Scheduled n e)
  | .call t _ => inferInstanceAs (Decidable (t < n ∧ True))
  | .wakeSpuriously t => inferInstanceAs (Decidable (t < n ∧ True))
  | .advance t woken =>
    match h : s.threads t with
    | .notifying =>
      decidable_of_iff (t < n ∧ s.Notifies n woken) (by simp [Scheduled, QueueEvent.thread, h])
    | .idle | .locking _ | .pushing _ | .popping | .testing | .waiting _ | .taking | .clearing
    | .closing | .unlocking =>
      decidable_of_iff (t < n) (by simp [Scheduled, QueueEvent.thread, h])

end QueueSystem

/-- `n` threads, with `notify_one` as it is. -/
def schedule (n : Nat) (α : Type) : Machine (QueueSystem α) (QueueEvent α) :=
  (queueThreads α).restrict (QueueSystem.Scheduled n)

namespace QueueSystem

variable {α : Type} {s s' : QueueSystem α} {n t u : Nat}

theorem Scheduled.notifies {woken : Option Nat} (h : s.Scheduled n (.advance t woken))
    (hplace : s.threads t = .notifying) : s.Notifies n woken := by
  have hmatch := h.2
  simp only [hplace] at hmatch
  exact hmatch

/-- The number of threads on their way. -/
def attention (n : Nat) (s : QueueSystem α) : Nat := total QueuePlace.awake n s.threads

/-- A bound on the statements before the threads come to rest. -/
def pending (n : Nat) (s : QueueSystem α) : Nat :=
  total (QueuePlace.rank n) n s.threads + s.queue.queue.length

/-! ## The statements -/

/-- What the next statement of `t` does to the threads and to the queue. -/
inductive Executed (s s' : QueueSystem α) (t : Nat) (woken : Option Nat) : Prop
  | enter (call : QueueCall α) (ht : s.threads t = .locking call)
      (hthreads : s'.threads = Function.update s.threads t (entry call))
      (hqueue : s'.queue = s.queue)
  | push (value : α) (x : Nat × α) (ht : s.threads t = .pushing value)
      (hthreads : s'.threads = Function.update s.threads t .notifying)
      (hqueue : s'.queue = s.queue.push x)
  | notifyNone (ht : s.threads t = .notifying) (hwoken : woken = none)
      (hthreads : s'.threads = Function.update s.threads t .unlocking)
      (hqueue : s'.queue = s.queue)
  | notifySome (u : Nat) (ht : s.threads t = .notifying) (hwoken : woken = some u)
      (hthreads : s'.threads =
        Function.update (Function.update s.threads u (.waiting true)) t .unlocking)
      (hqueue : s'.queue = s.queue)
  | take (ht : s.threads t = .popping ∨ s.threads t = .taking)
      (hthreads : s'.threads = Function.update s.threads t .unlocking)
      (hqueue : s'.queue = s.queue.pop.2)
  | proceed (ht : s.threads t = .testing)
      (hthreads : s'.threads = Function.update s.threads t .taking)
      (hqueue : s'.queue = s.queue)
  | wait (ht : s.threads t = .testing) (hcond : s.queue.waitCondition = false)
      (hthreads : s'.threads = Function.update s.threads t (.waiting false))
      (hqueue : s'.queue = s.queue)
  | wake (ht : s.threads t = .waiting true)
      (hthreads : s'.threads = Function.update s.threads t .testing)
      (hqueue : s'.queue = s.queue)
  | delete (x : Nat × α) (ht : s.threads t = .clearing) (hthreads : s'.threads = s.threads)
      (hqueue : s.queue.queue = x :: s'.queue.queue)
      (hdown : s'.queue.shutdown = s.queue.shutdown)
  | finish (ht : s.threads t = .clearing)
      (hthreads : s'.threads = Function.update s.threads t .closing)
      (hqueue : s'.queue = s.queue)
  | close (ht : s.threads t = .closing)
      (hthreads : s'.threads = Function.update (fun u => notify (s.threads u)) t .unlocking)
      (hqueue : s'.queue.queue = s.queue.queue) (hdown : s'.queue.shutdown = true)
  | unlock (ht : s.threads t = .unlocking)
      (hthreads : s'.threads = Function.update s.threads t .idle)
      (hqueue : s'.queue = s.queue)

theorem lock_eq_some {place : QueuePlace α} (hs : s.lock t place = some s') :
    s'.threads = Function.update s.threads t place ∧ s'.queue = s.queue := by
  unfold lock at hs
  split at hs
  · cases hs
    exact ⟨rfl, rfl⟩
  · cases hs

theorem take_threads (s : QueueSystem α) (t : Nat) :
    (s.take t).threads = Function.update s.threads t .unlocking := by
  unfold take
  split <;> rfl

theorem take_executed {woken : Option Nat}
    (ht : s.threads t = .popping ∨ s.threads t = .taking) : Executed s (s.take t) t woken := by
  refine .take ht (take_threads s t) ?_
  unfold take
  split
  · next rest hpop =>
    rw [hpop]
    unfold ProducerConsumerQueue.pop at hpop
    split at hpop
    · cases hpop
      rfl
    · split at hpop
      · cases hpop
        rfl
      · cases hpop
  · next hpop =>
    rw [hpop]
    rfl

theorem clearFront_executed {woken : Option Nat} (ht : s.threads t = .clearing) :
    Executed s (s.clearFront t) t woken := by
  unfold clearFront
  split
  · exact .finish ht rfl rfl
  · next x rest hqueue => exact .delete x ht rfl hqueue rfl

theorem advance_executed {woken : Option Nat} (hs : s.advance t woken = some s') :
    Executed s s' t woken := by
  unfold advance at hs
  split at hs
  · cases hs
  · next ht =>
    obtain ⟨v, hv, rfl⟩ := Option.map_eq_some_iff.1 hs
    obtain ⟨hthreads, hqueue⟩ := lock_eq_some hv
    exact .enter .clear ht hthreads hqueue
  · next call _ ht =>
    obtain ⟨hthreads, hqueue⟩ := lock_eq_some hs
    exact .enter call ht hthreads hqueue
  · next value ht =>
    cases hs
    exact .push value _ ht rfl rfl
  · next ht =>
    obtain ⟨v, hv, rfl⟩ := Option.map_eq_some_iff.1 hs
    unfold notifyOne at hv
    split at hv
    · cases hv
      exact .notifyNone ht rfl rfl rfl
    · next u =>
      split at hv
      · cases hv
        exact .notifySome u ht rfl rfl rfl
      · cases hv
  · next ht =>
    cases hs
    exact take_executed (.inl ht)
  · next ht =>
    split at hs
    · cases hs
      exact .proceed ht rfl rfl
    · next hcond =>
      cases hs
      exact .wait ht (Bool.not_eq_true _ ▸ hcond) rfl rfl
  · next notified ht =>
    split at hs
    · next hnotified =>
      obtain ⟨hthreads, hqueue⟩ := lock_eq_some hs
      rw [hnotified] at ht
      exact .wake ht hthreads hqueue
    · cases hs
  · next ht =>
    cases hs
    exact take_executed (.inr ht)
  · next ht =>
    cases hs
    exact clearFront_executed ht
  · next ht =>
    cases hs
    exact .close ht rfl rfl rfl
  · next ht =>
    cases hs
    exact .unlock ht rfl rfl

/-! ## No wake-up is lost -/

structure Attended (n : Nat) (s : QueueSystem α) : Prop where
  ledger : s.Ledger
  idle : ∀ t, n ≤ t → s.threads t = .idle
  enough : s.queue.shutdown = false → (∃ t, (s.threads t).blocked = true) →
    s.queue.queue.length ≤ s.attention n

theorem initial_attended (n : Nat) : (initial : QueueSystem α).Attended n where
  ledger := initial_ledger
  idle _ _ := rfl
  enough _ _ := Nat.zero_le _

/-- A thread that is blocked or on its way is one of the `n`. -/
theorem Attended.lt (h : s.Attended n) (ht : s.threads t ≠ .idle) : t < n := by
  by_contra hge
  exact ht (h.idle t (Nat.le_of_not_lt hge))

/-- The thread that a notification wakes is blocked, and not the one that notifies. -/
theorem Attended.notified {u : Nat} (h : s.Attended n) (hplace : s.threads t = .notifying)
    (hu : s.Notifies n (some u)) : (s.threads u).blocked = true ∧ u < n ∧ t ≠ u := by
  change (s.threads u).blocked = true at hu
  refine ⟨hu, h.lt fun hidle => ?_, ?_⟩
  · rw [hidle] at hu
    cases hu
  · rintro rfl
    rw [hplace] at hu
    cases hu

theorem idle_update {place : QueuePlace α} {f : Nat → QueuePlace α}
    (hf : ∀ u, n ≤ u → f u = .idle) (ht : t < n) :
    ∀ u, n ≤ u → Function.update f t place u = .idle := by
  intro u hu
  rw [Function.update_of_ne (by omega)]
  exact hf u hu

/-- The threads stay enough when `t` moves, but not into the wait: it takes what it was on its way
for, or it is the one that pushes. -/
theorem enough_update {place : QueuePlace α} (h : s.Attended n) (ht : t < n)
    (hplace : place.blocked = false)
    (hthreads : s'.threads = Function.update s.threads t place)
    (hdown : s'.queue.shutdown = s.queue.shutdown)
    (hlength : s.queue.shutdown = false → s'.queue.queue = [] ∨
      s'.queue.queue.length + (s.threads t).awake ≤ s.queue.queue.length + place.awake) :
    s'.queue.shutdown = false → (∃ u, (s'.threads u).blocked = true) →
      s'.queue.queue.length ≤ s'.attention n := by
  rintro hopen ⟨u, hu⟩
  rw [hdown] at hopen
  rcases hlength hopen with hempty | hle
  · rw [hempty]
    exact Nat.zero_le _
  · have hne : u ≠ t := by
      rintro rfl
      rw [hthreads, Function.update_self, hplace] at hu
      cases hu
    rw [hthreads, Function.update_of_ne hne] at hu
    have henough := h.enough hopen ⟨u, hu⟩
    have htotal := total_update (w := QueuePlace.awake) (f := s.threads) ht place
    unfold attention at henough ⊢
    rw [hthreads]
    omega

theorem pop_length {q : ProducerConsumerQueue (Nat × α)} (h : q.shutdown = false) :
    q.pop.2.queue.length = q.queue.length - 1 := by
  unfold ProducerConsumerQueue.pop
  split
  · next hq => rw [hq]; rfl
  · next hq =>
    rw [if_neg (by rw [h]; exact Bool.false_ne_true), hq]
    rfl

theorem advance_enough {woken : Option Nat} (h : s.Attended n) (ht : t < n)
    (hnotifies : s.threads t = .notifying → s.Notifies n woken)
    (he : Executed s s' t woken) :
    s'.queue.shutdown = false → (∃ u, (s'.threads u).blocked = true) →
      s'.queue.queue.length ≤ s'.attention n := by
  cases he with
  | enter call hplace hthreads hqueue =>
    refine enough_update h ht ?_ hthreads (by rw [hqueue]) fun _ => .inr ?_
    · cases call <;> rfl
    · rw [hplace, hqueue]
      exact Nat.le_add_right ..
  | push value x hplace hthreads hqueue =>
    refine enough_update h ht rfl hthreads (by rw [hqueue]; rfl) fun _ => .inr ?_
    rw [hplace, hqueue]
    simp [ProducerConsumerQueue.push, QueuePlace.awake]
  | notifyNone hplace hwoken hthreads hqueue =>
    -- no thread is blocked
    rintro - ⟨u, hu⟩
    by_cases hut : u = t
    · rw [hut, hthreads, Function.update_self] at hu
      cases hu
    · rw [hthreads, Function.update_of_ne hut] at hu
      have hlt : u < n := h.lt fun hidle => by rw [hidle] at hu; cases hu
      have hnone := hnotifies hplace
      rw [hwoken] at hnone
      rw [hnone u hlt] at hu
      cases hu
  | notifySome u hplace hwoken hthreads hqueue =>
    obtain ⟨hu, hlt, hut⟩ := h.notified hplace (hwoken ▸ hnotifies hplace)
    have hawake : (s.threads u).awake = 0 := by
      cases hp : s.threads u with
      | waiting notified =>
        rw [hp] at hu
        cases notified with
        | true => cases hu
        | false => rfl
      | _ => rw [hp] at hu; cases hu
    rintro hopen -
    rw [hqueue] at hopen ⊢
    have henough := h.enough hopen ⟨u, hu⟩
    have htotal := total_update_update (w := QueuePlace.awake) (f := s.threads) ht hlt hut
      (.waiting true) .unlocking
    unfold attention at henough ⊢
    rw [hthreads]
    rw [hplace, hawake] at htotal
    simp only [QueuePlace.awake] at htotal
    omega
  | take hplace hthreads hqueue =>
    refine enough_update h ht rfl hthreads ?_ fun hopen => ?_
    · rw [hqueue, ProducerConsumerQueue.pop_shutdown]
    · rw [hqueue, pop_length hopen]
      cases hq : s.queue.queue with
      | nil =>
        left
        rw [← List.length_eq_zero_iff, pop_length hopen, hq]
        rfl
      | cons x rest =>
        right
        have hle : (s.threads t).awake ≤ 1 := by
          rcases hplace with hp | hp <;> rw [hp] <;> exact Nat.le_of_ble_eq_true rfl
        rw [List.length_cons]
        omega
  | proceed hplace hthreads hqueue =>
    refine enough_update h ht rfl hthreads (by rw [hqueue]) fun _ => .inr ?_
    rw [hplace, hqueue]
    exact Nat.le_refl _
  | wait hplace hcond hthreads hqueue =>
    -- it waits, so there is nothing to take
    rintro hopen -
    rw [hqueue] at hopen ⊢
    unfold ProducerConsumerQueue.waitCondition at hcond
    rw [hopen, Bool.not_false, Bool.and_true, Bool.not_eq_false', List.isEmpty_iff] at hcond
    rw [hcond]
    exact Nat.zero_le _
  | wake hplace hthreads hqueue =>
    refine enough_update h ht rfl hthreads (by rw [hqueue]) fun _ => .inr ?_
    rw [hplace, hqueue]
    exact Nat.le_refl _
  | delete x hplace hthreads hqueue hdown =>
    rintro hopen hblocked
    rw [hdown] at hopen
    rw [hthreads] at hblocked
    have henough := h.enough hopen hblocked
    rw [hqueue, List.length_cons] at henough
    unfold attention at henough ⊢
    rw [hthreads]
    omega
  | finish hplace hthreads hqueue =>
    refine enough_update h ht rfl hthreads (by rw [hqueue]) fun _ => .inr ?_
    rw [hplace, hqueue]
    exact Nat.le_refl _
  | close hplace hthreads hqueue hdown =>
    rintro hopen -
    rw [hdown] at hopen
    cases hopen
  | unlock hplace hthreads hqueue =>
    refine enough_update h ht rfl hthreads (by rw [hqueue]) fun _ => .inr ?_
    rw [hplace, hqueue]
    exact Nat.le_refl _

/-- A statement leaves the other threads that have no call where they are. -/
theorem Executed.idle {woken : Option Nat} (he : Executed s s' t woken) (hu : u ≠ t)
    (hidle : s.threads u = .idle) (hblocked : ∀ v, s.threads t = .notifying → woken = some v →
      (s.threads v).blocked = true) : s'.threads u = .idle := by
  have hupdate : ∀ place, s'.threads = Function.update s.threads t place →
      s'.threads u = .idle := by
    intro place hthreads
    rw [hthreads, Function.update_of_ne hu, hidle]
  cases he with
  | notifySome v hplace hwoken hthreads hqueue =>
    have hne : u ≠ v := by
      rintro rfl
      have hv := hblocked u hplace hwoken
      rw [hidle] at hv
      cases hv
    rw [hthreads, Function.update_of_ne hu, Function.update_of_ne hne, hidle]
  | close hplace hthreads hqueue hdown =>
    rw [hthreads, Function.update_of_ne hu, hidle]
    rfl
  | delete x hplace hthreads hqueue hdown => rw [hthreads, hidle]
  | enter call hplace hthreads hqueue => exact hupdate _ hthreads
  | push value x hplace hthreads hqueue => exact hupdate _ hthreads
  | notifyNone hplace hwoken hthreads hqueue => exact hupdate _ hthreads
  | take hplace hthreads hqueue => exact hupdate _ hthreads
  | proceed hplace hthreads hqueue => exact hupdate _ hthreads
  | wait hplace hcond hthreads hqueue => exact hupdate _ hthreads
  | wake hplace hthreads hqueue => exact hupdate _ hthreads
  | finish hplace hthreads hqueue => exact hupdate _ hthreads
  | unlock hplace hthreads hqueue => exact hupdate _ hthreads

/-- A thread enters the lock, or is woken without a notification: the queue stays as it is. -/
theorem outside_attended {place : QueuePlace α} (h : s.Attended n) (ht : t < n)
    (hledger : (s.moveTo t place).Ledger) (hplace : place.blocked = false)
    (hawake : (s.threads t).awake ≤ place.awake) : (s.moveTo t place).Attended n where
  ledger := hledger
  idle := idle_update h.idle ht
  enough := enough_update h ht hplace rfl rfl fun _ => .inr (Nat.add_le_add_left hawake _)

theorem step_attended {e : QueueEvent α} (h : s.Attended n)
    (hs : (schedule n α).step s e = some s') : s'.Attended n := by
  obtain ⟨hscheduled, hstep⟩ := Machine.restrict_step_eq_some.1 hs
  obtain ⟨v, heffect⟩ := step_effect hstep
  have hledger : s'.Ledger := h.ledger.step heffect
  cases e with
  | call t call =>
    simp only [queueThreads] at hstep
    split at hstep
    · next hplace =>
      cases hstep
      exact outside_attended h hscheduled.1 hledger rfl (by rw [hplace]; exact Nat.le_refl _)
    · cases hstep
  | wakeSpuriously t =>
    simp only [queueThreads] at hstep
    split at hstep
    · next notified hplace =>
      cases hstep
      refine outside_attended h hscheduled.1 hledger rfl ?_
      rw [hplace]
      cases notified with
      | true => exact Nat.le_refl _
      | false => exact Nat.zero_le _
    · cases hstep
  | advance t woken =>
    have he : Executed s s' t woken := advance_executed hstep
    have ht : t < n := hscheduled.1
    refine ⟨hledger, fun u hu => ?_, advance_enough h ht hscheduled.notifies he⟩
    refine he.idle (Nat.ne_of_gt (Nat.lt_of_lt_of_le ht hu)) (h.idle u hu) fun v hplace hwoken => ?_
    have hblocked := hscheduled.notifies hplace
    rwa [hwoken] at hblocked

theorem reach_attended (h : (schedule n α).Reach s) : s.Attended n := by
  refine h.invariant (I := Attended n) ?_ fun s e s' hs _ hstep => step_attended hs hstep
  rintro s rfl
  exact initial_attended n

/-! ## The threads come to rest -/

/-- A statement, not a call or a wake-up from outside. -/
def Internal : QueueEvent α → Prop
  | .advance .. => True
  | _ => False

/-- Every call has returned or is blocked in the wait. -/
structure Resting (s : QueueSystem α) : Prop where
  free : s.owner = none
  threads : ∀ t, s.threads t = .idle ∨ s.threads t = .waiting false
  delivered : s.queue.shutdown = false → (∃ t, s.threads t = .waiting false) →
    pushedOf s.history = (deliveredOf s.history).map Prod.snd

theorem pop_le (q : ProducerConsumerQueue (Nat × α)) : q.pop.2.queue.length ≤ q.queue.length := by
  unfold ProducerConsumerQueue.pop
  split
  · exact Nat.le_refl _
  · next hq =>
    split
    · exact Nat.le_refl _
    · rw [hq]
      exact Nat.le_succ _

/-- The rank of `t` pays for its statement. -/
theorem pending_update {place : QueuePlace α} (ht : t < n)
    (hthreads : s'.threads = Function.update s.threads t place)
    (hlt : place.rank n + s'.queue.queue.length <
      (s.threads t).rank n + s.queue.queue.length) : s'.pending n < s.pending n := by
  have htotal := total_update (w := QueuePlace.rank n) (f := s.threads) ht place
  unfold pending
  rw [hthreads]
  omega

theorem advance_pending {woken : Option Nat} (h : s.Attended n) (ht : t < n)
    (hnotifies : s.threads t = .notifying → s.Notifies n woken)
    (he : Executed s s' t woken) : s'.pending n < s.pending n := by
  cases he with
  | enter call hplace hthreads hqueue =>
    refine pending_update ht hthreads ?_
    rw [hplace, hqueue]
    cases call <;> simp only [entry, QueuePlace.rank] <;> omega
  | push value x hplace hthreads hqueue =>
    refine pending_update ht hthreads ?_
    rw [hplace, hqueue]
    simp only [ProducerConsumerQueue.push, QueuePlace.rank, List.length_append,
      List.length_singleton]
    omega
  | notifySome u hplace hwoken hthreads hqueue =>
    obtain ⟨-, hlt, hut⟩ := h.notified hplace (hwoken ▸ hnotifies hplace)
    have htotal := total_update_update (w := QueuePlace.rank n) (f := s.threads) ht hlt hut
      (.waiting true) .unlocking
    unfold pending
    rw [hthreads, hqueue]
    rw [hplace] at htotal
    simp only [QueuePlace.rank] at htotal
    omega
  | take hplace hthreads hqueue =>
    refine pending_update ht hthreads ?_
    have hle := pop_le s.queue
    rw [hqueue]
    rcases hplace with hplace | hplace <;> rw [hplace] <;> simp only [QueuePlace.rank] <;> omega
  | delete x hplace hthreads hqueue hdown =>
    unfold pending
    rw [hthreads, hqueue, List.length_cons]
    omega
  | close hplace hthreads hqueue hdown =>
    have hnotify : ∀ place : QueuePlace α, (notify place).rank n ≤ place.rank n + 4 := by
      intro place
      cases place with
      | waiting notified => cases notified <;> simp [notify, QueuePlace.rank]
      | _ => exact Nat.le_add_right ..
    have htotal := total_comp_le (n := n) (f := s.threads) hnotify
    have hupdate := total_update (w := QueuePlace.rank n) (f := fun u => notify (s.threads u)) ht
      .unlocking
    have hclosing : (notify (s.threads t)).rank n = 4 * n + 2 := by
      rw [hplace]
      rfl
    have hunlocking : (QueuePlace.unlocking : QueuePlace α).rank n = 1 := rfl
    unfold pending
    rw [hthreads, hqueue]
    omega
  | notifyNone hplace hwoken hthreads hqueue =>
    refine pending_update ht hthreads ?_
    rw [hplace, hqueue]
    simp only [QueuePlace.rank]
    omega
  | proceed hplace hthreads hqueue =>
    refine pending_update ht hthreads ?_
    rw [hplace, hqueue]
    simp only [QueuePlace.rank]
    omega
  | wait hplace hcond hthreads hqueue =>
    refine pending_update ht hthreads ?_
    rw [hplace, hqueue]
    simp only [QueuePlace.rank]
    omega
  | wake hplace hthreads hqueue =>
    refine pending_update ht hthreads ?_
    rw [hplace, hqueue]
    simp only [QueuePlace.rank]
    omega
  | finish hplace hthreads hqueue =>
    refine pending_update ht hthreads ?_
    rw [hplace, hqueue]
    simp only [QueuePlace.rank]
    omega
  | unlock hplace hthreads hqueue =>
    refine pending_update ht hthreads ?_
    rw [hplace, hqueue]
    simp only [QueuePlace.rank]
    omega

/-- The thread that has the lock can go on. -/
theorem exists_advance_of_holds (h : (s.threads t).holds = true) :
    ∃ woken s', (s.threads t = .notifying → s.Notifies n woken) ∧ s.advance t woken = some s' := by
  cases hplace : s.threads t with
  | notifying =>
    by_cases hsome : ∃ u < n, (s.threads u).blocked = true
    · obtain ⟨u, -, hu⟩ := hsome
      cases hp : s.threads u with
      | waiting notified =>
        refine ⟨some u, (s.moveTo u (.waiting true)).moveTo t .unlocking, fun _ => hu, ?_⟩
        unfold advance notifyOne
        rw [hplace]
        dsimp only
        rw [hp]
        rfl
      | _ => rw [hp] at hu; cases hu
    · refine ⟨none, s.moveTo t .unlocking, fun _ u hu => ?_, ?_⟩
      · exact Bool.eq_false_iff.2 fun hblocked => hsome ⟨u, hu, hblocked⟩
      · unfold advance
        rw [hplace]
        rfl
  | testing =>
    cases hcond : s.queue.waitCondition with
    | true =>
      refine ⟨none, s.moveTo t .taking, nofun, ?_⟩
      unfold advance
      rw [hplace]
      exact if_pos hcond
    | false =>
      refine ⟨none, s.unlock t (.waiting false), nofun, ?_⟩
      unfold advance
      rw [hplace]
      exact if_neg (by rw [hcond]; exact Bool.false_ne_true)
  | pushing value => exact ⟨none, s.push t value, nofun, by unfold advance; rw [hplace]⟩
  | popping => exact ⟨none, s.take t, nofun, by unfold advance; rw [hplace]⟩
  | taking => exact ⟨none, s.take t, nofun, by unfold advance; rw [hplace]⟩
  | clearing => exact ⟨none, s.clearFront t, nofun, by unfold advance; rw [hplace]⟩
  | closing => exact ⟨none, s.close t, nofun, by unfold advance; rw [hplace]⟩
  | unlocking => exact ⟨none, s.unlock t .idle, nofun, by unfold advance; rw [hplace]⟩
  | idle => rw [hplace] at h; cases h
  | locking call => rw [hplace] at h; cases h
  | waiting notified => rw [hplace] at h; cases h

/-- A thread that is about to take the lock can take it if it is free. -/
theorem exists_advance_of_free (hfree : s.owner = none)
    (h : (∃ call, s.threads t = .locking call) ∨ s.threads t = .waiting true) :
    ∃ s', s.advance t none = some s' := by
  have hlock : ∀ place, s.lock t place = some ({ s with owner := some t }.moveTo t place) := by
    intro place
    unfold lock
    rw [hfree]
  rcases h with ⟨call, hplace⟩ | hplace
  · cases call with
    | clear =>
      refine ⟨({ s with owner := some t }.moveTo t .clearing).record .cleared, ?_⟩
      unfold advance
      rw [hplace]
      dsimp only
      rw [hlock .clearing]
      rfl
    | push value => exact ⟨_, by unfold advance; rw [hplace]; exact hlock _⟩
    | pop => exact ⟨_, by unfold advance; rw [hplace]; exact hlock _⟩
    | waitAndPop => exact ⟨_, by unfold advance; rw [hplace]; exact hlock _⟩
  · refine ⟨{ s with owner := some t }.moveTo t .testing, ?_⟩
    unfold advance
    rw [hplace]
    exact (if_pos rfl).trans (hlock .testing)

/-- No thread has a statement that can be executed. -/
def Stuck (n : Nat) (s : QueueSystem α) : Prop :=
  ∀ e, Internal e → (schedule n α).step s e = none

theorem stuck_of_idle (h : ∀ t < n, s.threads t = .idle) : s.Stuck n := by
  intro e he
  by_contra hne
  obtain ⟨s', hs'⟩ := Option.ne_none_iff_exists'.1 hne
  obtain ⟨hscheduled, hstep⟩ := Machine.restrict_step_eq_some.1 hs'
  cases e with
  | call t call => cases he
  | wakeSpuriously t => cases he
  | advance t woken =>
    change s.advance t woken = some s' at hstep
    unfold advance at hstep
    rw [h t hscheduled.1] at hstep
    cases hstep

theorem Stuck.advance {woken : Option Nat} (h : s.Stuck n) (ht : t < n)
    (hnotifies : s.threads t = .notifying → s.Notifies n woken) : s.advance t woken ≠ some s' := by
  intro hadvance
  have hscheduled : s.Scheduled n (.advance t woken) := by
    refine ⟨ht, ?_⟩
    dsimp only
    split
    · next hplace => exact hnotifies hplace
    · trivial
  have hstep : (schedule n α).step s (.advance t woken) = some s' :=
    Machine.restrict_step_eq_some.2 ⟨hscheduled, hadvance⟩
  rw [h (.advance t woken) trivial] at hstep
  cases hstep

theorem Attended.free (h : s.Attended n) (hstuck : s.Stuck n) : s.owner = none := by
  cases howner : s.owner with
  | none => rfl
  | some t =>
    have hholds := (h.ledger.holds_iff t).2 howner
    have ht : t < n := h.lt fun hidle => by rw [hidle] at hholds; cases hholds
    obtain ⟨woken, s', hnotifies, hadvance⟩ := exists_advance_of_holds (n := n) hholds
    exact absurd hadvance (hstuck.advance ht hnotifies)

theorem Attended.stopped (h : s.Attended n) (hstuck : s.Stuck n) (t : Nat) :
    s.threads t = .idle ∨ s.threads t = .waiting false := by
  have hfree := h.free hstuck
  by_contra hplace
  rw [not_or] at hplace
  have hholds : (s.threads t).holds ≠ true := by
    intro hholds
    rw [h.ledger.holds_iff, hfree] at hholds
    cases hholds
  have hentry : (∃ call, s.threads t = .locking call) ∨ s.threads t = .waiting true := by
    cases hp : s.threads t with
    | locking call => exact .inl ⟨call, rfl⟩
    | waiting notified =>
      cases notified with
      | true => exact .inr rfl
      | false => exact absurd hp hplace.2
    | idle => exact absurd hp hplace.1
    | _ => rw [hp] at hholds; exact absurd rfl hholds
  obtain ⟨s', hadvance⟩ := exists_advance_of_free hfree hentry
  refine hstuck.advance (h.lt hplace.1) (fun hp => ?_) hadvance
  rw [hp] at hholds
  exact absurd rfl hholds

/-- Where no statement can be executed, the threads are at rest. -/
theorem Attended.resting (h : s.Attended n) (hstuck : s.Stuck n) : s.Resting where
  free := h.free hstuck
  threads := h.stopped hstuck
  delivered := by
    rintro hopen ⟨t, ht⟩
    have hquiet : s.attention n = 0 := by
      unfold attention total
      refine Finset.sum_eq_zero fun u _ => ?_
      rcases h.stopped hstuck u with hu | hu <;> rw [hu] <;> rfl
    have hempty : s.queue.queue = [] := by
      have henough := h.enough hopen ⟨t, by rw [ht]; rfl⟩
      rw [hquiet] at henough
      exact List.eq_nil_of_length_eq_zero (Nat.le_zero.1 henough)
    have hclear : cleared ∉ s.history := by
      intro hmem
      rcases h.ledger.shut hmem with hdown | ⟨u, hu⟩
      · rw [hopen] at hdown
        cases hdown
      · rcases h.stopped hstuck u with hp | hp <;> rw [hp] at hu <;> cases hu
    rw [h.ledger.order, h.ledger.intact hclear, hempty, List.append_nil, List.append_nil]

/-- Statements alone are bounded in number. -/
theorem Attended.length_add_le {as : List (QueueEvent α)} (h : s.Attended n)
    (hinternal : ∀ e ∈ as, Internal e) (hrun : (schedule n α).run s as = some s') :
    s'.Attended n ∧ as.length + s'.pending n ≤ s.pending n := by
  refine Machine.length_add_le (C := fun _ e => Internal e) (pending n) ?_ h
    (Machine.meets_of_forall hinternal) hrun
  intro s e s' hs he hstep
  refine ⟨step_attended hs hstep, ?_⟩
  cases e with
  | call t call => cases he
  | wakeSpuriously t => cases he
  | advance t woken =>
    obtain ⟨hscheduled, hadvance⟩ := Machine.restrict_step_eq_some.1 hstep
    exact advance_pending hs hscheduled.1 hscheduled.notifies (advance_executed hadvance)

end QueueSystem

open QueueSystem

/-- **No wake-up is lost.** Whatever `n` threads do, as long as the queue is not shut down, a thread
is blocked in the wait only if at least as many threads are on their way as there are elements. -/
theorem schedule_attended {α : Type} {n : Nat} {s : QueueSystem α} (h : (schedule n α).Reach s)
    (hopen : s.queue.shutdown = false) {t : Nat} (ht : s.threads t = .waiting false) :
    s.queue.queue.length ≤ s.attention n :=
  (reach_attended h).enough hopen ⟨t, by rw [ht]; rfl⟩

/-- A thread is blocked, and another one has pushed and is about to notify. -/
def waitPush : List (QueueEvent String) :=
  [.call 0 .waitAndPop, .advance 0 none, .advance 0 none, .call 1 (.push "a"), .advance 1 none,
    .advance 1 none]

theorem schedule_attended_waitPush : ∃ s : QueueSystem String,
    (schedule 2 String).run .initial waitPush = some s ∧ s.queue.queue = [(0, "a")] ∧
      s.queue.queue.length ≤ s.attention 2 := by
  have hrun : ∃ s : QueueSystem String, (schedule 2 String).run .initial waitPush = some s ∧
      s.queue = ⟨[(0, "a")], false⟩ ∧ s.threads 0 = .waiting false := ⟨_, rfl, rfl, rfl⟩
  obtain ⟨s, hs, hqueue, ht⟩ := hrun
  exact ⟨s, hs, by rw [hqueue],
    schedule_attended (Machine.reach_of_run rfl hs) (by rw [hqueue]) ht⟩

/-- **The threads come to rest.** From any state that `n` threads reach, they execute at most
`pending` statements, unless a call begins or a thread is woken from outside; where they stop, the
lock is free and each thread has returned or is blocked. If one is blocked and the queue is not shut
down, everything that was pushed was delivered. -/
theorem schedule_rests {α : Type} {n : Nat} {s s' : QueueSystem α} {as : List (QueueEvent α)}
    (h : (schedule n α).Reach s) (hinternal : ∀ e ∈ as, Internal e)
    (hrun : (schedule n α).run s as = some s') :
    as.length ≤ s.pending n ∧ (s'.Stuck n → s'.Resting) := by
  obtain ⟨hattended, hle⟩ := (reach_attended h).length_add_le hinternal hrun
  exact ⟨Nat.le_trans (Nat.le_add_right ..) hle, hattended.resting⟩

/-- The blocked thread is woken and takes what was pushed. -/
def takePushed : List (QueueEvent String) :=
  [.advance 1 (some 0), .advance 1 none, .advance 0 none, .advance 0 none, .advance 0 none,
    .advance 0 none]

theorem schedule_rests_takePushed : ∃ s s' : QueueSystem String,
    (schedule 2 String).run .initial waitPush = some s ∧
      (schedule 2 String).run s takePushed = some s' ∧
      s'.history = [.pushed (0, "a"), .delivered 0 (0, "a")] ∧
      takePushed.length ≤ s.pending 2 ∧ s'.Resting := by
  have hrun : ∃ s s' : QueueSystem String,
      (schedule 2 String).run .initial waitPush = some s ∧
        (schedule 2 String).run s takePushed = some s' ∧
        s'.history = [.pushed (0, "a"), .delivered 0 (0, "a")] ∧
        s'.threads 0 = .idle ∧ s'.threads 1 = .idle := ⟨_, _, rfl, rfl, rfl, rfl, rfl⟩
  obtain ⟨s, s', hs, hs', hhistory, hzero, hone⟩ := hrun
  have hinternal : ∀ e ∈ takePushed, Internal e := by
    intro e he
    simp only [takePushed, List.mem_cons, List.not_mem_nil, or_false] at he
    rcases he with rfl | rfl | rfl | rfl | rfl | rfl <;> trivial
  have hstuck : s'.Stuck 2 := by
    apply stuck_of_idle
    intro t ht
    obtain rfl | rfl : t = 0 ∨ t = 1 := by omega
    · exact hzero
    · exact hone
  obtain ⟨hle, hrests⟩ := schedule_rests (Machine.reach_of_run rfl hs) hinternal hs'
  exact ⟨s, s', hs, hs', hhistory, hle, hrests hstuck⟩

end GameServer.Threading
