import GameServer.Net.Session

/-!
# A closed session

`_closed` is looked at by `CloseSession`, `Update` and the destructor only. The error branches of
both completion handlers close the session and start nothing, but `SendMsg`, `SendProtoMessage`,
the read loop and the write loop go on as before when something else has closed it.
`closed_session_quiet_iff` says which steps a closed session can take without starting anything.

`lifetime` adds the read loop and `IServer::Update` to the write side. A `ReadHandler` is the time
between the completion of a read and `readHandled`; what it calls on the session are events of
that time. `late` counts what was started or queued with `_closed` set, and no code reads it.
-/

namespace GameServer.Net

open GameServer.Lib

structure LiveSession where
  session : ISession
  /-- How many `async_read_some` have been started and are not complete. -/
  reads : Nat
  /-- How many completed reads are in their `ReadHandler`. -/
  handling : Nat
  /-- `IServer` holds the session in `_sessions`. -/
  listed : Bool
  late : Nat
  deriving DecidableEq, Repr

/-- The writes that are started and the messages that are queued between `s` and `t`. -/
def ISession.growth (s t : ISession) : Nat :=
  (t.outstanding.length - s.outstanding.length) +
    (t.writeBufferQueue.length - s.writeBufferQueue.length)

namespace LiveSession

/-- After `StartSession`. -/
def started : LiveSession := ⟨ISession.fresh, 1, 0, true, 0⟩

def count (s : LiveSession) (n : Nat) : Nat := if s.session.closed then s.late + n else s.late

def asyncRead (s : LiveSession) : LiveSession := { s with reads := s.reads + 1, late := s.count 1 }

/-- The completion handler of a read, as far as `ReadHandler`. -/
def readHandler (s : LiveSession) (failed : Bool) : LiveSession :=
  if failed then { s with session := s.session.closeSession }
  else { s with handling := s.handling + 1 }

/-- What `IServer::Update` does with the session: one that is closed is closed again and let go. -/
def update (s : LiveSession) : LiveSession :=
  if s.listed && s.session.closed then
    { s with session := s.session.closeSession, listed := false }
  else s

end LiveSession

inductive LifetimeEvent where
  | session (e : SessionEvent)
  | readDone (failed : Bool)
  | readHandled
  | update

def lifetime : Machine LiveSession LifetimeEvent where
  init s := s = LiveSession.started
  step s
    | .session e => (session.step s.session e).map fun t =>
        { s with session := t, late := s.count (s.session.growth t) }
    | .readDone failed =>
      if s.reads = 0 then none else some ({ s with reads := s.reads - 1 }.readHandler failed)
    | .readHandled =>
      if s.handling = 0 then none else some { s with handling := s.handling - 1 }.asyncRead
    | .update => some s.update

namespace ISession

/-- The event starts no write and queues nothing: no message with bytes to write, and no handler
of a successful write that leaves something in the queue. -/
def StartsNothing (s : ISession) : SessionEvent → Prop
  | .sendMsg message => message.1.readableBytes = 0
  | .sendProtoMessage serialized => serialized = none
  | .runHandler i => ∀ k, s.completed[i]? = some (some k) →
      ∃ b, s.writeBufferQueue = [b] ∧ (b.readDone k).readableBytes = 0
  | _ => True

theorem growth_self (s : ISession) : s.growth s = 0 := by
  simp [growth]

theorem growth_asyncWrite {s t : ISession} (hq : t.writeBufferQueue ≠ [])
    (ho : t.outstanding = s.outstanding) : s.growth t.asyncWrite ≠ 0 := by
  unfold asyncWrite
  split
  · next heq => exact absurd heq hq
  · simp [growth, ho]

theorem growth_sendMsg (s : ISession) (message : MessageBuffer) :
    s.growth (s.sendMsg message) = 0 ↔ message.readableBytes = 0 := by
  unfold sendMsg
  split
  · next hle => exact iff_of_true s.growth_self (Nat.le_zero.1 hle)
  · next hle =>
    refine iff_of_false (growth_asyncWrite ?_ rfl) fun h => hle (Nat.le_of_eq h)
    simp

theorem growth_sendProtoMessage (s : ISession) (serialized : Option (List UInt8)) :
    s.growth (s.sendProtoMessage serialized) = 0 ↔ serialized = none := by
  cases serialized with
  | none => exact iff_of_true s.growth_self rfl
  | some bytes =>
    refine iff_of_false (growth_asyncWrite ?_ rfl) (Option.some_ne_none bytes)
    simp

theorem growth_perform {s t : ISession} {result : Option Nat} (ht : s.perform result = some t) :
    s.growth t = 0 := by
  unfold perform at ht
  split at ht
  · cases ht
  · next region rest heq =>
    cases result with
    | none =>
      simp only [Option.some.injEq] at ht
      subst ht
      simp [growth, heq]
    | some k =>
      simp only [Option.ite_none_right_eq_some, Option.some.injEq] at ht
      obtain ⟨-, rfl⟩ := ht
      simp [growth, heq]

theorem growth_writeHandler {s t : ISession} {k : Nat} (ht : s.writeHandler (some k) = some t) :
    s.growth t = 0 ↔ ∃ b, s.writeBufferQueue = [b] ∧ (b.readDone k).readableBytes = 0 := by
  obtain ⟨buff, rest, queue, hq, hqueue, hcases⟩ := writeHandler_success ht
  have hleft : queue = [] ↔ ∃ b, s.writeBufferQueue = [b] ∧ (b.readDone k).readableBytes = 0 := by
    rw [← hqueue, hq]
    split
    · next hz =>
      constructor
      · rintro rfl
        exact ⟨buff, rfl, hz⟩
      · rintro ⟨b, hb, -⟩
        exact (List.cons.inj hb).2
    · next hz =>
      refine iff_of_false (List.cons_ne_nil _ _) ?_
      rintro ⟨b, hb, hbz⟩
      rw [(List.cons.inj hb).1] at hz
      exact hz hbz
  rw [← hleft]
  rcases hcases with ⟨hempty, rfl⟩ | ⟨hne, rfl⟩
  · refine iff_of_true ?_ hempty
    split <;> simp [growth, closeSession]
  · exact iff_of_false (growth_asyncWrite (t := { s with writeBufferQueue := queue }) hne rfl) hne

theorem growth_runHandler {s t : ISession} {i : Nat} (ht : s.runHandler i = some t) :
    s.growth t = 0 ↔ s.StartsNothing (.runHandler i) := by
  unfold runHandler at ht
  cases hget : s.completed[i]? with
  | none => rw [hget] at ht; cases ht
  | some result =>
    rw [hget] at ht
    cases result with
    | none =>
      simp only [writeHandler, Option.some.injEq] at ht
      subst ht
      refine iff_of_true (by simp [growth, closeSession]) ?_
      intro k hk
      rw [hget] at hk
      cases hk
    | some k =>
      refine (growth_writeHandler ht).trans ⟨fun h k' hk' => ?_, fun h => h k hget⟩
      rw [hget] at hk'
      cases hk'
      exact h

end ISession

/-- One lemma for each event: the events that start nothing are those of `StartsNothing`. -/
theorem growth_eq_zero_iff {s t : ISession} {e : SessionEvent} (ht : session.step s e = some t) :
    s.growth t = 0 ↔ s.StartsNothing e := by
  cases e with
  | sendMsg message =>
    simp only [session, Option.some.injEq] at ht
    exact ht ▸ s.growth_sendMsg message.1
  | sendProtoMessage serialized =>
    simp only [session, Option.some.injEq] at ht
    exact ht ▸ s.growth_sendProtoMessage serialized
  | closeSession =>
    simp only [session, Option.some.injEq] at ht
    exact ht ▸ iff_of_true s.growth_self trivial
  | delayedCloseSession =>
    simp only [session, Option.some.injEq] at ht
    exact ht ▸ iff_of_true s.growth_self trivial
  | perform result => exact iff_of_true (ISession.growth_perform ht) trivial
  | runHandler i => exact ISession.growth_runHandler ht

namespace LiveSession

/-- Nothing that is started or queued is late. -/
def NothingLate (s : LiveSession) : Prop := s.late = 0

/-- The session is open, or the event starts nothing; the end of a `ReadHandler` starts a read. -/
def Settled (s : LiveSession) (e : LifetimeEvent) : Prop :=
  s.session.closed = true →
    match e with
    | .session e => s.session.StartsNothing e
    | .readHandled => False
    | _ => True

theorem count_eq_zero_iff {s : LiveSession} (hs : s.late = 0) {n : Nat} :
    s.count n = 0 ↔ (s.session.closed = true → n = 0) := by
  unfold count
  split
  · next h => simp [hs, h]
  · next h => exact iff_of_true hs fun hc => absurd hc h

theorem readHandler_late (s : LiveSession) (failed : Bool) :
    (s.readHandler failed).late = s.late := by
  unfold readHandler
  split <;> rfl

theorem update_late (s : LiveSession) : s.update.late = s.late := by
  unfold update
  split <;> rfl

end LiveSession

theorem lifetime_late_iff {s t : LiveSession} {e : LifetimeEvent} (hs : s.late = 0)
    (ht : lifetime.step s e = some t) : t.late = 0 ↔ s.Settled e := by
  cases e with
  | session e =>
    obtain ⟨u, hu, rfl⟩ := Option.map_eq_some_iff.1 ht
    change s.count (s.session.growth u) = 0 ↔ _
    rw [LiveSession.count_eq_zero_iff hs, growth_eq_zero_iff hu]
    rfl
  | readDone failed =>
    simp only [lifetime, Option.ite_none_left_eq_some, Option.some.injEq] at ht
    obtain ⟨-, rfl⟩ := ht
    refine iff_of_true ?_ fun _ => trivial
    rw [LiveSession.readHandler_late]
    exact hs
  | readHandled =>
    simp only [lifetime, Option.ite_none_left_eq_some, Option.some.injEq] at ht
    obtain ⟨-, rfl⟩ := ht
    exact (LiveSession.count_eq_zero_iff
      (s := { s with handling := s.handling - 1 }) hs).trans
      ⟨fun h hc => absurd (h hc) Nat.one_ne_zero, fun h hc => (h hc).elim⟩
  | update =>
    simp only [lifetime, Option.some.injEq] at ht
    subst ht
    refine iff_of_true ?_ fun _ => trivial
    rw [LiveSession.update_late, hs]

/-- **A closed session is quiet** exactly in the runs in which, from the close on, no message with
bytes is handed in, no `ReadHandler` returns, and the handler of a successful write empties the
queue. -/
theorem closed_session_quiet_iff (as : List LifetimeEvent) :
    lifetime.Along LiveSession.NothingLate LiveSession.started as ↔
      lifetime.Meets LiveSession.Settled LiveSession.started as := by
  refine Machine.along_iff_meets (I := LiveSession.NothingLate) (fun _ hs => hs) ?_ ?_ rfl
  · intro s e t hs hc ht
    exact (lifetime_late_iff hs ht).2 hc
  · intro s e t hs hc ht hlate
    exact hc ((lifetime_late_iff hs ht).1 hlate)

/-- A message sent after the close is queued and written. -/
theorem sent_after_close : ¬∀ s, lifetime.Reach s → s.NothingLate := by
  intro h
  have hrun : lifetime.run LiveSession.started [.session .closeSession,
      .session (.sendMsg ⟨⟨0, 1, [65]⟩, by decide, by decide⟩)] =
        some ⟨⟨[⟨0, 1, [65]⟩], true, false, [[65]], [], [], [65]⟩, 1, 0, true, 2⟩ := by decide
  exact absurd (h _ (Machine.reach_of_run rfl hrun)) (by unfold LiveSession.NothingLate; decide)

end GameServer.Net
