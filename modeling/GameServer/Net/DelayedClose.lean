import GameServer.Net.WriteOrder

/-!
# `DelayedCloseSession`

`_closing` is read in one place, the handler of a write that emptied the queue. A session on
which the flag is raised while messages are queued is therefore closed by the write that finishes
the last of them, and not before (`closed_after_writes`). On an idle session nothing reads the
flag: the session stays open until something else is sent (`idle_not_closed`).

The runs are those of `delayedClose`: sends that are serialized, calls of `DelayedCloseSession`
and writes that succeed, in any order.
-/

namespace GameServer.Net

open GameServer.Lib

/-- Nobody calls `CloseSession` and no write fails. -/
def SessionEvent.ErrorFree : SessionEvent → Prop
  | .closeSession => False
  | .perform result => result.isSome
  | _ => True

namespace ISession

instance (s : ISession) : Decidable s.Quiet := inferInstanceAs (Decidable (_ ∧ _))

instance (s : ISession) (e : SessionEvent) : Decidable (s.Serial e ∧ e.ErrorFree) := by
  cases e <;> unfold Serial SessionEvent.ErrorFree <;> infer_instance

end ISession

def delayedClose : Machine ISession SessionEvent :=
  session.restrict fun s e => s.Serial e ∧ e.ErrorFree

namespace ISession

/-- A closing session with nothing left to write is closed. -/
def ClosedWhenDone (s : ISession) : Prop :=
  s.closing = true → s.writeBufferQueue = [] → s.outstanding = [] → s.closed = true

/-- `DelayedCloseSession` is called while messages are queued, or on a closed session. -/
def RaisedWhileQueued (s : ISession) : SessionEvent → Prop
  | .delayedCloseSession => s.writeBufferQueue ≠ [] ∨ s.closed = true
  | _ => True

/-- The invariant of `delayedClose`: no operation failed, so a session with queued messages is
writing. -/
structure Faultless (s : ISession) : Prop where
  ordered : s.Ordered
  succeeded : ∀ r ∈ s.completed, r.isSome
  drained : s.Quiet → s.writeBufferQueue = []

theorem fresh_faultless : fresh.Faultless :=
  ⟨⟨fun _ hb => absurd hb List.not_mem_nil, .idle ⟨rfl, rfl⟩ rfl⟩,
    fun _ hr => absurd hr List.not_mem_nil, fun _ => rfl⟩

/-- With an empty queue no write is in flight and everything handed in is on the wire. -/
theorem Ordered.of_nil {s : ISession} (h : s.Ordered) (hq : s.writeBufferQueue = []) :
    s.Quiet ∧ s.wire = s.sent := by
  cases h.phase with
  | idle hquiet hs => exact ⟨hquiet, by rw [hs, hq, pending_nil, List.append_nil]⟩
  | writing b q hb => rw [hq] at hb; cases hb
  | written b q k hb => rw [hq] at hb; cases hb

/-! ## What each event does to the queue and the flags -/

theorem asyncWrite_not_quiet {s : ISession} (hq : s.writeBufferQueue ≠ []) :
    ¬s.asyncWrite.Quiet := by
  unfold asyncWrite
  split
  · next heq => exact absurd heq hq
  · rintro ⟨ho, -⟩
    simp at ho

theorem asyncWrite_frame (s : ISession) : s.asyncWrite.closed = s.closed ∧
    s.asyncWrite.closing = s.closing ∧ s.asyncWrite.completed = s.completed := by
  unfold asyncWrite
  split <;> exact ⟨rfl, rfl, rfl⟩

/-- A step after which a write is in flight for a queued message, with the flags as before. -/
structure Writes (s t : ISession) : Prop where
  queued : t.writeBufferQueue ≠ []
  busy : ¬t.Quiet
  closed : t.closed = s.closed
  closing : t.closing = s.closing

theorem asyncWrite_writes {s : ISession} (hq : s.writeBufferQueue ≠ []) :
    s.Writes s.asyncWrite where
  queued := by rwa [asyncWrite_queue]
  busy := asyncWrite_not_quiet hq
  closed := (asyncWrite_frame s).1
  closing := (asyncWrite_frame s).2.1

theorem writes_push (s : ISession) (b : MessageBuffer) (bytes : List UInt8) :
    s.Writes (asyncWrite { s with
      writeBufferQueue := s.writeBufferQueue ++ [b], sent := s.sent ++ bytes }) := by
  have h := asyncWrite_writes (s := { s with
    writeBufferQueue := s.writeBufferQueue ++ [b], sent := s.sent ++ bytes }) (by simp)
  exact ⟨h.queued, h.busy, h.closed, h.closing⟩

theorem sendMsg_cases (s : ISession) (message : MessageBuffer) :
    s.sendMsg message = s ∨
      (s.Writes (s.sendMsg message) ∧ (s.sendMsg message).completed = s.completed) := by
  unfold sendMsg
  split
  · exact .inl rfl
  · exact .inr ⟨writes_push s message _, (asyncWrite_frame _).2.2⟩

theorem sendProtoMessage_cases (s : ISession) (serialized : Option (List UInt8)) :
    s.sendProtoMessage serialized = s ∨ (s.Writes (s.sendProtoMessage serialized) ∧
      (s.sendProtoMessage serialized).completed = s.completed) := by
  cases serialized with
  | none => exact .inl rfl
  | some bytes => exact .inr ⟨writes_push s _ bytes, (asyncWrite_frame _).2.2⟩

theorem Ordered.perform_cases {s t : ISession} (h : s.Ordered) {k : Nat}
    (ht : s.perform (some k) = some t) :
    s.Writes t ∧ t.completed = s.completed ++ [some k] := by
  unfold ISession.perform at ht
  cases h.phase with
  | idle hq _ => rw [hq.1] at ht; cases ht
  | written b q k _ ho => rw [ho] at ht; cases ht
  | writing b q hb ho hc hs =>
    rw [ho] at ht
    simp only [Option.ite_none_right_eq_some, Option.some.injEq] at ht
    obtain ⟨-, rfl⟩ := ht
    refine ⟨⟨?_, ?_, rfl, rfl⟩, rfl⟩
    · rw [hb]
      exact List.cons_ne_nil b q
    · rintro ⟨-, hc⟩
      simp at hc

/-- The handler of a write starts the next one, or it has emptied the queue and closes the
session if that is closing. -/
theorem writeHandler_cases {s t : ISession} {k : Nat} (ht : s.writeHandler (some k) = some t) :
    t.completed = s.completed ∧
      (s.Writes t ∨ (t.writeBufferQueue = [] ∧ t.closing = s.closing ∧
        t.closed = (s.closing || s.closed))) := by
  obtain ⟨_, _, queue, -, -, ⟨-, rfl⟩ | ⟨hne, rfl⟩⟩ := writeHandler_success ht
  · cases s.closing with
    | true => exact ⟨rfl, .inr ⟨rfl, rfl, rfl⟩⟩
    | false => exact ⟨rfl, .inr ⟨rfl, rfl, rfl⟩⟩
  · have h := asyncWrite_writes (s := { s with writeBufferQueue := queue }) hne
    exact ⟨(asyncWrite_frame _).2.2, .inl ⟨h.queued, h.busy, h.closed, h.closing⟩⟩

/-- What a step of `delayedClose` does to the queue and the flags. -/
inductive Moved (s t : ISession) : SessionEvent → Prop
  | raised (h : t = s.delayedCloseSession) : Moved s t .delayedCloseSession
  | idle {e : SessionEvent} (h : t = s) : Moved s t e
  | writes {e : SessionEvent} (h : s.Writes t) : Moved s t e
  | emptied {e : SessionEvent} (hq : t.writeBufferQueue = []) (hclosing : t.closing = s.closing)
      (hclosed : t.closed = (s.closing || s.closed)) : Moved s t e

theorem Faultless.of_writes {s t : ISession} (h : s.Faultless) (hord : t.Ordered)
    (hw : s.Writes t) (hc : t.completed = s.completed) : t.Faultless :=
  ⟨hord, by rw [hc]; exact h.succeeded, fun hq => absurd hq hw.busy⟩

end ISession

open ISession in
/-- One step: the invariant, and one case for each way it can go. -/
theorem delayedClose_cases {s t : ISession} {e : SessionEvent} (h : s.Faultless)
    (ht : delayedClose.step s e = some t) : t.Faultless ∧ s.Moved t e := by
  obtain ⟨⟨hserial, he⟩, ht⟩ := Machine.restrict_step_eq_some.1 ht
  have hord : t.Ordered := ordered_step s e t h.ordered hserial ht
  cases e with
  | closeSession => exact he.elim
  | sendMsg message =>
    simp only [session, Option.some.injEq] at ht
    subst ht
    rcases sendMsg_cases s message.1 with heq | ⟨hw, hc⟩
    · exact ⟨heq.symm ▸ h, .idle heq⟩
    · exact ⟨h.of_writes hord hw hc, .writes hw⟩
  | sendProtoMessage serialized =>
    simp only [session, Option.some.injEq] at ht
    subst ht
    rcases sendProtoMessage_cases s serialized with heq | ⟨hw, hc⟩
    · exact ⟨heq.symm ▸ h, .idle heq⟩
    · exact ⟨h.of_writes hord hw hc, .writes hw⟩
  | delayedCloseSession =>
    simp only [session, Option.some.injEq] at ht
    subst ht
    exact ⟨⟨hord, h.succeeded, h.drained⟩, .raised rfl⟩
  | perform result =>
    obtain ⟨k, rfl⟩ := Option.isSome_iff_exists.1 he
    obtain ⟨hw, hc⟩ := h.ordered.perform_cases ht
    refine ⟨⟨hord, ?_, fun hq => absurd hq hw.busy⟩, .writes hw⟩
    rw [hc]
    intro r hr
    rcases List.mem_append.1 hr with hr | hr
    · exact h.succeeded r hr
    · rw [List.mem_singleton.1 hr]
      rfl
  | runHandler i =>
    simp only [session, ISession.runHandler] at ht
    cases hget : s.completed[i]? with
    | none => rw [hget] at ht; cases ht
    | some result =>
      rw [hget] at ht
      obtain ⟨k, rfl⟩ := Option.isSome_iff_exists.1
        (h.succeeded result (List.mem_of_getElem? hget))
      obtain ⟨hc, hcases⟩ := writeHandler_cases ht
      have hsucc : ∀ r ∈ t.completed, r.isSome := by
        rw [hc]
        exact fun r hr => h.succeeded r (List.mem_of_mem_eraseIdx hr)
      rcases hcases with hw | ⟨hq, hclosing, hclosed⟩
      · exact ⟨⟨hord, hsucc, fun hquiet => absurd hquiet hw.busy⟩,
          .writes ⟨hw.queued, hw.busy, hw.closed, hw.closing⟩⟩
      · exact ⟨⟨hord, hsucc, fun _ => hq⟩, .emptied hq hclosing hclosed⟩

namespace ISession

/-- A step that closes the session ends with an empty queue. -/
theorem Moved.nil_of_closed {s t : ISession} {e : SessionEvent} (h : s.Moved t e)
    (hs : s.closed = false) (ht : t.closed = true) : t.writeBufferQueue = [] := by
  cases h with
  | emptied hq _ _ => exact hq
  | raised h =>
    rw [h] at ht
    exact absurd (hs.symm.trans ht) Bool.false_ne_true
  | idle h =>
    rw [h] at ht
    exact absurd (hs.symm.trans ht) Bool.false_ne_true
  | writes h =>
    rw [h.closed] at ht
    exact absurd (hs.symm.trans ht) Bool.false_ne_true

/-- A guarded step keeps a closing session that has nothing left to write closed. -/
theorem Moved.closedWhenDone {s t : ISession} {e : SessionEvent} (h : s.Moved t e)
    (hs : s.ClosedWhenDone) (hc : s.RaisedWhileQueued e) : t.ClosedWhenDone := by
  intro hclosing hq ho
  cases h with
  | raised h =>
    subst h
    exact hc.resolve_left fun hne => hne hq
  | idle h =>
    subst h
    exact hs hclosing hq ho
  | writes h => exact absurd hq h.queued
  | emptied _ hcl hclosed =>
    rw [hclosed, ← hcl, hclosing, Bool.true_or]

/-- The flag raised on an idle open session. -/
theorem Ordered.not_closedWhenDone {s : ISession} (h : s.Ordered) {e : SessionEvent} {t : ISession}
    (hc : ¬s.RaisedWhileQueued e) (ht : session.step s e = some t) : ¬t.ClosedWhenDone := by
  cases e with
  | delayedCloseSession =>
    simp only [session, Option.some.injEq] at ht
    subst ht
    simp only [RaisedWhileQueued, not_or, Classical.not_not] at hc
    obtain ⟨hq, hclosed⟩ := hc
    exact fun hdone => hclosed (hdone rfl hq (h.of_nil hq).1.1)
  | _ => exact absurd trivial hc

end ISession

/-- **Delayed close.** The session is closed only by a write after which everything handed in is
on the wire; and a closing session with nothing left to write is closed, in every state of a run,
exactly when the flag is raised only while messages are queued. -/
theorem closed_after_writes (as : List SessionEvent) :
    (∀ s e t, delayedClose.Reach s → delayedClose.step s e = some t → s.closed = false →
      t.closed = true → t.writeBufferQueue = [] ∧ t.Quiet ∧ t.wire = t.sent) ∧
    (delayedClose.Along ISession.ClosedWhenDone ISession.fresh as ↔
      delayedClose.Meets ISession.RaisedWhileQueued ISession.fresh as) := by
  constructor
  · intro s e t hs ht hopen hclosed
    have hfault : s.Faultless :=
      hs.invariant (fun _ h0 => h0 ▸ ISession.fresh_faultless)
        fun _ _ _ hI _ hstep => (delayedClose_cases hI hstep).1
    obtain ⟨hfault', hmoved⟩ := delayedClose_cases hfault ht
    have hq := hmoved.nil_of_closed hopen hclosed
    exact ⟨hq, hfault'.ordered.of_nil hq⟩
  · refine Machine.along_iff_meets (I := fun s : ISession => s.Faultless ∧ s.ClosedWhenDone)
      (fun _ hI => hI.2) ?_ ?_ ⟨ISession.fresh_faultless, fun h => absurd h Bool.false_ne_true⟩
    · rintro s e t ⟨hfault, hdone⟩ hc ht
      obtain ⟨hfault', hmoved⟩ := delayedClose_cases hfault ht
      exact ⟨hfault', hmoved.closedWhenDone hdone hc⟩
    · rintro s e t ⟨hfault, -⟩ hc ht
      exact hfault.ordered.not_closedWhenDone hc (Machine.restrict_step_eq_some.1 ht).2

/-- The flag raised on a session that has nothing to write: it stays open. -/
theorem idle_not_closed : ¬∀ s, delayedClose.Reach s → s.ClosedWhenDone := by
  intro h
  have hrun : delayedClose.run ISession.fresh [.delayedCloseSession] =
      some ⟨[], false, true, [], [], [], []⟩ := by decide
  exact absurd (h _ (Machine.reach_of_run rfl hrun) rfl rfl rfl) Bool.false_ne_true

end GameServer.Net
