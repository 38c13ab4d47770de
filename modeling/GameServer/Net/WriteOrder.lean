import GameServer.Net.Session

/-!
# The bytes on the wire

The order of the bytes on the wire is right as long as `SendMsg` and `SendProtoMessage` are
called while no write is in flight (`wire_prefix_of_serial`). `AsyncWrite` does not look for an
outstanding write: a second call before the first completion starts the front packet again, and
its bytes go out twice (`wire_not_prefix`).
-/

namespace GameServer.Net

open GameServer.Lib

namespace ISession

/-- No write is in flight: none is outstanding and none that succeeded waits for its handler. -/
def Quiet (s : ISession) : Prop := s.outstanding = [] ∧ s.completed.filterMap id = []

/-- A message with bytes for `SendMsg`, and any message that is serialized for `SendProtoMessage`,
also one of no bytes, is handed in while no write is in flight. -/
def Serial (s : ISession) : SessionEvent → Prop
  | .sendMsg message => message.1.readableBytes = 0 ∨ s.Quiet
  | .sendProtoMessage serialized => serialized = none ∨ s.Quiet
  | _ => True

/-- The bytes of a queue that were not acknowledged yet. -/
def pending (queue : List MessageBuffer) : List UInt8 := queue.flatMap MessageBuffer.readable

@[simp] theorem pending_nil : pending [] = [] := rfl

@[simp] theorem pending_cons (b : MessageBuffer) (q : List MessageBuffer) :
    pending (b :: q) = b.readable ++ pending q := rfl

@[simp] theorem pending_append (p q : List MessageBuffer) :
    pending (p ++ q) = pending p ++ pending q := List.flatMap_append

/-- Where the one write in flight is, and how far the wire is behind the messages. -/
inductive Phase (s : ISession) : Prop
  | idle (hq : s.Quiet) (hs : s.sent = s.wire ++ pending s.writeBufferQueue)
  | writing (b : MessageBuffer) (q : List MessageBuffer) (hq : s.writeBufferQueue = b :: q)
      (ho : s.outstanding = [b.readable]) (hc : s.completed.filterMap id = [])
      (hs : s.sent = s.wire ++ pending (b :: q))
  | written (b : MessageBuffer) (q : List MessageBuffer) (k : Nat)
      (hq : s.writeBufferQueue = b :: q) (ho : s.outstanding = [])
      (hc : s.completed.filterMap id = [k]) (hk : k ≤ b.readableBytes)
      (hs : s.sent = s.wire ++ (b.readable.drop k ++ pending q))

/-- The invariant of a session whose writes are serialized. -/
structure Ordered (s : ISession) : Prop where
  valid : ∀ b ∈ s.writeBufferQueue, b.Valid
  phase : s.Phase

theorem Phase.prefix {s : ISession} (h : s.Phase) : s.wire <+: s.sent := by
  cases h with
  | idle _ hs => exact ⟨_, hs.symm⟩
  | writing _ _ _ _ _ hs => exact ⟨_, hs.symm⟩
  | written _ _ _ _ _ _ _ hs => exact ⟨_, hs.symm⟩

theorem Phase.congr {s t : ISession} (h : s.Phase) (hq : t.writeBufferQueue = s.writeBufferQueue)
    (ho : t.outstanding = s.outstanding) (hc : t.completed.filterMap id = s.completed.filterMap id)
    (hw : t.wire = s.wire) (hs : t.sent = s.sent) : t.Phase := by
  cases h with
  | idle hqu hse => exact .idle ⟨ho.trans hqu.1, hc.trans hqu.2⟩ (by rw [hs, hw, hq, hse])
  | writing b q hbq hou hco hse =>
    exact .writing b q (hq.trans hbq) (ho.trans hou) (hc.trans hco) (by rw [hs, hw, hse])
  | written b q k hbq hou hco hk hse =>
    exact .written b q k (hq.trans hbq) (ho.trans hou) (hc.trans hco) hk (by rw [hs, hw, hse])

/-! ## Steps -/

/-- With no write in flight, starting one on the front packet keeps the order. -/
theorem Quiet.asyncWrite {s : ISession} (hq : s.Quiet)
    (hs : s.sent = s.wire ++ pending s.writeBufferQueue) : s.asyncWrite.Phase := by
  unfold ISession.asyncWrite
  split
  · exact .idle hq hs
  · next b q heq =>
    rw [heq] at hs
    exact .writing b q heq (by rw [hq.1, List.nil_append]) hq.2 hs

/-- A message pushed while no write is in flight. -/
theorem Ordered.push {s : ISession} (h : s.Ordered) (hq : s.Quiet) {b : MessageBuffer}
    (hb : b.Valid) :
    (ISession.asyncWrite { s with
      writeBufferQueue := s.writeBufferQueue ++ [b], sent := s.sent ++ b.readable }).Ordered := by
  refine ⟨?_, ?_⟩
  · rw [asyncWrite_queue]
    intro c hc
    rcases List.mem_append.1 hc with hc | hc
    · exact h.valid c hc
    · rw [List.mem_singleton.1 hc]
      exact hb
  · have hs : s.sent = s.wire ++ pending s.writeBufferQueue := by
      cases h.phase with
      | idle _ hs => exact hs
      | writing b q _ ho => rw [hq.1] at ho; cases ho
      | written b q k _ _ hc => rw [hq.2] at hc; cases hc
    refine Quiet.asyncWrite (s := { s with
      writeBufferQueue := s.writeBufferQueue ++ [b], sent := s.sent ++ b.readable }) hq ?_
    simp only [pending_append, pending_cons, pending_nil, List.append_nil, hs, List.append_assoc]

theorem Ordered.sendMsg {s : ISession} (h : s.Ordered) {message : MessageBuffer}
    (hv : message.Valid) (hc : message.readableBytes = 0 ∨ s.Quiet) :
    (s.sendMsg message).Ordered := by
  unfold ISession.sendMsg
  split
  · exact h
  · next hpos => exact h.push (hc.resolve_left (by omega)) hv

theorem Ordered.sendProtoMessage {s : ISession} (h : s.Ordered) {serialized : Option (List UInt8)}
    (hc : serialized = none ∨ s.Quiet) : (s.sendProtoMessage serialized).Ordered := by
  cases serialized with
  | none => exact h
  | some bytes =>
    obtain ⟨hv, hr⟩ := MessageBuffer.fill_writeDone (MessageBuffer.ofSize_valid bytes.length) bytes
    rw [MessageBuffer.ofSize_readable, List.nil_append] at hr
    have := h.push (hc.resolve_left (Option.some_ne_none _)) hv
    rw [hr] at this
    exact this

theorem Ordered.perform {s t : ISession} (h : s.Ordered) {result : Option Nat}
    (ht : s.perform result = some t) : t.Ordered := by
  unfold ISession.perform at ht
  cases h.phase with
  | idle hq hs => rw [hq.1] at ht; cases ht
  | written b q k _ ho => rw [ho] at ht; cases ht
  | writing b q hbq ho hc hs =>
    rw [ho] at ht
    have hv : b.Valid := h.valid b (by rw [hbq]; exact List.mem_cons_self)
    cases result with
    | none =>
      -- a failed operation wrote nothing: the packet is still whole
      simp only [Option.some.injEq] at ht
      subst ht
      refine ⟨h.valid, .idle ⟨rfl, ?_⟩ (by rw [hs, hbq])⟩
      simp only [List.filterMap_append, hc]
      rfl
    | some k =>
      simp only [Option.ite_none_right_eq_some, Option.some.injEq] at ht
      obtain ⟨⟨hk, -⟩, rfl⟩ := ht
      rw [MessageBuffer.length_readable hv] at hk
      refine ⟨h.valid, .written b q k hbq rfl ?_ hk ?_⟩
      · simp only [List.filterMap_append, hc]
        rfl
      · rw [hs, pending_cons, List.append_assoc, ← List.append_assoc (b.readable.take k),
          List.take_append_drop]

/-- The result of one handler taken out of the list. -/
theorem filterMap_eraseIdx {l : List (Option Nat)} {i : Nat} {r : Option Nat}
    (h : l[i]? = some r) : ∃ l₁ l₂, l.filterMap id = l₁ ++ r.toList ++ l₂ ∧
      (l.eraseIdx i).filterMap id = l₁ ++ l₂ := by
  obtain ⟨hi, rfl⟩ := List.getElem?_eq_some_iff.1 h
  refine ⟨(l.take i).filterMap id, (l.drop (i + 1)).filterMap id, ?_, ?_⟩
  · conv_lhs => rw [← List.take_append_drop i l, List.drop_eq_getElem_cons hi]
    rw [List.filterMap_append, List.filterMap_cons]
    cases l[i] <;> simp
  · rw [List.eraseIdx_eq_take_drop_succ, List.filterMap_append]

/-- The handler of the one successful write. -/
theorem Ordered.written_handler {s t : ISession} (hv : ∀ b ∈ s.writeBufferQueue, b.Valid)
    {b : MessageBuffer} {q : List MessageBuffer} {k : Nat} (hbq : s.writeBufferQueue = b :: q)
    (hq : s.Quiet) (hk : k ≤ b.readableBytes)
    (hs : s.sent = s.wire ++ (b.readable.drop k ++ pending q))
    (ht : s.writeHandler (some k) = some t) : t.Ordered := by
  have hb : b.Valid := hv b (by rw [hbq]; exact List.mem_cons_self)
  have hb' : (b.readDone k).Valid := MessageBuffer.readDone_valid hb hk
  obtain ⟨_, _, queue, hfront, hqueue, hcases⟩ := writeHandler_success ht
  obtain ⟨rfl, rfl⟩ := List.cons.inj (hbq.symm.trans hfront)
  -- what is left of the front packet is still pending, or the packet is done
  have hval : ∀ c ∈ queue, c.Valid := by
    rw [← hqueue]
    intro c hc
    split at hc
    · exact hv c (by rw [hbq]; exact List.mem_cons_of_mem _ hc)
    · rcases List.mem_cons.1 hc with rfl | hc
      · exact hb'
      · exact hv c (by rw [hbq]; exact List.mem_cons_of_mem _ hc)
  have hsent : s.sent = s.wire ++ pending queue := by
    rw [hs, ← hqueue, ← MessageBuffer.readDone_readable]
    split
    · next hz =>
      rw [← MessageBuffer.length_readable hb'] at hz
      rw [List.length_eq_zero_iff.1 hz, List.nil_append]
    · rfl
  have hph : Phase { s with writeBufferQueue := queue } := .idle hq hsent
  rcases hcases with ⟨rfl, rfl⟩ | ⟨-, rfl⟩
  · split
    · exact ⟨hval, hph.congr rfl rfl rfl rfl rfl⟩
    · exact ⟨hval, hph⟩
  · exact ⟨by rw [asyncWrite_queue]; exact hval,
      Quiet.asyncWrite (s := { s with writeBufferQueue := queue }) hq hsent⟩

theorem Ordered.runHandler {s t : ISession} (h : s.Ordered) {i : Nat}
    (ht : s.runHandler i = some t) : t.Ordered := by
  unfold ISession.runHandler at ht
  split at ht
  · cases ht
  · next result hget =>
    obtain ⟨l₁, l₂, hl, her⟩ := filterMap_eraseIdx hget
    cases result with
    | none =>
      rw [Option.toList_none, List.append_nil] at hl
      simp only [ISession.writeHandler, Option.some.injEq] at ht
      subst ht
      exact ⟨h.valid, h.phase.congr rfl rfl (her.trans hl.symm) rfl rfl⟩
    | some k =>
      rw [Option.toList_some, List.append_assoc] at hl
      cases h.phase with
      | idle hq _ => rw [hq.2] at hl; simp at hl
      | writing b q _ _ hc _ => rw [hc] at hl; simp at hl
      | written b q k' hbq ho hc hk hs =>
        rw [hc] at hl
        -- the one successful result is the one whose handler runs
        obtain ⟨rfl, hl⟩ | ⟨-, hl⟩ := List.singleton_eq_append_iff.1 hl
        · rw [List.nil_append, List.singleton_append, List.cons.injEq] at hl
          obtain ⟨rfl, rfl⟩ := hl
          exact Ordered.written_handler (s := { s with completed := s.completed.eraseIdx i })
            h.valid hbq ⟨ho, her⟩ hk hs ht
        · simp at hl

/-- While writes are serialized no handler takes the front of an empty queue. -/
theorem Ordered.runHandler_isSome {s : ISession} (h : s.Ordered) {i : Nat}
    (hi : i < s.completed.length) : (s.runHandler i).isSome := by
  have hget : s.completed[i]? = some s.completed[i] := List.getElem?_eq_getElem hi
  obtain ⟨l₁, l₂, hl, -⟩ := filterMap_eraseIdx hget
  simp only [ISession.runHandler, hget]
  cases hr : s.completed[i] with
  | none => rfl
  | some k =>
    rw [hr, Option.toList_some] at hl
    have hne : s.completed.filterMap id ≠ [] := by
      rw [hl]
      simp
    cases h.phase with
    | idle hq _ => exact absurd hq.2 hne
    | writing _ _ _ _ hc _ => exact absurd hc hne
    | written b q k' hbq _ _ _ _ =>
      simp only [ISession.writeHandler, hbq]
      split <;> split <;> rfl

end ISession

theorem ordered_step (s : ISession) (e : SessionEvent) (t : ISession) (h : s.Ordered)
    (hc : s.Serial e) (ht : session.step s e = some t) : t.Ordered := by
  cases e with
  | sendMsg message =>
    simp only [session, Option.some.injEq] at ht
    exact ht ▸ h.sendMsg message.2 hc
  | sendProtoMessage serialized =>
    simp only [session, Option.some.injEq] at ht
    exact ht ▸ h.sendProtoMessage hc
  | closeSession =>
    simp only [session, Option.some.injEq] at ht
    subst ht
    exact ⟨h.valid, h.phase.congr rfl rfl rfl rfl rfl⟩
  | delayedCloseSession =>
    simp only [session, Option.some.injEq] at ht
    subst ht
    exact ⟨h.valid, h.phase.congr rfl rfl rfl rfl rfl⟩
  | perform result => exact h.perform ht
  | runHandler i => exact h.runHandler ht

/-- **Order on the wire.** In every state that serialized sends reach, the bytes on the wire are
a prefix of the messages in call order. -/
theorem wire_prefix_of_serial {s : ISession} (h : session.ReachVia ISession.Serial s) :
    s.wire <+: s.sent := by
  have hord : s.Ordered := by
    refine h.invariant ?_ ordered_step
    rintro s rfl
    exact ⟨fun b hb => absurd hb List.not_mem_nil, .idle ⟨rfl, rfl⟩ rfl⟩
  exact hord.phase.prefix

/-- A message of two bytes of which the first is written and acknowledged. -/
theorem wire_prefix_of_serial_one :
    ([65] : List UInt8) <+: [65, 66] :=
  wire_prefix_of_serial (s := ⟨[⟨1, 2, [65, 66]⟩], false, false, [[66]], [], [65], [65, 66]⟩) <|
    .step (a := .runHandler 0) (.step (a := .perform (some 1)) (.step
      (a := .sendMsg ⟨⟨0, 2, [65, 66]⟩, by decide, by decide⟩) (.init rfl)
      (Or.inr ⟨rfl, rfl⟩) rfl) trivial rfl) trivial rfl

/-- Two messages in a row: the first goes out twice, the second has not started. -/
theorem wire_not_prefix : ¬∀ s, session.Reach s → s.wire <+: s.sent := by
  intro h
  have hrun : session.run ISession.fresh
      [.sendMsg ⟨⟨0, 2, [65, 66]⟩, by decide, by decide⟩,
        .sendMsg ⟨⟨0, 1, [67]⟩, by decide, by decide⟩, .perform (some 2), .perform (some 2)] =
      some ⟨[⟨0, 2, [65, 66]⟩, ⟨0, 1, [67]⟩], false, false, [], [some 2, some 2],
        [65, 66, 65, 66], [65, 66, 67]⟩ := rfl
  have hpre := h _ (Machine.reach_of_run rfl hrun)
  exact absurd hpre (by decide)

end GameServer.Net
