import GameServer.Lib.Potential
import GameServer.Net.DelayedClose

/-!
# Queued messages are written

The order of the bytes says nothing about whether they are ever written. Here the socket goes on by
itself: it performs the write that is in flight, with any number of bytes, and runs its handler.
Each such step lowers `remaining`, and a session on which none is possible has nothing left to
write (`session_drains`).
-/

namespace GameServer.Net

open GameServer.Lib

/-- The socket performs a write, or a handler runs. -/
def SessionEvent.Socket : SessionEvent → Prop
  | .perform result => result.isSome
  | .runHandler _ => True
  | _ => False

instance SessionEvent.decidableSocket : DecidablePred SessionEvent.Socket
  | .perform result => inferInstanceAs (Decidable (result.isSome = true))
  | .runHandler _ => isTrue trivial
  | .sendMsg _ | .sendProtoMessage _ | .closeSession | .delayedCloseSession => isFalse id

namespace ISession

/-- A packet takes at least one write. -/
def weight (b : MessageBuffer) : Nat := max 1 b.readableBytes

/-- The weight of the packets of a queue. -/
def queued : List MessageBuffer → Nat
  | [] => 0
  | b :: q => weight b + queued q

/-- A bound for the socket steps that are left: a write and its handler for each byte at most. -/
def remaining (s : ISession) : Nat := 2 * queued s.writeBufferQueue - s.completed.length

/-- Nothing is left for the socket to do. -/
def Stuck (s : ISession) : Prop := ∀ e : SessionEvent, e.Socket → session.step s e = none

theorem stuck_of_idle {s : ISession} (houtstanding : s.outstanding = [])
    (hcompleted : s.completed = []) : s.Stuck := by
  intro e he
  cases e with
  | perform result =>
    change s.perform result = none
    unfold perform
    rw [houtstanding]
  | runHandler i =>
    change s.runHandler i = none
    unfold runHandler
    rw [hcompleted, List.getElem?_nil]
  | sendMsg message => exact he.elim
  | sendProtoMessage serialized => exact he.elim
  | closeSession => exact he.elim
  | delayedCloseSession => exact he.elim

/-- A write that was performed has moved at least one byte, if there was one. -/
def Advances (s : ISession) : Prop :=
  ∀ k, some k ∈ s.completed → ∀ b q, s.writeBufferQueue = b :: q → 0 < b.readableBytes → 0 < k

variable {s t : ISession} {e : SessionEvent}

theorem weight_pos (b : MessageBuffer) : 0 < weight b := Nat.lt_of_lt_of_le Nat.one_pos
  (Nat.le_max_left ..)

@[simp] theorem queued_cons (b : MessageBuffer) (q : List MessageBuffer) :
    queued (b :: q) = weight b + queued q := rfl

/-- A part of a packet that was written makes it lighter. -/
theorem weight_readDone {b : MessageBuffer} {k : Nat} (hb : b.Valid) (hle : k ≤ b.readableBytes)
    (hk : 0 < k) (hleft : (b.readDone k).readableBytes ≠ 0) :
    weight (b.readDone k) < weight b := by
  unfold weight
  rw [hb.readableBytes_readDone hle] at hleft ⊢
  omega

/-! ## Where a session without failures is -/

/-- All results are successes. -/
theorem Faultless.completed_eq (h : s.Faultless) :
    s.completed = (s.completed.filterMap id).map some := by
  have hall : ∀ l : List (Option Nat), (∀ r ∈ l, r.isSome) → l = (l.filterMap id).map some := by
    intro l hl
    induction l with
    | nil => rfl
    | cons r l ih =>
      obtain ⟨k, rfl⟩ := Option.isSome_iff_exists.1 (hl r List.mem_cons_self)
      rw [List.filterMap_cons_some (f := id) rfl, List.map_cons,
        ← ih fun x hx => hl x (List.mem_cons_of_mem _ hx)]
  exact hall _ h.succeeded

theorem Faultless.completed_nil (h : s.Faultless) (hc : s.completed.filterMap id = []) :
    s.completed = [] := by
  rw [h.completed_eq, hc, List.map_nil]

theorem Quiet.not_mem (h : s.Quiet) (k : Nat) : some k ∉ s.completed := fun hmem =>
  absurd (List.filterMap_eq_nil_iff.1 h.2 _ hmem) (Option.some_ne_none k)

/-- A write in flight is performed: only its result is new. -/
theorem Faultless.perform_spec (h : s.Faultless) {k : Nat} (ht : s.perform (some k) = some t) :
    s.completed = [] ∧ t.completed = [some k] ∧ ∃ b q, s.writeBufferQueue = b :: q ∧
      t.writeBufferQueue = b :: q ∧ t.sent = s.sent ∧ (0 < b.readableBytes → 0 < k) := by
  unfold ISession.perform at ht
  cases h.ordered.phase with
  | idle hq _ =>
    rw [hq.1] at ht
    cases ht
  | written b q k _ ho =>
    rw [ho] at ht
    cases ht
  | writing b q hb ho hc _ =>
    have hempty := h.completed_nil hc
    rw [ho] at ht
    simp only [Option.ite_none_right_eq_some, Option.some.injEq] at ht
    obtain ⟨⟨-, hpos⟩, rfl⟩ := ht
    have hv : b.Valid := h.ordered.valid b (by rw [hb]; exact List.mem_cons_self)
    rw [MessageBuffer.length_readable hv] at hpos
    refine ⟨hempty, ?_, b, q, hb, hb, rfl, hpos⟩
    change s.completed ++ [some k] = [some k]
    rw [hempty, List.nil_append]

/-- The handler of a write runs: the front packet is shorter or gone. -/
theorem Faultless.runHandler_spec (h : s.Faultless) {i : Nat} (ht : s.runHandler i = some t) :
    ∃ k b q, s.completed = [some k] ∧ s.writeBufferQueue = b :: q ∧ t.completed = [] ∧
      t.sent = s.sent ∧ b.Valid ∧ k ≤ b.readableBytes ∧
      t.writeBufferQueue =
        if (b.readDone k).readableBytes = 0 then q else b.readDone k :: q := by
  unfold ISession.runHandler at ht
  split at ht
  · cases ht
  · next result hget =>
    have hnone : ¬(s.completed.filterMap id = []) := fun hc => by
      rw [h.completed_nil hc] at hget
      cases hget
    cases h.ordered.phase with
    | idle hq _ => exact absurd hq.2 hnone
    | writing b q _ _ hc _ => exact absurd hc hnone
    | written b q k hb _ hc hk _ =>
      have hone : s.completed = [some k] := by rw [h.completed_eq, hc]; rfl
      rw [hone] at hget ht
      obtain ⟨hi, hresult⟩ := List.getElem?_eq_some_iff.1 hget
      obtain rfl : i = 0 := Nat.lt_one_iff.1 hi
      obtain rfl : some k = result := hresult
      obtain ⟨b', q', queue, hfront, hqueue, hcases⟩ := writeHandler_success ht
      obtain ⟨rfl, rfl⟩ := List.cons.inj (hb.symm.trans hfront)
      have hv : b.Valid := h.ordered.valid b (by rw [hb]; exact List.mem_cons_self)
      refine ⟨k, b, q, hone, hb, ?_, ?_, hv, hk, ?_⟩
      · rcases hcases with ⟨-, rfl⟩ | ⟨-, rfl⟩
        · split <;> rfl
        · exact (asyncWrite_frame _).2.2
      · rcases hcases with ⟨-, rfl⟩ | ⟨-, rfl⟩
        · split <;> rfl
        · exact asyncWrite_sent _
      · rw [hqueue]
        rcases hcases with ⟨rfl, rfl⟩ | ⟨-, rfl⟩
        · split <;> rfl
        · exact asyncWrite_queue _

/-! ## Writes move bytes -/

theorem Advances.congr (h : s.Advances) (hc : t.completed = s.completed)
    (hq : t.writeBufferQueue = s.writeBufferQueue) : t.Advances := by
  intro k hk b q hb
  exact h k (hc ▸ hk) b q (hq ▸ hb)

/-- Without a result there is nothing to say. -/
theorem advances_of_nil (h : t.completed = []) : t.Advances := by
  intro k hk
  rw [h] at hk
  cases hk

theorem Quiet.advances (h : s.Quiet) (hc : t.completed = s.completed) : t.Advances :=
  fun k hk => absurd (hc ▸ hk) (h.not_mem k)

end ISession

open ISession in
theorem advances_step {s t : ISession} {e : SessionEvent} (h : s.Faultless) (hadv : s.Advances)
    (ht : delayedClose.step s e = some t) : t.Advances := by
  obtain ⟨⟨hserial, he⟩, ht⟩ := Machine.restrict_step_eq_some.1 ht
  cases e with
  | closeSession => exact he.elim
  | sendMsg message =>
    simp only [session, Option.some.injEq] at ht
    subst ht
    rcases hserial with hzero | hquiet
    · have hsame : s.sendMsg message.1 = s := if_pos (Nat.le_of_eq hzero)
      rwa [hsame]
    · rcases sendMsg_cases s message.1 with heq | ⟨-, hc⟩
      · rwa [heq]
      · exact hquiet.advances hc
  | sendProtoMessage serialized =>
    simp only [session, Option.some.injEq] at ht
    subst ht
    rcases hserial with rfl | hquiet
    · exact hadv
    · rcases sendProtoMessage_cases s serialized with heq | ⟨-, hc⟩
      · rwa [heq]
      · exact hquiet.advances hc
  | delayedCloseSession =>
    simp only [session, Option.some.injEq] at ht
    subst ht
    exact hadv.congr rfl rfl
  | perform result =>
    obtain ⟨k, rfl⟩ := Option.isSome_iff_exists.1 he
    obtain ⟨-, hc, b, q, -, hb, -, hpos⟩ := h.perform_spec ht
    intro k' hk' b' q' hb'
    rw [hc, List.mem_singleton, Option.some.injEq] at hk'
    rw [hb] at hb'
    cases hb'
    subst hk'
    exact hpos
  | runHandler i =>
    obtain ⟨_, _, _, -, -, hc, -⟩ := h.runHandler_spec ht
    exact advances_of_nil hc

namespace ISession

variable {s t : ISession} {e : SessionEvent}

/-- The invariant of `delayedClose`, with the bytes that each write moves. -/
structure Draining (s : ISession) : Prop where
  faultless : s.Faultless
  advances : s.Advances

theorem fresh_draining : fresh.Draining := ⟨fresh_faultless, advances_of_nil rfl⟩

theorem Draining.step (h : s.Draining) (ht : delayedClose.step s e = some t) : t.Draining :=
  ⟨(delayedClose_cases h.faultless ht).1, advances_step h.faultless h.advances ht⟩

theorem draining_of_reach (h : delayedClose.Reach s) : s.Draining :=
  h.invariant (fun _ h0 => h0 ▸ fresh_draining) fun _ _ _ hu _ hv => hu.step hv

/-- A socket step is one of the runs without failures. -/
theorem delayedClose_of_socket (he : e.Socket) (ht : session.step s e = some t) :
    delayedClose.step s e = some t := by
  refine Machine.restrict_step_eq_some.2 ⟨?_, ht⟩
  cases e with
  | perform result => exact ⟨trivial, he⟩
  | runHandler i => exact ⟨trivial, trivial⟩
  | sendMsg message => exact he.elim
  | sendProtoMessage serialized => exact he.elim
  | closeSession => exact he.elim
  | delayedCloseSession => exact he.elim

/-- **One socket step.** It brings the end nearer, and hands nothing in. -/
theorem Draining.socket (h : s.Draining) (he : e.Socket) (ht : session.step s e = some t) :
    t.remaining < s.remaining ∧ t.sent = s.sent := by
  unfold remaining
  cases e with
  | perform result =>
    obtain ⟨k, rfl⟩ := Option.isSome_iff_exists.1 he
    obtain ⟨hs, hc, b, q, hb, hb', hsent, -⟩ := h.faultless.perform_spec ht
    have hpos := weight_pos b
    simp only [hb, hb', hs, hc, queued_cons, List.length_nil, List.length_singleton]
    exact ⟨by omega, hsent⟩
  | runHandler i =>
    obtain ⟨k, b, q, hs, hb, hc, hsent, hv, hle, hqueue⟩ := h.faultless.runHandler_spec ht
    have hpos := weight_pos b
    refine ⟨?_, hsent⟩
    simp only [hb, hs, hc, queued_cons, List.length_nil, List.length_singleton]
    split at hqueue
    · next hdone =>
      rw [hqueue]
      omega
    · next hleft =>
      -- something is left of the packet, so there was something to write
      have hlen : 0 < b.readableBytes := by
        rw [hv.readableBytes_readDone hle] at hleft
        omega
      have hk := h.advances k (by rw [hs]; exact List.mem_singleton_self _) b q hb hlen
      have hless := weight_readDone hv hle hk hleft
      rw [hqueue, queued_cons]
      omega
  | sendMsg message => exact he.elim
  | sendProtoMessage serialized => exact he.elim
  | closeSession => exact he.elim
  | delayedCloseSession => exact he.elim

/-- Where no socket step is possible, no write is in flight and the queue is empty. -/
theorem Draining.of_stuck (h : s.Draining) (hstuck : s.Stuck) : s.writeBufferQueue = [] := by
  apply h.faultless.drained
  have hcompleted : s.completed = [] := by
    by_contra hne
    have hlen : 0 < s.completed.length := List.length_pos_iff.2 hne
    have hsome := h.faultless.ordered.runHandler_isSome hlen
    have hnone : s.runHandler 0 = none := hstuck (.runHandler 0) trivial
    rw [hnone] at hsome
    cases hsome
  have houtstanding : s.outstanding = [] := by
    cases ho : s.outstanding with
    | nil => rfl
    | cons region rest =>
      have hnone : s.perform (some region.length) = none := hstuck (.perform (some _)) rfl
      unfold ISession.perform at hnone
      rw [ho] at hnone
      dsimp only at hnone
      rw [if_pos ⟨Nat.le_refl _, id⟩] at hnone
      cases hnone
  exact ⟨houtstanding, by rw [hcompleted, List.filterMap_nil]⟩

end ISession

namespace ISession

variable {s u v : ISession} {e : SessionEvent}

/-- What socket steps from `s` keep: nothing more is handed in, and if the session is to be closed
after what was queued, it is closed when that is done. -/
structure DrainedFrom (s u : ISession) : Prop where
  draining : u.Draining
  sent : u.sent = s.sent
  closes : s.closing = true → s.writeBufferQueue ≠ [] → u.closing = true ∧ u.ClosedWhenDone

theorem Draining.drainedFrom (h : s.Draining) : s.DrainedFrom s :=
  ⟨h, rfl, fun hclosing hne => ⟨hclosing, fun _ hq => absurd hq hne⟩⟩

theorem DrainedFrom.socket (h : s.DrainedFrom u) (he : e.Socket) (hv : session.step u e = some v) :
    s.DrainedFrom v ∧ v.remaining < u.remaining := by
  have hd := delayedClose_of_socket he hv
  have hmoved := (delayedClose_cases h.draining.faultless hd).2
  obtain ⟨hless, hsame⟩ := h.draining.socket he hv
  refine ⟨⟨h.draining.step hd, hsame.trans h.sent, ?_⟩, hless⟩
  intro hclosing hne
  obtain ⟨hu, hdone⟩ := h.closes hclosing hne
  have hguard : u.RaisedWhileQueued e := by
    cases e with
    | delayedCloseSession => exact he.elim
    | _ => exact trivial
  refine ⟨?_, hmoved.closedWhenDone hdone hguard⟩
  cases hmoved with
  | raised _ => exact he.elim
  | idle heq => rw [heq]; exact hu
  | writes hw => rw [hw.closing]; exact hu
  | emptied _ hcl _ => rw [hcl]; exact hu

/-- A run of socket steps. -/
theorem Draining.run (h : s.Draining) {as : List SessionEvent} (hsocket : ∀ e ∈ as, e.Socket)
    (hrun : session.run s as = some u) : as.length ≤ s.remaining ∧ s.DrainedFrom u := by
  obtain ⟨hfrom, hle⟩ := Machine.length_add_le remaining
    (fun _ _ _ hu he hv => DrainedFrom.socket hu he hv) h.drainedFrom
    (Machine.meets_of_forall hsocket) hrun
  exact ⟨Nat.le_trans (Nat.le_add_right ..) hle, hfrom⟩

/-- Where the socket stops. -/
theorem DrainedFrom.of_stuck (h : s.DrainedFrom u) (hstuck : u.Stuck) :
    u.writeBufferQueue = [] ∧ u.wire = s.sent ∧
      (s.closing = true → s.writeBufferQueue ≠ [] → u.closed = true) := by
  have hq := h.draining.of_stuck hstuck
  obtain ⟨hquiet, hwire⟩ := h.draining.faultless.ordered.of_nil hq
  refine ⟨hq, hwire.trans h.sent, fun hclosing hne => ?_⟩
  obtain ⟨hu, hdone⟩ := h.closes hclosing hne
  exact hdone hu hq hquiet.1

end ISession

/-- **Queued messages are written.** When the sends were serialized and no operation has failed, the
socket takes at most `remaining` steps by itself. Where it stops, everything handed in is on the
wire; a session that was to be closed after the queued messages is closed. -/
theorem session_drains {s t : ISession} {as : List SessionEvent} (h : delayedClose.Reach s)
    (hsocket : ∀ e ∈ as, e.Socket) (hrun : session.run s as = some t) :
    as.length ≤ s.remaining ∧ (t.Stuck → t.writeBufferQueue = [] ∧ t.wire = s.sent ∧
      (s.closing = true → s.writeBufferQueue ≠ [] → t.closed = true)) := by
  obtain ⟨hle, hfrom⟩ := (ISession.draining_of_reach h).run hsocket hrun
  exact ⟨hle, hfrom.of_stuck⟩

/-- A message of two bytes is queued and the session is to be closed after it. -/
def closingAfterTwo : ISession := ⟨[⟨0, 2, [65, 66]⟩], false, true, [[65, 66]], [], [], [65, 66]⟩

/-- It is written byte by byte. -/
def byteByByte : List SessionEvent :=
  [.perform (some 1), .runHandler 0, .perform (some 1), .runHandler 0]

theorem session_drains_twoBytes : ∃ t, session.run closingAfterTwo byteByByte = some t ∧
    t.Stuck ∧ byteByByte.length ≤ closingAfterTwo.remaining ∧ t.wire = [65, 66] ∧
      t.closed = true := by
  have hreach : delayedClose.run .fresh [.sendMsg ⟨⟨0, 2, [65, 66]⟩, by decide, by decide⟩,
      .delayedCloseSession] = some closingAfterTwo := rfl
  have hrun : session.run closingAfterTwo byteByByte =
      some ⟨[], true, true, [], [], [65, 66], [65, 66]⟩ := rfl
  have hsocket : ∀ e ∈ byteByByte, e.Socket := by
    simp only [byteByByte, List.forall_mem_cons, SessionEvent.Socket, Option.isSome_some, true_and]
    exact fun _ he => absurd he List.not_mem_nil
  have hstuck : ISession.Stuck ⟨[], true, true, [], [], [65, 66], [65, 66]⟩ := by
    intro e he
    cases e with
    | perform result => rfl
    | runHandler i => rfl
    | _ => exact he.elim
  obtain ⟨hle, hdone⟩ := session_drains (Machine.reach_of_run rfl hreach) hsocket hrun
  obtain ⟨-, hwire, hclosed⟩ := hdone hstuck
  exact ⟨_, hrun, hstuck, hle, hwire, hclosed rfl (List.cons_ne_nil _ _)⟩

end GameServer.Net
