import GameServer.Net.WriteDrain
import GameServer.Http.HttpSession

/-!
# The answers on the wire

What a session is for has no buffers, no queue and no handlers of the socket in it: requests come
one after the other, and each is parsed, routed and answered (`Responder`). The session does the
same to its requests whatever the socket does in between (`respond_step`).

A client that waits for its answer sends the next request while no write is in flight. Then the
wire holds the answers in the order of the requests, the last one possibly in part
(`httpSession_wire`); and as long as nothing fails, the socket brings the rest by itself
(`httpSession_answered`).
-/

namespace GameServer.Http

open GameServer.Lib GameServer.Net

/-- What a session is asked to do. -/
inductive Asked where
  | addRouter (method : HttpMethod) (path : Bytes) (handler : HttpHandlerFunc)
  | request (content date : Bytes)

/-- A server for one client that does one thing after the other. -/
structure Responder where
  req : HttpRequest
  rep : HttpResponse
  router : HttpRouter
  turn : Nat
  /-- All answers up to now. -/
  answers : Bytes

namespace Responder

def fresh : Responder := ⟨.fresh, .fresh, .fresh, 0, []⟩

def respond (r : Responder) : Asked → Responder
  | .addRouter method path handler =>
    { r with router := r.router.addHttpHandler method path handler }
  | .request content date =>
    let req := (r.req.parse content).2
    let payload := (r.router.route r.turn req r.rep).getPayload date
    { r with req, rep := payload.2, turn := r.turn + 1, answers := r.answers ++ payload.1 }

end Responder

/-- What an event asks for. A completion without bytes asks for nothing. -/
def HttpEvent.asked : HttpEvent → Option Asked
  | .addRouter method path handler => some (.addRouter method path handler)
  | .net _ => none
  | .receive chunk date => if chunk = [] then none else some (.request chunk date)

/-- What the events ask for, done one after the other. -/
def Responder.after (events : List HttpEvent) : Responder :=
  (events.filterMap HttpEvent.asked).foldl respond fresh

namespace HttpSession

/-- What the responder knows of a session. -/
def responder (s : HttpSession) : Responder := ⟨s.req, s.rep, s.router, s.turn, s.net.sent⟩

/-- Nothing but the session itself sends, and the client waits until no write is in flight. -/
def HalfDuplex (s : HttpSession) : HttpEvent → Prop
  | .addRouter .. => True
  | .net (.sendMsg _) => False
  | .net (.sendProtoMessage _) => False
  | .net _ => True
  | .receive chunk _ => chunk = [] ∨ s.net.Quiet

end HttpSession

/-- No operation of the socket fails, and nobody closes the session. -/
def HttpEvent.ErrorFree : HttpEvent → Prop
  | .net e => e.ErrorFree
  | _ => True

end GameServer.Http

/-! ## What is handed in -/

namespace GameServer.Net

theorem sendMsg_sent (s : ISession) {message : MessageBuffer} (h : message.Valid) :
    (s.sendMsg message).sent = s.sent ++ message.readable := by
  unfold ISession.sendMsg
  split
  · next hz =>
    rw [← MessageBuffer.length_readable h] at hz
    rw [List.length_eq_zero_iff.1 (Nat.le_zero.1 hz), List.append_nil]
  · exact ISession.asyncWrite_sent _

/-- Neither the socket nor a close hands anything in. -/
theorem session_sent {s t : ISession} {e : SessionEvent} (ht : session.step s e = some t)
    (hmsg : ∀ m, e ≠ .sendMsg m) (hproto : ∀ m, e ≠ .sendProtoMessage m) : t.sent = s.sent := by
  cases e with
  | sendMsg m => exact absurd rfl (hmsg m)
  | sendProtoMessage m => exact absurd rfl (hproto m)
  | closeSession =>
    cases ht
    rfl
  | delayedCloseSession =>
    cases ht
    rfl
  | perform result =>
    change s.perform result = some t at ht
    unfold ISession.perform at ht
    split at ht
    · cases ht
    · cases result with
      | none =>
        cases ht
        rfl
      | some k =>
        simp only [Option.ite_none_right_eq_some, Option.some.injEq] at ht
        rw [← ht.2]
  | runHandler i =>
    change s.runHandler i = some t at ht
    unfold ISession.runHandler at ht
    split at ht
    · cases ht
    · next result _ =>
      cases result with
      | none =>
        cases ht
        rfl
      | some k =>
        obtain ⟨_, _, queue, -, -, ⟨-, rfl⟩ | ⟨-, rfl⟩⟩ := ISession.writeHandler_success ht
        · split <;> rfl
        · exact ISession.asyncWrite_sent _

end GameServer.Net

namespace GameServer.Http

open GameServer.Lib GameServer.Net

namespace HttpSession

variable {s t : HttpSession} {e : HttpEvent}

/-- What a step does to the write side. -/
inductive NetStep (s t : HttpSession) (e : HttpEvent) : Prop
  | same (h : t.net = s.net)
  | step (f : SessionEvent) (h : session.step s.net f = some t.net)
      (hserial : s.net.Serial f) (hfree : e.ErrorFree → f.ErrorFree)

/-- A request is answered as the responder does it, and the answer is sent. -/
theorem handleRequest_spec (s : HttpSession) (content date : Bytes) :
    (s.handleRequest content date).responder = s.responder.respond (.request content date) ∧
      ∃ message, session.step s.net (.sendMsg message) =
        some (s.handleRequest content date).net := by
  let response :=
    ((s.router.route s.turn (s.req.parse content).2 s.rep).getPayload date).1
  obtain ⟨hvalid, hread⟩ :=
    MessageBuffer.write_spec (MessageBuffer.ofSize_valid response.length) response
  have hsent := sendMsg_sent s.net hvalid
  rw [hread, MessageBuffer.ofSize_readable, List.nil_append] at hsent
  exact ⟨congrArg (Responder.mk _ _ _ _) hsent, ⟨_, hvalid⟩, rfl⟩

/-- **One step.** -/
theorem respond_step (h : Drained s.readBuffer) (hduplex : s.HalfDuplex e)
    (ht : httpSession.step s e = some t) :
    Drained t.readBuffer ∧
      t.responder = e.asked.elim s.responder s.responder.respond ∧ s.NetStep t e := by
  cases e with
  | addRouter method path handler =>
    cases ht
    exact ⟨h, rfl, .same rfl⟩
  | net f =>
    obtain ⟨net, hnet, rfl⟩ := Option.map_eq_some_iff.1 ht
    have hsent : net.sent = s.net.sent := by
      apply session_sent hnet
      · rintro m rfl
        exact hduplex
      · rintro m rfl
        exact hduplex
    refine ⟨h, ?_, .step f hnet ?_ id⟩
    · change (⟨s.req, s.rep, s.router, s.turn, net.sent⟩ : Responder) = s.responder
      rw [hsent]
      rfl
    · cases f with
      | sendMsg m => exact hduplex.elim
      | sendProtoMessage m => exact hduplex.elim
      | _ => exact trivial
  | receive chunk date =>
    obtain ⟨readBuffer, hdrained, -, rfl⟩ := receive_eq h ht
    by_cases hchunk : chunk = []
    · rw [if_pos hchunk]
      refine ⟨hdrained, ?_, .same rfl⟩
      rw [HttpEvent.asked, if_pos hchunk]
      rfl
    · rw [if_neg hchunk]
      obtain ⟨hresponder, message, hnet⟩ := handleRequest_spec s chunk date
      refine ⟨hdrained, ?_, .step (.sendMsg message) hnet (.inr (hduplex.resolve_left hchunk))
        fun _ => trivial⟩
      rw [HttpEvent.asked, if_neg hchunk]
      exact hresponder

/-- The invariant of a session whose client waits, after these events of the responder. -/
structure Answering (s : HttpSession) (r : Responder) : Prop where
  drained : Drained s.readBuffer
  responder : s.responder = r
  ordered : s.net.Ordered

theorem Answering.step {r : Responder} (h : s.Answering r) (hduplex : s.HalfDuplex e)
    (ht : httpSession.step s e = some t) : t.Answering (e.asked.elim r r.respond) := by
  obtain ⟨hdrained, hresponder, hnet⟩ := respond_step h.drained hduplex ht
  refine ⟨hdrained, h.responder ▸ hresponder, ?_⟩
  cases hnet with
  | same hsame =>
    rw [hsame]
    exact h.ordered
  | step f hf hserial _ => exact ordered_step _ f _ h.ordered hserial hf

theorem answering_fresh : fresh.Answering .fresh :=
  ⟨Drained.ofSize _, rfl, ISession.fresh_faultless.ordered⟩

theorem after_eq (events : List HttpEvent) : Responder.after events =
    events.foldl (fun r e => e.asked.elim r r.respond) .fresh := by
  rw [Responder.after, List.foldl_filterMap]
  congr 1
  funext r e
  cases e.asked with
  | none => rfl
  | some a => rfl

theorem answering_of_run {events : List HttpEvent}
    (hduplex : httpSession.Meets HalfDuplex fresh events)
    (hrun : httpSession.run fresh events = some s) : s.Answering (.after events) := by
  rw [after_eq]
  exact Machine.refines_of_run (C := HalfDuplex) (R := Answering)
    (fun _ _ _ _ hs hc ht => hs.step hc ht) answering_fresh hduplex hrun

end HttpSession

open HttpSession

/-- **The answers on the wire.** While the client waits for its answers, the bytes on the wire are
the answers to its requests in their order, up to some byte; all of them when the queue is empty. -/
theorem httpSession_wire {events : List HttpEvent} {s : HttpSession}
    (hduplex : httpSession.Meets HalfDuplex .fresh events)
    (hrun : httpSession.run .fresh events = some s) :
    s.net.wire <+: (Responder.after events).answers ∧
      (s.net.writeBufferQueue = [] → s.net.wire = (Responder.after events).answers) := by
  have h := answering_of_run hduplex hrun
  have hwire := h.ordered.phase.prefix
  rw [← h.responder]
  exact ⟨hwire, fun hq => (h.ordered.of_nil hq).2⟩

/-- One request for a registered path. -/
def oneRequest : List HttpEvent :=
  [.addRouter .GET (bytes "/") fun _ _ => ⟨[], false⟩,
    .receive (bytes "GET / HTTP/1.1\r\n\r\n") []]

theorem httpSession_wire_oneRequest : ∃ s, httpSession.run .fresh oneRequest = some s ∧
    s.net.wire <+: (Responder.after oneRequest).answers ∧
      (s.net.writeBufferQueue = [] → s.net.wire = (Responder.after oneRequest).answers) := by
  have hsome : (httpSession.run .fresh oneRequest).isSome := by decide +kernel
  obtain ⟨s, hs⟩ := Option.isSome_iff_exists.1 hsome
  have hduplex : httpSession.Meets HalfDuplex .fresh oneRequest := by
    intro u hu
    cases hu
    exact ⟨trivial, fun t _ => ⟨.inr ⟨rfl, rfl⟩, trivial⟩⟩
  exact ⟨s, hs, httpSession_wire hduplex hs⟩

namespace HttpSession

variable {s t : HttpSession} {e : HttpEvent}

/-- As long as nothing fails, the write side drains. -/
theorem draining_step (h : s.net.Draining) (hnet : s.NetStep t e) (hfree : e.ErrorFree) :
    t.net.Draining := by
  cases hnet with
  | same hsame =>
    rw [hsame]
    exact h
  | step f hf hserial hfree' =>
    exact h.step (Machine.restrict_step_eq_some.2 ⟨⟨hserial, hfree' hfree⟩, hf⟩)

/-- Steps of the socket, on the write side. -/
theorem run_net {as : List SessionEvent} (h : httpSession.run s (as.map .net) = some t) :
    session.run s.net as = some t.net := by
  induction as generalizing s with
  | nil =>
    cases h
    rfl
  | cons f as ih =>
    rw [List.map_cons, Machine.run_cons] at h
    obtain ⟨u, hu, hrest⟩ := Option.bind_eq_some_iff.1 h
    obtain ⟨net, hnet, rfl⟩ := Option.map_eq_some_iff.1 hu
    rw [Machine.run_cons, hnet]
    exact ih hrest

end HttpSession

/-- **Every request is answered.** If moreover nothing has failed, the socket takes at most
`remaining` steps by itself, and where it stops, the wire holds the answers to all requests. -/
theorem httpSession_answered {events : List HttpEvent} {as : List SessionEvent}
    {s t : HttpSession}
    (hduplex : httpSession.Meets (fun s e => s.HalfDuplex e ∧ e.ErrorFree) .fresh events)
    (hrun : httpSession.run .fresh events = some s) (hsocket : ∀ e ∈ as, e.Socket)
    (hmore : httpSession.run s (as.map .net) = some t) :
    as.length ≤ s.net.remaining ∧
      (t.net.Stuck → t.net.wire = (Responder.after events).answers) := by
  have hboth : s.Answering (.after events) ∧ s.net.Draining := by
    rw [after_eq]
    refine Machine.refines_of_run (C := fun s e => HalfDuplex s e ∧ e.ErrorFree)
      (R := fun s r => s.Answering r ∧ s.net.Draining) ?_
      ⟨answering_fresh, ISession.fresh_draining⟩ hduplex hrun
    rintro s r e t ⟨hs, hdrain⟩ ⟨hc, hfree⟩ ht
    exact ⟨hs.step hc ht, draining_step hdrain (respond_step hs.drained hc ht).2.2 hfree⟩
  obtain ⟨hanswering, hdraining⟩ := hboth
  obtain ⟨hle, hfrom⟩ := hdraining.run hsocket (run_net hmore)
  refine ⟨hle, fun hstuck => ?_⟩
  obtain ⟨-, hwire, -⟩ := hfrom.of_stuck hstuck
  exact hwire.trans (congrArg Responder.answers hanswering.responder)

/-- The answer is written in two parts. -/
def inTwoWrites : List SessionEvent :=
  [.perform (some 1), .runHandler 0, .perform (some 100), .runHandler 0]

theorem httpSession_answered_inTwoWrites : ∃ s t, httpSession.run .fresh oneRequest = some s ∧
    httpSession.run s (inTwoWrites.map .net) = some t ∧ inTwoWrites.length ≤ s.net.remaining ∧
      t.net.wire = (Responder.after oneRequest).answers := by
  have hidle : ∃ t ∈ (httpSession.run .fresh oneRequest).bind fun s =>
      httpSession.run s (inTwoWrites.map .net), t.net.outstanding = [] ∧ t.net.completed = [] := by
    decide +kernel
  obtain ⟨t, ht, houtstanding, hcompleted⟩ := hidle
  obtain ⟨s, hs, hmore⟩ := Option.bind_eq_some_iff.1 ht
  have hduplex :
      httpSession.Meets (fun s e => s.HalfDuplex e ∧ e.ErrorFree) .fresh oneRequest := by
    intro u hu
    cases hu
    exact ⟨⟨trivial, trivial⟩, fun v _ => ⟨⟨.inr ⟨rfl, rfl⟩, trivial⟩, trivial⟩⟩
  have hsocket : ∀ e ∈ inTwoWrites, e.Socket := by
    simp only [inTwoWrites, List.forall_mem_cons, SessionEvent.Socket, Option.isSome_some,
      true_and]
    exact fun _ he => absurd he List.not_mem_nil
  obtain ⟨hle, hwire⟩ := httpSession_answered hduplex hs hsocket hmore
  exact ⟨s, t, hs, hmore, hle, hwire (ISession.stuck_of_idle houtstanding hcompleted)⟩

end GameServer.Http
