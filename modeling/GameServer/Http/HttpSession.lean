import GameServer.Lib.Machine
import GameServer.Net.ReadRounds
import GameServer.Net.Session
import GameServer.Http.HttpRouter

/-!
# `HttpSession`

One request object and one response object serve every request of a session. `httpSession` is
the machine of a session: bytes that arrive and are handled, handlers that are registered, and
whatever happens on the write side, in any order.

`exchange` describes the request answered in the last step, `turn` counts the requests before;
neither is read by the code.
-/

namespace GameServer.Http

open GameServer.Lib GameServer.Net

/-- One request and its answer. -/
structure Exchange where
  content : Bytes
  /-- What `Parse` returned. -/
  status : Status
  /-- The key of the handler that was called. -/
  invoked : Option Bytes
  /-- The bytes queued for sending. -/
  answer : Bytes
  /-- The payload of a new response routed with the same handler at the same time. -/
  expected : Bytes
  deriving DecidableEq, Repr

structure HttpSession where
  net : ISession
  readBuffer : MessageBuffer
  req : HttpRequest
  rep : HttpResponse
  router : HttpRouter
  turn : Nat
  exchange : Option Exchange

namespace HttpSession

def fresh : HttpSession :=
  { net := .fresh, readBuffer := .ofSize MessageBuffer.initialBufferSize, req := .fresh
    rep := .fresh, router := .fresh, turn := 0, exchange := none }

def addRouter (s : HttpSession) (method : HttpMethod) (path : Bytes) (handler : HttpHandlerFunc) :
    HttpSession :=
  { s with router := s.router.addHttpHandler method path handler, exchange := none }

/-- The part of `ReadHandler` after a text was read: the result of `Parse` is not looked at. -/
def handleRequest (s : HttpSession) (content date : Bytes) : HttpSession :=
  let parsed := s.req.parse content
  let req := parsed.2
  let payload := (s.router.route s.turn req s.rep).getPayload date
  let sendBuffer := (MessageBuffer.ofSize payload.1.length).write payload.1
  let net := s.net.sendMsg sendBuffer
  { s with
    net, req
    rep := payload.2
    turn := s.turn + 1
    exchange := some {
      content
      status := parsed.1
      invoked := s.router.invoked req
      answer := net.sent.drop s.net.sent.length
      expected := ((s.router.route s.turn req .fresh).getPayload date).1 } }

def readHandler (s : HttpSession) (date : Bytes) : HttpSession :=
  if s.readBuffer.readableBytes ≤ 0 then s
  else
    let (content, readBuffer) := s.readBuffer.readAllAsString
    let s := { s with readBuffer }
    if content.isEmpty then s else s.handleRequest content date

/-- The socket delivers `chunk`, at most the writable region it was given, and the handler runs
at the time `date`. -/
def receive (s : HttpSession) (chunk date : Bytes) : Option HttpSession :=
  if chunk.length ≤ s.readBuffer.ensureFreeSpace.writableBytes then
    some (readHandler
      { s with readBuffer := received s.readBuffer chunk, exchange := none } date)
  else none

end HttpSession

inductive HttpEvent where
  | addRouter (method : HttpMethod) (path : Bytes) (handler : HttpHandlerFunc)
  | net (event : SessionEvent)
  | receive (chunk date : Bytes)

def httpSession : Machine HttpSession HttpEvent where
  init s := s = HttpSession.fresh
  step s
    | .addRouter method path handler => some (s.addRouter method path handler)
    | .net event => (session.step s.net event).map fun net => { s with net, exchange := none }
    | .receive chunk date => s.receive chunk date

/-! ## What one chunk does -/

namespace HttpSession

variable {s t : HttpSession} {chunk date : Bytes}

theorem answer_eq (s : HttpSession) (response : Bytes) :
    (s.net.sendMsg ((MessageBuffer.ofSize response.length).write response)).sent.drop
      s.net.sent.length = response := by
  obtain ⟨hvalid, hread⟩ := MessageBuffer.write_spec (MessageBuffer.ofSize_valid response.length)
    response
  rw [MessageBuffer.ofSize_readable, List.nil_append] at hread
  unfold ISession.sendMsg
  split
  · next hz =>
    rw [← MessageBuffer.length_readable hvalid, hread] at hz
    rw [List.drop_length, List.length_eq_zero_iff.1 (Nat.le_zero.1 hz)]
  · rw [ISession.asyncWrite_sent, hread, List.drop_left]

/-- **One chunk.** A drained buffer hands the chunk over as it came and is drained again. -/
theorem receive_eq (h : Drained s.readBuffer) (ht : s.receive chunk date = some t) :
    ∃ readBuffer, Drained readBuffer ∧
      readBuffer.buffer.length = s.readBuffer.buffer.length * 3 / 2 ∧
      t = if chunk = [] then { s with readBuffer, exchange := none }
        else { s.handleRequest chunk date with readBuffer } := by
  unfold receive at ht
  split at ht
  · next hroom =>
    rw [Option.some.injEq] at ht
    have hread := h.received_readable chunk
    have hbytes := h.received_readableBytes chunk
    have hdrained := h.consumeAll_received chunk
    have hlen := h.received_length hroom
    rw [← Drained.length_consumeAll] at hlen
    have hall := MessageBuffer.readAllAsString_eq (h.received_valid chunk)
    simp only [readHandler, hall, hread, hbytes] at ht
    simp only [consumeAll, hall, hbytes] at hdrained hlen
    cases chunk with
    | nil => exact ⟨_, hdrained, hlen, ht.symm⟩
    | cons c chunk => exact ⟨_, hdrained, hlen, ht.symm⟩
  · cases ht

/-- A chunk that fits is answered. A drained buffer has room for half as much again as its
size. -/
theorem exists_receive (h : Drained s.readBuffer) (hne : chunk ≠ [])
    (hlen : chunk.length ≤ s.readBuffer.buffer.length * 3 / 2) (date : Bytes) :
    ∃ readBuffer, Drained readBuffer ∧
      readBuffer.buffer.length = s.readBuffer.buffer.length * 3 / 2 ∧
      httpSession.step s (.receive chunk date) =
        some { s.handleRequest chunk date with readBuffer } := by
  rw [← h.length_ensureFreeSpace, ← h.ensureFreeSpace.writableBytes] at hlen
  have hs : s.receive chunk date = some (readHandler
      { s with readBuffer := received s.readBuffer chunk, exchange := none } date) := if_pos hlen
  obtain ⟨readBuffer, hdrained, hsize, ht⟩ := receive_eq h hs
  rw [if_neg hne] at ht
  exact ⟨readBuffer, hdrained, hsize, ht ▸ hs⟩

end HttpSession

end GameServer.Http
