import GameServer.Net.ServerSessions
import GameServer.Http.SessionWire

/-!
# `HttpServer`

The whole server: connections are accepted, each gets an `HttpSession` with the routes of
`InitHttpRouter`, requests arrive, the socket writes, and the update timer runs the callbacks and
lets go of closed sessions, in any order. What a client sees depends on nothing but its own
connection: it is the answers of a `Responder` to its own requests, in their order
(`httpServer_wire`, `httpServer_answered`).

The continuation of `/testAsync` keeps a reference to the response of its session. It runs in some
later pass of the callbacks, when that response has been sent: what it writes stays there for the
session's next answer (`Served.late`).

`httpConnection` is the machine of one connection, `httpServer` that of the server over any number
of them. Two kinds of executions are not runs of it:

* Nothing keeps a session for its continuation. When the client has left and `Update` has erased the
  session, the continuation writes through a dangling reference, which is undefined; it may reach
  the response of another client. A run ends before such a write (`HttpConnection.runLate`).
* The handlers of the `io_context` run one after the other, as on the thread of `Start`. The main
  function calls `ioContext.run()` on a second thread, and what the two race for is not modelled.
-/

namespace GameServer.Http

open GameServer.Lib GameServer.Net GameServer.Util

/-! ## One connection -/

/-- What a session has besides the part that `IServer` and the socket see. -/
structure HttpMembers where
  readBuffer : MessageBuffer
  req : HttpRequest
  rep : HttpResponse
  router : HttpRouter
  turn : Nat

structure HttpConnection where
  live : LiveSession
  members : HttpMembers

/-- The registrations of `InitHttpRouter`. What the handlers of `/test` and `/testAsync` start is
not in the response. -/
def initialRoutes (getUserInfo : HttpHandlerFunc) : List (HttpMethod × Bytes × HttpHandlerFunc) :=
  [(.GET, bytes "/", fun _ _ => ⟨[.setStatusCode .Ok, .setContent
      (bytes "Hello " ++ [0xe4, 0xbd, 0xa0, 0xe5, 0xa5, 0xbd] ++ bytes "!")], false⟩),
    (.GET, bytes "/userInfo", getUserInfo),
    (.GET, bytes "/test", fun _ _ => ⟨[], false⟩),
    (.GET, bytes "/testAsync", fun _ _ => ⟨[], false⟩)]

inductive ConnectionEvent where
  | initHttpRouter (getUserInfo : HttpHandlerFunc)
  /-- A read is complete, its `ReadHandler` runs, and the next read is started. -/
  | receive (chunk date : Bytes)
  | readFailed
  | net (event : SessionEvent)
  /-- A continuation that has kept the response runs. -/
  | late (effects : List ResponseEffect)
  | update

namespace HttpConnection

/-- The object as `HttpSession` sees it. -/
def http (c : HttpConnection) : HttpSession where
  net := c.live.session
  readBuffer := c.members.readBuffer
  req := c.members.req
  rep := c.members.rep
  router := c.members.router
  turn := c.members.turn
  exchange := none

/-- What member functions of `HttpSession` have made of it. -/
def withHttp (c : HttpConnection) (s : HttpSession) : HttpConnection where
  live := { c.live with session := s.net, late := c.live.count (c.live.session.growth s.net) }
  members := ⟨s.readBuffer, s.req, s.rep, s.router, s.turn⟩

def withLive (c : HttpConnection) (live : LiveSession) : HttpConnection := { c with live }

def started : HttpConnection :=
  ⟨.started, ⟨.ofSize MessageBuffer.initialBufferSize, .fresh, .fresh, .fresh, 0⟩⟩

/-- Something holds the object: `_sessions`, or an operation of its socket. -/
def alive (c : HttpConnection) : Bool :=
  c.live.listed || c.live.reads != 0 || c.live.handling != 0 ||
    !c.live.session.outstanding.isEmpty || !c.live.session.completed.isEmpty

def initHttpRouter (c : HttpConnection) (getUserInfo : HttpHandlerFunc) : HttpConnection :=
  c.withHttp ((initialRoutes getUserInfo).foldl (fun s r => s.addRouter r.1 r.2.1 r.2.2) c.http)

/-- What a continuation does to the response it has kept. The source does not ask whether the object
is there: without it the reference dangles, and there is no step for what the write may do. -/
def runLate (c : HttpConnection) (effects : List ResponseEffect) : Option HttpConnection :=
  if c.alive then
    some { c with members := { c.members with rep := effects.foldl .apply c.members.rep } }
  else none

end HttpConnection

def httpConnection : Machine HttpConnection ConnectionEvent where
  init c := c = .started
  step c
    | .initHttpRouter getUserInfo => some (c.initHttpRouter getUserInfo)
    | .receive chunk date => do
      let c := c.withLive (← lifetime.step c.live (.readDone false))
      let c := c.withHttp (← c.http.receive chunk date)
      some (c.withLive (← lifetime.step c.live .readHandled))
    | .readFailed => (lifetime.step c.live (.readDone true)).map c.withLive
    | .net e => (lifetime.step c.live (.session e)).map c.withLive
    | .late effects => c.runLate effects
    | .update => (lifetime.step c.live .update).map c.withLive

/-! ## The server -/

structure HttpServer (κ τ : Type) where
  net : ServerState κ τ
  /-- What the sessions made so far have besides `net.table.made`. -/
  members : List HttpMembers

namespace HttpServer

variable {κ τ : Type}

def connections (s : HttpServer κ τ) : List HttpConnection :=
  List.zipWith .mk s.net.table.made s.members

def withConnections (s : HttpServer κ τ) (connections : List HttpConnection) : HttpServer κ τ where
  net := s.net.withTable { s.net.table with made := connections.map HttpConnection.live }
  members := connections.map HttpConnection.members

/-- After `Start`. -/
def started (world : τ) : HttpServer κ τ := ⟨.started world, []⟩

end HttpServer

inductive HttpServerEvent (κ τ : Type) where
  | accept (result : AcceptResult)
  | connection (i : Nat) (e : ConnectionEvent)
  | timer
  | addCallback (callback : κ)
  | elapse (world : τ)

/-- `InitHttpRouter` is called by the handler of `DoAccept`, `ISession::Update` by the timer's. -/
def ConnectionEvent.fromServer : ConnectionEvent → Bool
  | .initHttpRouter _ => true
  | .update => true
  | _ => false

section Code

variable {κ τ ε : Type} (T : CallbackType κ τ ε) (growth : Nat → Nat)
  (getUserInfo : Nat → HttpHandlerFunc)

/-- The handler of `DoAccept`; the handlers of connection `i` are those of `getUserInfo i`. -/
def HttpServer.accepted (s : HttpServer κ τ) (net : ServerState κ τ) :
    AcceptResult → HttpServer κ τ
  | .connected =>
    let session := HttpConnection.started.initHttpRouter (getUserInfo s.members.length)
    ⟨net, s.members ++ [session.members]⟩
  | _ => ⟨net, s.members⟩

def httpServer : Machine (HttpServer κ τ) (HttpServerEvent κ τ) where
  init s := ∃ world, s = .started world
  step s
    | .accept result =>
      ((netServer T growth).step s.net (.accept result)).map fun net =>
        s.accepted getUserInfo net result
    | .connection i e =>
      if e.fromServer then none
      else (httpConnection.stepOne i e s.connections).map s.withConnections
    | .timer => ((netServer T growth).step s.net .timer).map fun net => ⟨net, s.members⟩
    | .addCallback callback =>
      ((netServer T growth).step s.net (.addCallback callback)).map fun net => ⟨net, s.members⟩
    | .elapse world =>
      ((netServer T growth).step s.net (.elapse world)).map fun net => ⟨net, s.members⟩

end Code

/-! ## What a client is served -/

/-- What concerns the answers: a request or a registration, or a late write to the response. -/
inductive Served where
  | asked (a : Asked)
  | late (effects : List ResponseEffect)

namespace Responder

def serve (r : Responder) : Served → Responder
  | .asked a => r.respond a
  | .late effects => { r with rep := effects.foldl .apply r.rep }

end Responder

namespace ConnectionEvent

def served : ConnectionEvent → List Served
  | .initHttpRouter getUserInfo =>
    (initialRoutes getUserInfo).map fun r => .asked (.addRouter r.1 r.2.1 r.2.2)
  | .receive chunk date => if chunk = [] then [] else [.asked (.request chunk date)]
  | .late effects => [.late effects]
  | _ => []

/-- Nothing fails on the connection, and nobody closes the session. -/
def ErrorFree : ConnectionEvent → Prop
  | .readFailed => False
  | .net e => e.ErrorFree
  | _ => True

/-- The step of the socket, if it is one. -/
def written : ConnectionEvent → Option SessionEvent
  | .net e => some e
  | _ => none

/-- The client sends nothing: the socket goes on, and the server updates the session. -/
def Waiting : ConnectionEvent → Prop
  | .net e => e.Socket
  | .late _ => True
  | .update => True
  | _ => False

instance decidableWaiting : DecidablePred Waiting
  | .net e => inferInstanceAs (Decidable e.Socket)
  | .late _ | .update => isTrue trivial
  | .initHttpRouter _ | .receive .. | .readFailed => isFalse id

end ConnectionEvent

/-- What the events of a connection ask for, done one after the other. -/
def Responder.served (events : List ConnectionEvent) : Responder :=
  (events.flatMap ConnectionEvent.served).foldl serve fresh

namespace HttpConnection

/-- The client sends no request while a write is in flight, and nothing but answers is sent. -/
def HalfDuplex (c : HttpConnection) : ConnectionEvent → Prop
  | .receive chunk _ => chunk = [] ∨ c.live.session.Quiet
  | .net e => c.http.HalfDuplex (.net e)
  | _ => True

variable {c d : HttpConnection} {e : ConnectionEvent} {r : Responder}

/-- `CloseSession` on a session that is closed. -/
theorem update_session (s : LiveSession) : s.update.session = s.session := by
  unfold LiveSession.update
  split
  · next h =>
    obtain ⟨-, hclosed⟩ := Bool.and_eq_true_iff.1 h
    simp only [ISession.closeSession, ← hclosed]
  · rfl

/-- The step of `receive`, taken apart. -/
theorem receive_spec {chunk date : Bytes}
    (h : httpConnection.step c (.receive chunk date) = some d) :
    ∃ s, httpSession.step c.http (.receive chunk date) = some s ∧
      d.http = { s with exchange := none } ∧ d.live.listed = c.live.listed := by
  simp only [httpConnection, lifetime, Option.bind_eq_bind, Option.bind_eq_some_iff,
    Option.ite_none_left_eq_some, Option.some.injEq] at h
  obtain ⟨_, ⟨-, rfl⟩, s, hs, _, ⟨-, rfl⟩, rfl⟩ := h
  exact ⟨s, hs, rfl, rfl⟩

/-- A step of the write side is one of the session. -/
theorem net_spec {f : SessionEvent} (h : httpConnection.step c (.net f) = some d) :
    session.step c.live.session f = some d.live.session ∧
      httpSession.step c.http (.net f) = some d.http := by
  simp only [httpConnection, lifetime, Option.map_eq_some_iff] at h
  obtain ⟨_, ⟨net, hnet, rfl⟩, rfl⟩ := h
  refine ⟨hnet, ?_⟩
  change (session.step c.live.session f).map _ = _
  rw [hnet]
  rfl

/-- A late write changes the response only. -/
theorem late_spec {effects : List ResponseEffect}
    (h : httpConnection.step c (.late effects) = some d) :
    d.live = c.live ∧ d.http = { c.http with rep := effects.foldl .apply c.http.rep } := by
  simp only [httpConnection, runLate, Option.ite_none_right_eq_some, Option.some.injEq] at h
  obtain ⟨-, rfl⟩ := h
  exact ⟨rfl, rfl⟩

/-- What the server does to a session leaves it as it is for the client. -/
theorem update_spec (h : httpConnection.step c .update = some d) : d.http = c.http := by
  simp only [httpConnection, lifetime, Option.map_some, Option.some.injEq] at h
  subst h
  simp only [http, withLive, update_session]

/-- What `exchange` describes is not part of the invariant. -/
theorem answering_unmarked {s : HttpSession} (h : s.Answering r) :
    HttpSession.Answering { s with exchange := none } r := ⟨h.drained, h.responder, h.ordered⟩

theorem served_receive (r : Responder) (chunk date : Bytes) :
    (ConnectionEvent.receive chunk date).served.foldl Responder.serve r =
      (HttpEvent.receive chunk date).asked.elim r r.respond := by
  by_cases hchunk : chunk = []
  · rw [ConnectionEvent.served, HttpEvent.asked, if_pos hchunk, if_pos hchunk]
    rfl
  · rw [ConnectionEvent.served, HttpEvent.asked, if_neg hchunk, if_neg hchunk]
    rfl

/-- The registrations of `InitHttpRouter`. -/
theorem initHttpRouter_http (h : c.http.Answering r) (getUserInfo : HttpHandlerFunc) :
    (c.initHttpRouter getUserInfo).http.Answering
      ((ConnectionEvent.initHttpRouter getUserInfo).served.foldl Responder.serve r) := by
  have hroutes : ∀ (l : List (HttpMethod × Bytes × HttpHandlerFunc)) (s : HttpSession)
      (q : Responder), s.Answering q →
        (l.foldl (fun s r => s.addRouter r.1 r.2.1 r.2.2) s).Answering
          ((l.map fun r => Served.asked (.addRouter r.1 r.2.1 r.2.2)).foldl Responder.serve q) := by
    intro l
    induction l with
    | nil => exact fun _ _ hs => hs
    | cons route l ih =>
      intro s q hs
      exact ih _ _ (hs.step (e := .addRouter route.1 route.2.1 route.2.2) trivial rfl)
  exact answering_unmarked (hroutes (initialRoutes getUserInfo) c.http r h)

/-- **One step** of a connection is one of the responder. -/
theorem answering_step (h : c.http.Answering r) (hduplex : c.HalfDuplex e)
    (ht : httpConnection.step c e = some d) :
    d.http.Answering (e.served.foldl Responder.serve r) := by
  cases e with
  | initHttpRouter getUserInfo =>
    cases ht
    exact initHttpRouter_http h getUserInfo
  | receive chunk date =>
    obtain ⟨s, hs, hd, -⟩ := receive_spec ht
    have hstep := h.step (e := .receive chunk date) hduplex hs
    rw [hd, served_receive]
    exact answering_unmarked hstep
  | readFailed =>
    simp only [httpConnection, lifetime, Option.map_eq_some_iff, Option.ite_none_left_eq_some,
      Option.some.injEq] at ht
    obtain ⟨_, ⟨-, rfl⟩, rfl⟩ := ht
    exact h.step (e := .net .closeSession) trivial rfl
  | net f => exact h.step hduplex (net_spec ht).2
  | late effects =>
    rw [(late_spec ht).2]
    exact ⟨h.drained, congrArg (Responder.serve · (.late effects)) h.responder, h.ordered⟩
  | update =>
    rw [update_spec ht]
    exact h

theorem started_answering : started.http.Answering .fresh := HttpSession.answering_fresh

/-- All that a `ReadHandler` does to the write side is to send a message. -/
theorem receive_net {s t : HttpSession} {chunk date : Bytes} (h : s.receive chunk date = some t) :
    t.net = s.net ∨ ∃ message, t.net = s.net.sendMsg message := by
  unfold HttpSession.receive at h
  split at h
  · cases h
    unfold HttpSession.readHandler
    split
    · exact .inl rfl
    · dsimp only
      split
      · exact .inl rfl
      · exact .inr ⟨_, rfl⟩
  · cases h

/-- The events of a connection leave it listed and, if it was closed, closed. -/
theorem own_step (he : e.fromServer = false) (ht : httpConnection.step c e = some d) :
    d.live.listed = c.live.listed ∧
      (c.live.session.closed = true → d.live.session.closed = true) := by
  cases e with
  | initHttpRouter getUserInfo => cases he
  | receive chunk date =>
    obtain ⟨s, hs, hd, hlisted⟩ := receive_spec ht
    refine ⟨hlisted, fun hclosed => ?_⟩
    have hnet : d.live.session = s.net := congrArg HttpSession.net hd
    rw [hnet]
    -- the answer is sent on a closed session too
    rcases receive_net hs with hsame | ⟨message, hsent⟩
    · rw [hsame]
      exact hclosed
    · rw [hsent]
      rcases ISession.sendMsg_cases c.live.session message with heq | ⟨hwrites, -⟩
      · exact (congrArg ISession.closed heq).trans hclosed
      · exact hwrites.closed.trans hclosed
  | readFailed =>
    obtain ⟨live, hlive, rfl⟩ := Option.map_eq_some_iff.1 ht
    exact LiveSession.own_step rfl hlive
  | net f =>
    obtain ⟨live, hlive, rfl⟩ := Option.map_eq_some_iff.1 ht
    exact LiveSession.own_step rfl hlive
  | late effects =>
    rw [(late_spec ht).1]
    exact ⟨rfl, id⟩
  | update => cases he

end HttpConnection

/-! ## The connections of the server -/

section Runs

variable {κ τ ε : Type} {T : CallbackType κ τ ε} {growth : Nat → Nat}
  {getUserInfo : Nat → HttpHandlerFunc} {s t : HttpServer κ τ} {e : HttpServerEvent κ τ}

namespace HttpServer

/-- The step as one of the family of connections. -/
def familyLabels (getUserInfo : Nat → HttpHandlerFunc) (s : HttpServer κ τ) :
    HttpServerEvent κ τ → HttpServer κ τ → List (FamilyLabel ConnectionEvent)
  | .accept .connected, _ =>
    [.spawn, .one s.members.length (.initHttpRouter (getUserInfo s.members.length))]
  | .connection i e, _ => [.one i e]
  | .timer, t => if t.net.server.logged = s.net.server.logged then [.all .update] else []
  | _, _ => []

/-- The invariant of the server. -/
structure Serving (s : HttpServer κ τ) : Prop where
  net : s.net.Serving
  length : s.members.length = s.net.table.made.length

theorem started_serving (world : τ) : (started (κ := κ) world).Serving :=
  ⟨Net.started_serving world, rfl⟩

theorem connections_withConnections (s : HttpServer κ τ) (cs : List HttpConnection) :
    (s.withConnections cs).connections = cs := by
  unfold connections withConnections
  induction cs with
  | nil => rfl
  | cons c cs ih => exact congrArg (c :: ·) ih

theorem Serving.length_connections (h : s.Serving) : s.connections.length = s.members.length := by
  rw [connections, List.length_zipWith, ← h.length, Nat.min_self]

theorem Serving.live_connections (h : s.Serving) :
    s.connections.map HttpConnection.live = s.net.table.made := by
  apply List.ext_getElem
  · rw [List.length_map, h.length_connections, h.length]
  · intro i _ _
    simp [connections]

/-- The accept handler: a connection is started and given its routes. -/
theorem connections_accepted (h : s.Serving) {result : AcceptResult} {net : ServerState κ τ}
    (hnet : (netServer T growth).step s.net (.accept result) = some net) :
    (httpConnection.family .started).run s.connections
        (familyLabels getUserInfo s (.accept result) (s.accepted getUserInfo net result)) =
      some (s.accepted getUserInfo net result).connections := by
  simp only [netServer, Option.ite_none_right_eq_some, Option.some.injEq] at hnet
  obtain ⟨-, rfl⟩ := hnet
  cases result with
  | connected =>
    have hroutes : httpConnection.stepOne s.members.length
        (.initHttpRouter (getUserInfo s.members.length)) (s.connections ++ [.started]) =
        some (s.connections ++ [HttpConnection.initHttpRouter .started
          (getUserInfo s.members.length)]) := by
      unfold Machine.stepOne
      rw [← h.length_connections, List.getElem?_concat_length]
      simp [httpConnection]
    have hconnections :
        (s.accepted getUserInfo (s.net.accepted .connected) .connected).connections =
          s.connections ++ [HttpConnection.initHttpRouter .started
            (getUserInfo s.members.length)] := List.zipWith_append h.length.symm
    rw [hconnections]
    change (httpConnection.stepOne s.members.length _ (s.connections ++ [.started])).bind _ = _
    rw [hroutes]
    rfl
  | failed => rfl
  | gone => rfl

/-- What every step of the server does: it goes on serving, and its connections take a step as a
family. -/
def Advances (getUserInfo : Nat → HttpHandlerFunc) (s : HttpServer κ τ) (e : HttpServerEvent κ τ)
    (t : HttpServer κ τ) : Prop :=
  t.Serving ∧ (httpConnection.family .started).run s.connections (familyLabels getUserInfo s e t) =
    some t.connections

theorem Serving.accepted (h : s.Serving) {result : AcceptResult} {net : ServerState κ τ}
    (hnet : (netServer T growth).step s.net (.accept result) = some net) :
    s.Advances getUserInfo (.accept result) (s.accepted getUserInfo net result) := by
  refine ⟨⟨?_, ?_⟩, connections_accepted h hnet⟩
  · have hserving := (h.net.step hnet).1
    cases result with
    | connected => exact hserving
    | failed => exact hserving
    | gone => exact hserving
  · simp only [netServer, Option.ite_none_right_eq_some, Option.some.injEq] at hnet
    obtain ⟨-, rfl⟩ := hnet
    cases result with
    | connected =>
      change (s.members ++ [_]).length = (s.net.table.made ++ [_]).length
      rw [List.length_append, List.length_append, h.length]
      rfl
    | failed => exact h.length
    | gone => exact h.length

/-- One connection moves. -/
theorem Serving.connection (h : s.Serving) {i : Nat} {e : ConnectionEvent}
    (he : e.fromServer = false) {cs : List HttpConnection}
    (hcs : httpConnection.stepOne i e s.connections = some cs) :
    s.Advances getUserInfo (.connection i e) (s.withConnections cs) := by
  obtain ⟨-, c, d, hc, hstep, rfl⟩ := Machine.stepOne_spec hcs
  obtain ⟨hlisted, hclosed⟩ := HttpConnection.own_step he hstep
  have hlive : s.net.table.made[i]? = some c.live := by
    rw [← h.live_connections, List.getElem?_map, hc, Option.map_some]
  have hset : (s.connections.set i d).map HttpConnection.live =
      s.net.table.made.set i d.live := by rw [List.map_set, h.live_connections]
  refine ⟨⟨⟨h.net.armed, ?_⟩, ?_⟩, ?_⟩
  · change SessionTable.Listed ⟨s.net.table.sessions, (s.connections.set i d).map _⟩
    rw [hset]
    exact h.net.listed.set hlive hlisted hclosed
  · change ((s.connections.set i d).map _).length = ((s.connections.set i d).map _).length
    rw [List.length_map, List.length_map]
  · rw [connections_withConnections]
    change (httpConnection.stepOne i e s.connections).bind _ = _
    rw [hcs]
    rfl

/-- The timer expires. A pass that an exception left has updated no session. -/
theorem Serving.timer (h : s.Serving) {net : ServerState κ τ}
    (hnet : (netServer T growth).step s.net .timer = some net) :
    s.Advances getUserInfo .timer ⟨net, s.members⟩ := by
  obtain ⟨-, -, hcases⟩ := timer_spec h.net hnet
  refine ⟨⟨(h.net.step hnet).1, ?_⟩, ?_⟩
  · rcases hcases with ⟨-, htable⟩ | ⟨-, htable⟩
    · rw [htable]
      exact h.length
    · rw [htable, h.net.listed.updateSessions, List.length_map]
      exact h.length
  · change (httpConnection.family .started).run s.connections
      (if net.server.logged = s.net.server.logged then [.all .update] else []) = _
    rcases hcases with ⟨hlogged, htable⟩ | ⟨hlogged, htable⟩
    · rw [if_neg (by omega)]
      simp only [connections, htable, Machine.run_nil]
    · rw [if_pos hlogged, Machine.run_cons]
      change (httpConnection.stepAll .update s.connections).bind _ = _
      rw [Machine.stepAll_eq_map fun _ => rfl]
      simp only [connections, htable, h.net.listed.updateSessions, List.zipWith_map_left,
        List.map_zipWith, Option.bind_some, Machine.run_nil]
      rfl

/-- **One step.** -/
theorem Serving.step (h : s.Serving)
    (ht : (httpServer T growth getUserInfo).step s e = some t) : s.Advances getUserInfo e t := by
  cases e with
  | accept result =>
    obtain ⟨net, hnet, rfl⟩ := Option.map_eq_some_iff.1 ht
    exact h.accepted hnet
  | connection i e =>
    simp only [httpServer, Option.ite_none_left_eq_some, Option.map_eq_some_iff] at ht
    obtain ⟨he, cs, hcs, rfl⟩ := ht
    exact h.connection (Bool.not_eq_true _ ▸ he) hcs
  | timer =>
    obtain ⟨net, hnet, rfl⟩ := Option.map_eq_some_iff.1 ht
    exact h.timer hnet
  | addCallback callback =>
    cases ht
    exact ⟨⟨⟨h.net.armed, h.net.listed⟩, h.length⟩, rfl⟩
  | elapse world =>
    cases ht
    exact ⟨⟨⟨h.net.armed, h.net.listed⟩, h.length⟩, rfl⟩

/-- The events of connection `i` in a run. -/
def ownEvents (T : CallbackType κ τ ε) (growth : Nat → Nat) (getUserInfo : Nat → HttpHandlerFunc)
    (s : HttpServer κ τ) (events : List (HttpServerEvent κ τ)) (i : Nat) : List ConnectionEvent :=
  Machine.ownLabels i s.connections.length
    ((httpServer T growth getUserInfo).labels (familyLabels getUserInfo) s events)

/-- A connection takes its own steps, whatever happens to the others. -/
theorem Serving.run (h : s.Serving) {events : List (HttpServerEvent κ τ)}
    (hrun : (httpServer T growth getUserInfo).run s events = some t) : t.Serving ∧
      ∀ {i : Nat} {d : HttpConnection}, t.connections[i]? = some d →
        httpConnection.run (s.connections[i]?.getD .started)
          (ownEvents T growth getUserInfo s events i) = some d := by
  have hfamily := Machine.run_labels (I := Serving) (F := connections)
    (fun _ _ _ hs ht => hs.step ht) h hrun
  refine ⟨?_, fun hd => Machine.family_run hfamily hd⟩
  exact Machine.keeps_of_run (fun _ _ _ hs ht => (hs.step ht).1) h hrun

end HttpServer

end Runs

/-! ## What clients see -/

namespace HttpConnection

variable {c d : HttpConnection} {e : ConnectionEvent} {r : Responder}

theorem served_eq (events : List ConnectionEvent) : Responder.served events =
    events.foldl (fun r e => e.served.foldl Responder.serve r) .fresh :=
  List.foldl_flatMap ..

/-- As long as nothing fails, the write side drains. -/
theorem draining_step (h : c.http.Answering r) (hdrain : c.live.session.Draining)
    (hduplex : c.HalfDuplex e) (hfree : e.ErrorFree) (ht : httpConnection.step c e = some d) :
    d.live.session.Draining := by
  cases e with
  | initHttpRouter getUserInfo =>
    cases ht
    exact hdrain
  | receive chunk date =>
    obtain ⟨s, hs, hd, -⟩ := receive_spec ht
    have hnet : d.live.session = s.net := congrArg HttpSession.net hd
    rw [hnet]
    obtain ⟨-, -, hstep⟩ := HttpSession.respond_step (e := .receive chunk date) h.drained hduplex hs
    exact HttpSession.draining_step hdrain hstep trivial
  | readFailed => exact hfree.elim
  | net f =>
    obtain ⟨-, -, hstep⟩ := HttpSession.respond_step h.drained hduplex (net_spec ht).2
    exact HttpSession.draining_step hdrain hstep hfree
  | late effects =>
    rw [(late_spec ht).1]
    exact hdrain
  | update =>
    have hnet : d.live.session = c.live.session := congrArg HttpSession.net (update_spec ht)
    rw [hnet]
    exact hdrain

/-- While the client waits, the connection takes steps of its socket only. -/
theorem waiting_run {as : List ConnectionEvent} (hwaiting : ∀ e ∈ as, e.Waiting)
    (h : httpConnection.run c as = some d) :
    (∀ e ∈ as.filterMap ConnectionEvent.written, e.Socket) ∧
      session.run c.live.session (as.filterMap ConnectionEvent.written) =
        some d.live.session := by
  induction as generalizing c with
  | nil =>
    cases h
    exact ⟨fun _ he => absurd he List.not_mem_nil, rfl⟩
  | cons e as ih =>
    rw [Machine.run_cons] at h
    obtain ⟨b, hb, hrest⟩ := Option.bind_eq_some_iff.1 h
    obtain ⟨hsocket, hrun⟩ := ih (fun x hx => hwaiting x (List.mem_cons_of_mem e hx)) hrest
    have he := hwaiting e List.mem_cons_self
    cases e with
    | net f =>
      rw [List.filterMap_cons_some (f := ConnectionEvent.written) rfl]
      refine ⟨List.forall_mem_cons.2 ⟨he, hsocket⟩, ?_⟩
      rw [Machine.run_cons, (net_spec hb).1]
      exact hrun
    | late effects =>
      rw [(late_spec hb).1] at hrun
      exact ⟨hsocket, hrun⟩
    | update =>
      have hnet : b.live.session = c.live.session := congrArg HttpSession.net (update_spec hb)
      rw [hnet] at hrun
      exact ⟨hsocket, hrun⟩
    | initHttpRouter getUserInfo => exact he.elim
    | receive chunk date => exact he.elim
    | readFailed => exact he.elim

end HttpConnection

section Clients

variable {κ τ ε : Type} {T : CallbackType κ τ ε} {growth : Nat → Nat}
  {getUserInfo : Nat → HttpHandlerFunc} {world : τ} {events : List (HttpServerEvent κ τ)}
  {s : HttpServer κ τ} {i : Nat} {c : HttpConnection}

theorem own_run (hrun : (httpServer T growth getUserInfo).run (.started world) events = some s)
    (hc : s.connections[i]? = some c) : s.Serving ∧ httpConnection.run .started
      (HttpServer.ownEvents T growth getUserInfo (.started world) events i) = some c := by
  obtain ⟨hs, hown⟩ := (HttpServer.started_serving world).run hrun
  exact ⟨hs, hown hc⟩

/-- **What a client sees.** Whatever the server does for others, as long as no continuation has
written to the response of a session that is gone, the bytes on the wire of a client that waits for
its answers are the answers to its own requests in their order, up to some byte; all of them when
the queue is empty. -/
theorem httpServer_wire
    (hrun : (httpServer T growth getUserInfo).run (.started world) events = some s)
    (hc : s.connections[i]? = some c)
    (hduplex : httpConnection.Meets HttpConnection.HalfDuplex .started
      (HttpServer.ownEvents T growth getUserInfo (.started world) events i)) :
    let answers := (Responder.served
      (HttpServer.ownEvents T growth getUserInfo (.started world) events i)).answers
    c.live.session.wire <+: answers ∧
      (c.live.session.writeBufferQueue = [] → c.live.session.wire = answers) := by
  obtain ⟨-, hown⟩ := own_run hrun hc
  have h := Machine.refines_of_run (C := HttpConnection.HalfDuplex)
    (R := fun (c : HttpConnection) r => c.http.Answering r)
    (fun _ _ _ _ hs hd ht => HttpConnection.answering_step hs hd ht)
    HttpConnection.started_answering hduplex hown
  rw [← HttpConnection.served_eq] at h
  have hwire := h.ordered.phase.prefix
  have hqueue := h.ordered.of_nil
  rw [← h.responder]
  exact ⟨hwire, fun hq => (hqueue hq).2⟩

end Clients

/-- The second of two clients sends a request; the first one leaves. -/
def twoClients : List (HttpServerEvent Empty Unit) :=
  [.accept .connected, .accept .connected,
    .connection 1 (.receive (bytes "GET / HTTP/1.1\r\n\r\n") []), .connection 0 .readFailed]

/-- No user is found. -/
def noUserInfo : Nat → HttpHandlerFunc := fun _ _ _ =>
  ⟨[.setStatusCode .InternalServerError], false⟩

/-- What happens to the second client of `twoClients`. -/
def secondClient : List ConnectionEvent :=
  [.initHttpRouter (noUserInfo 1), .receive (bytes "GET / HTTP/1.1\r\n\r\n") []]

/-- The second client has no event for what happens to the first one. -/
theorem ownEvents_twoClients {s : HttpServer Empty Unit}
    (h : (httpServer noCallbacks id noUserInfo).run (.started ()) twoClients = some s) :
    HttpServer.ownEvents noCallbacks id noUserInfo (.started ()) twoClients 1 = secondClient := by
  simp only [twoClients, Machine.run_cons, Option.bind_eq_some_iff] at h
  obtain ⟨s₁, h₁, s₂, h₂, s₃, h₃, s₄, h₄, -⟩ := h
  rw [HttpServer.ownEvents, twoClients, Machine.labels_cons h₁, Machine.labels_cons h₂,
    Machine.labels_cons h₃, Machine.labels_cons h₄]
  cases h₁
  rfl

theorem secondClient_meets : httpConnection.Meets (fun c e => c.HalfDuplex e ∧ e.ErrorFree)
    .started secondClient := by
  intro c hc
  cases hc
  refine ⟨⟨trivial, trivial⟩, fun d _ => ⟨⟨.inr ⟨rfl, rfl⟩, trivial⟩, trivial⟩⟩

theorem httpServer_wire_twoClients : ∃ s c,
    (httpServer noCallbacks id noUserInfo).run (.started ()) twoClients = some s ∧
      s.connections[1]? = some c ∧ c.live.session.wire <+: (Responder.served secondClient).answers ∧
        (c.live.session.writeBufferQueue = [] →
          c.live.session.wire = (Responder.served secondClient).answers) := by
  have hsome : (((httpServer noCallbacks id noUserInfo).run (.started ()) twoClients).bind
      fun s => s.connections[1]?).isSome := by decide +kernel
  obtain ⟨c, hc⟩ := Option.isSome_iff_exists.1 hsome
  obtain ⟨s, hs, hc⟩ := Option.bind_eq_some_iff.1 hc
  have hduplex : httpConnection.Meets HttpConnection.HalfDuplex .started secondClient :=
    Machine.Meets.mono (fun _ _ h => h.1) secondClient_meets
  refine ⟨s, c, hs, hc, ?_⟩
  have hwire := httpServer_wire hs hc (ownEvents_twoClients hs ▸ hduplex)
  rwa [ownEvents_twoClients hs] at hwire

section Clients

variable {κ τ ε : Type} {T : CallbackType κ τ ε} {growth : Nat → Nat}
  {getUserInfo : Nat → HttpHandlerFunc} {world : τ} {events : List (HttpServerEvent κ τ)}
  {s : HttpServer κ τ} {i : Nat} {c : HttpConnection}

/-- **Every client is answered.** If moreover nothing has failed on its connection and nobody has
closed its session, then while the client waits its socket takes at most `remaining` steps, in
whatever order with the steps of the others; and where it stops, the wire holds the answers to all
its requests. -/
theorem httpServer_answered {more : List (HttpServerEvent κ τ)} {t : HttpServer κ τ}
    {d : HttpConnection}
    (hrun : (httpServer T growth getUserInfo).run (.started world) events = some s)
    (hc : s.connections[i]? = some c)
    (hduplex : httpConnection.Meets (fun c e => c.HalfDuplex e ∧ e.ErrorFree) .started
      (HttpServer.ownEvents T growth getUserInfo (.started world) events i))
    (hmore : (httpServer T growth getUserInfo).run s more = some t)
    (hd : t.connections[i]? = some d)
    (hwaiting : ∀ e ∈ HttpServer.ownEvents T growth getUserInfo s more i, e.Waiting) :
    ((HttpServer.ownEvents T growth getUserInfo s more i).filterMap
        ConnectionEvent.written).length ≤ c.live.session.remaining ∧
      (d.live.session.Stuck → d.live.session.wire = (Responder.served
        (HttpServer.ownEvents T growth getUserInfo (.started world) events i)).answers) := by
  obtain ⟨hs, hown⟩ := own_run hrun hc
  have hboth := Machine.refines_of_run (C := fun c e => HttpConnection.HalfDuplex c e ∧ e.ErrorFree)
    (R := fun (c : HttpConnection) r => c.http.Answering r ∧ c.live.session.Draining)
    (fun _ _ _ _ hs hc ht => ⟨HttpConnection.answering_step hs.1 hc.1 ht,
      HttpConnection.draining_step hs.1 hs.2 hc.1 hc.2 ht⟩)
    ⟨HttpConnection.started_answering, ISession.fresh_draining⟩ hduplex hown
  rw [← HttpConnection.served_eq] at hboth
  obtain ⟨hanswering, hdraining⟩ := hboth
  have hafter := (hs.run hmore).2 hd
  rw [hc, Option.getD_some] at hafter
  obtain ⟨hsocket, hwritten⟩ := HttpConnection.waiting_run hwaiting hafter
  obtain ⟨hle, hfrom⟩ := hdraining.run hsocket hwritten
  refine ⟨hle, fun hstuck => ?_⟩
  obtain ⟨-, hwire, -⟩ := hfrom.of_stuck hstuck
  exact hwire.trans (congrArg Responder.answers hanswering.responder)

end Clients

/-- The second client is answered in two writes, with a pass of the timer between them. -/
def bothWrites : List (HttpServerEvent Empty Unit) :=
  [.connection 1 (.net (.perform (some 5))), .connection 1 (.net (.runHandler 0)), .timer,
    .connection 1 (.net (.perform (some 107))), .connection 1 (.net (.runHandler 0))]

theorem httpServer_answered_twoClients : ∃ s c t d,
    (httpServer noCallbacks id noUserInfo).run (.started ()) twoClients = some s ∧
      s.connections[1]? = some c ∧
      (httpServer noCallbacks id noUserInfo).run s bothWrites = some t ∧
      t.connections[1]? = some d ∧
      d.live.session.wire = (Responder.served secondClient).answers := by
  have hidle : ∃ s ∈ (httpServer noCallbacks id noUserInfo).run (.started ()) twoClients,
      ∃ c ∈ s.connections[1]?, ∃ t ∈ (httpServer noCallbacks id noUserInfo).run s bothWrites,
        ∃ d ∈ t.connections[1]?, (∀ e ∈ HttpServer.ownEvents noCallbacks id noUserInfo s
          bothWrites 1, e.Waiting) ∧
          d.live.session.outstanding = [] ∧ d.live.session.completed = [] := by
    decide +kernel
  obtain ⟨s, hs, c, hc, t, ht, d, hd, hwaiting, houtstanding, hcompleted⟩ := hidle
  have hanswered := httpServer_answered hs hc (ownEvents_twoClients hs ▸ secondClient_meets) ht hd
    hwaiting
  rw [ownEvents_twoClients hs] at hanswered
  exact ⟨s, c, t, d, hs, hc, ht, hd,
    hanswered.2 (ISession.stuck_of_idle houtstanding hcompleted)⟩

end GameServer.Http
