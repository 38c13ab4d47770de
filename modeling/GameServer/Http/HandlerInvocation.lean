import GameServer.Http.HttpSession

/-!
# Which chunk a handler answers

A handler should be called for a chunk only if this chunk is a request for the handler's path.
`ReadHandler` routes whatever `Parse` left in the request object, so a chunk that is no request
calls the handler of the last chunk that was one. `lawful_along_iff` says exactly in which runs
this does not happen.
-/

namespace GameServer.Http

open GameServer.Lib GameServer.Net

namespace HttpSession

/-- The handler called in the last step, if any, is the one the chunk asked for. -/
def Lawful (s : HttpSession) : Prop :=
  ∀ x ∈ s.exchange, ∀ key ∈ x.invoked, x.status = .Ok ∧ requestKey x.content = some key

/-- A chunk is empty, or a request, or what was parsed before names no handler. -/
def Answerable (s : HttpSession) : HttpEvent → Prop
  | .receive chunk _ =>
    chunk = [] ∨ (requestKey chunk).isSome ∨ s.router.find s.req.key = none
  | _ => True

variable {s t : HttpSession}

theorem lawful_of_exchange (h : s.exchange = none) : s.Lawful := by
  intro x hx
  rw [h] at hx
  cases hx

/-- **One request.** The handler that is called fits the text exactly if the text is a request
or the one before it called for no handler. -/
theorem lawful_handleRequest {content date : Bytes} {readBuffer : MessageBuffer} :
    Lawful { s.handleRequest content date with readBuffer } ↔
      (requestKey content).isSome ∨ s.router.find s.req.key = none := by
  have hx : { s.handleRequest content date with readBuffer }.Lawful ↔
      ∀ key ∈ s.router.invoked (s.req.parse content).2,
        (s.req.parse content).1 = .Ok ∧ requestKey content = some key :=
    ⟨fun h => h _ rfl, fun h x hx => by cases hx; exact h⟩
  rw [hx]
  cases hkey : requestKey content with
  | some k =>
    obtain ⟨hok, hreq⟩ := HttpRequest.parse_request s.req hkey
    refine iff_of_true ?_ (.inl rfl)
    intro key hinv
    refine ⟨hok, ?_⟩
    rw [← HttpRouter.invoked_eq_some hinv, hreq]
  | none =>
    have hsame := HttpRequest.key_of_rejected s.req hkey
    have hnone : s.router.invoked (s.req.parse content).2 = none ↔
        s.router.find s.req.key = none := by
      rw [HttpRouter.invoked_eq_none, hsame]
    rw [← hnone]
    constructor
    · intro h
      right
      apply Option.eq_none_iff_forall_ne_some.2
      intro key hinv
      exact (HttpRequest.parse_rejected s.req hkey).1 (h key hinv).1
    · rintro (hsome | hinv) key hmem
      · cases hsome
      · rw [hinv] at hmem
        cases hmem

/-- After a request the router is asked for its key. -/
theorem find_handleRequest {content date k : Bytes} {readBuffer : MessageBuffer}
    (h : requestKey content = some k) :
    { s.handleRequest content date with readBuffer }.router.find
      { s.handleRequest content date with readBuffer }.req.key = s.router.find k := by
  have hkey : (s.handleRequest content date).req.key = k := (HttpRequest.parse_request s.req h).2
  exact congrArg s.router.find hkey

theorem lawful_step {e : HttpEvent} (h : Drained s.readBuffer) (hc : s.Answerable e)
    (hs : httpSession.step s e = some t) : Drained t.readBuffer ∧ t.Lawful := by
  cases e with
  | addRouter method path handler =>
    cases hs
    exact ⟨h, lawful_of_exchange rfl⟩
  | net event =>
    obtain ⟨net, -, rfl⟩ := Option.map_eq_some_iff.1 hs
    exact ⟨h, lawful_of_exchange rfl⟩
  | receive chunk date =>
    obtain ⟨readBuffer, hdrained, -, rfl⟩ := receive_eq h hs
    split
    · exact ⟨hdrained, lawful_of_exchange rfl⟩
    · next hne => exact ⟨hdrained, lawful_handleRequest.2 (hc.resolve_left hne)⟩

/-- A step off the guard calls a handler that the chunk did not ask for. -/
theorem not_lawful_step {e : HttpEvent} (h : Drained s.readBuffer) (hc : ¬s.Answerable e)
    (hs : httpSession.step s e = some t) : ¬t.Lawful := by
  cases e with
  | addRouter method path handler => exact absurd trivial hc
  | net event => exact absurd trivial hc
  | receive chunk date =>
    obtain ⟨readBuffer, -, -, rfl⟩ := receive_eq h hs
    obtain ⟨hne, hbad⟩ := not_or.1 hc
    rw [if_neg hne]
    intro hlawful
    exact hbad (lawful_handleRequest.1 hlawful)

end HttpSession

open HttpSession

/-- **Handlers answer their own requests.** In every state of a run the handler called last
answers the chunk it was called for, exactly if every chunk of the run is a request or arrives
when the request before it names no handler. -/
theorem lawful_along_iff (events : List HttpEvent) :
    httpSession.Along Lawful HttpSession.fresh events ↔
      httpSession.Meets Answerable HttpSession.fresh events :=
  Machine.along_iff_meets (P := Lawful) (C := Answerable)
    (I := fun s => Drained s.readBuffer ∧ s.Lawful) (fun _ h => h.2)
    (fun _ _ _ h hc hs => lawful_step h.1 hc hs) (fun _ _ _ h hc hs => not_lawful_step h.1 hc hs)
    ⟨Drained.ofSize _, lawful_of_exchange rfl⟩

/-- After a request for a registered path, bytes that are no request call its handler again. -/
theorem not_along_lawful {s : HttpSession} (h : Drained s.readBuffer) {request garbage k : Bytes}
    (hkey : requestKey request = some k) (hgarbage : requestKey garbage = none)
    (hfound : (s.router.find k).isSome) (hne : garbage ≠ [])
    (hsize : request.length ≤ s.readBuffer.buffer.length)
    (hsize' : garbage.length ≤ s.readBuffer.buffer.length) (date : Bytes) :
    ¬httpSession.Along Lawful s [.receive request date, .receive garbage date] := by
  intro halong
  have hrequest : request ≠ [] := by
    rintro rfl
    cases hkey
  obtain ⟨b, hb, hlen, ht⟩ := exists_receive h hrequest (by omega) date
  obtain ⟨c, -, -, hu⟩ := exists_receive
    (s := { s.handleRequest request date with readBuffer := b }) hb hne (by rw [hlen]; omega) date
  rcases lawful_handleRequest.1 ((halong.2 _ ht).2 _ hu).head with hsome | hnone
  · rw [hgarbage] at hsome
    cases hsome
  · rw [find_handleRequest hkey] at hnone
    exact Option.isSome_iff_ne_none.1 hfound hnone

/-- The byte `x` after `GET /a` calls the handler of `GET /a` once more. -/
theorem handler_invoked_by_garbage :
    ¬∀ events, httpSession.Along Lawful HttpSession.fresh events := by
  intro h
  have hkey : requestKey (bytes "GET /a HTTP/1.1\r\n\r\n") = some (bytes "GET /a") := by
    decide +kernel
  have hgarbage : requestKey (bytes "x") = none := by decide +kernel
  have hsize : HttpSession.fresh.readBuffer.buffer.length = 1024 := MessageBuffer.length_ofSize _
  have hrun := h [.addRouter .GET (bytes "/a") fun _ _ => ⟨[], false⟩,
    .receive (bytes "GET /a HTTP/1.1\r\n\r\n") [], .receive (bytes "x") []]
  exact not_along_lawful (Drained.ofSize _) hkey hgarbage
    (HttpRouter.find_addHttpHandler .fresh .GET (bytes "/a") _) (by decide)
    (hsize ▸ by decide) (hsize ▸ by decide) [] (hrun.2 _ rfl)

end GameServer.Http
