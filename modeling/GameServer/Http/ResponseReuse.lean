import GameServer.Http.HttpSession

/-!
# What a reused response sends

The answer to a request should be the payload of a new response. The response of a session
still has the head, the headers, the content, the status and the content type of the answer
before, and `GetPayload` appends to them. `clean_along_iff` says exactly in which runs every
answer is the one of a new response all the same: each after the first is given by a handler
that replaces the whole response.
-/

namespace GameServer.Http

open GameServer.Lib GameServer.Net

namespace HttpSession

/-- The answer of the last step, if any, is the payload of a new response. -/
def Clean (s : HttpSession) : Prop := ∀ x ∈ s.exchange, x.answer = x.expected

/-- A chunk is empty, or the first, or its handler replaces the whole response. -/
def StartsClean (s : HttpSession) : HttpEvent → Prop
  | .receive chunk _ =>
    chunk = [] ∨ s.turn = 0 ∨ s.router.Assigns s.turn (s.req.parse chunk).2
  | _ => True

/-- The invariant: from the first answer on the response is used. -/
structure Reusing (s : HttpSession) : Prop where
  drained : Drained s.readBuffer
  first : s.turn = 0 → s.rep = .fresh
  later : s.turn ≠ 0 → s.rep.Used

variable {s t : HttpSession}

theorem clean_of_exchange (h : s.exchange = none) : s.Clean := by
  intro x hx
  rw [h] at hx
  cases hx

theorem fresh_reusing : fresh.Reusing := ⟨Drained.ofSize _, fun _ => rfl, fun h => absurd rfl h⟩

/-- **One request.** The answer is the one of a new response exactly if it is the first or the
handler replaces the whole response. -/
theorem clean_handleRequest (h : s.Reusing) {content date : Bytes} {readBuffer : MessageBuffer} :
    Clean { s.handleRequest content date with readBuffer } ↔
      s.turn = 0 ∨ s.router.Assigns s.turn (s.req.parse content).2 := by
  have hx : { s.handleRequest content date with readBuffer }.Clean ↔
      ((s.router.route s.turn (s.req.parse content).2 s.rep).getPayload date).1 =
        ((s.router.route s.turn (s.req.parse content).2 .fresh).getPayload date).1 := by
    have hanswer := s.answer_eq
      ((s.router.route s.turn (s.req.parse content).2 s.rep).getPayload date).1
    constructor
    · intro hc
      exact hanswer.symm.trans (hc _ rfl)
    · intro heq x hx
      cases hx
      exact hanswer.trans heq
  rw [hx]
  constructor
  · intro heq
    by_contra hbad
    obtain ⟨hturn, hassigns⟩ := not_or.1 hbad
    have hlt := (HttpRouter.route_outweighs hassigns (h.later hturn).outweighs).payload_lt date
    rw [heq] at hlt
    exact Nat.lt_irrefl _ hlt
  · rintro (hturn | hassigns)
    · rw [h.first hturn]
    · rw [HttpRouter.route_of_assigns hassigns s.rep .fresh]

/-- Every step keeps the invariant, and a step on the guard gives a clean answer. -/
theorem Reusing.step {e : HttpEvent} (h : s.Reusing) (hs : httpSession.step s e = some t) :
    t.Reusing ∧ (t.Clean ↔ s.StartsClean e) := by
  cases e with
  | addRouter method path handler =>
    cases hs
    exact ⟨⟨h.drained, h.first, h.later⟩, iff_of_true (clean_of_exchange rfl) trivial⟩
  | net event =>
    obtain ⟨net, -, rfl⟩ := Option.map_eq_some_iff.1 hs
    exact ⟨⟨h.drained, h.first, h.later⟩, iff_of_true (clean_of_exchange rfl) trivial⟩
  | receive chunk date =>
    obtain ⟨readBuffer, hdrained, -, rfl⟩ := receive_eq h.drained hs
    split
    · next hnil =>
      exact ⟨⟨hdrained, h.first, h.later⟩, iff_of_true (clean_of_exchange rfl) (.inl hnil)⟩
    · next hne =>
      refine ⟨⟨hdrained, nofun, fun _ => HttpResponse.used_getPayload _ date⟩, ?_⟩
      rw [clean_handleRequest h]
      exact (or_iff_right hne).symm

end HttpSession

open HttpSession

/-- **Nothing of an earlier response is sent.** In every state of a run the last answer is the
payload of a new response, exactly if each request of the run but the first is answered by a
handler that replaces the whole response. -/
theorem clean_along_iff (events : List HttpEvent) :
    httpSession.Along Clean HttpSession.fresh events ↔
      httpSession.Meets StartsClean HttpSession.fresh events :=
  Machine.along_iff_meets (P := Clean) (C := StartsClean)
    (I := fun s => s.Reusing ∧ s.Clean) (fun _ h => h.2)
    (fun _ _ _ h hc hs => ⟨(h.1.step hs).1, (h.1.step hs).2.2 hc⟩)
    (fun _ _ _ h hc hs hclean => hc ((h.1.step hs).2.1 hclean))
    ⟨fresh_reusing, clean_of_exchange rfl⟩

/-- A request that is repeated gets an answer that is not the one of a new response, unless some
handler replaces the whole response. -/
theorem not_along_clean {s : HttpSession} (h : s.Reusing) {request : Bytes} (hne : request ≠ [])
    (hsize : request.length ≤ s.readBuffer.buffer.length)
    (hassigns : ∀ turn req, ¬s.router.Assigns turn req) (date : Bytes) :
    ¬httpSession.Along Clean s [.receive request date, .receive request date] := by
  intro halong
  obtain ⟨b, hb, hlen, ht⟩ := exists_receive h.drained hne (by omega) date
  obtain ⟨c, -, -, hu⟩ := exists_receive
    (s := { s.handleRequest request date with readBuffer := b }) hb hne (by rw [hlen]; omega) date
  rcases (clean_handleRequest (h.step ht).1).1 ((halong.2 _ ht).2 _ hu).head with hturn | hbad
  · exact Nat.succ_ne_zero _ hturn
  · exact hassigns _ _ hbad

/-- The same request twice: the second answer begins with the first one. -/
theorem answer_repeated : ¬∀ events : List HttpEvent,
    (∀ chunk date, .receive chunk date ∈ events → (requestKey chunk).isSome) →
      httpSession.Along Clean HttpSession.fresh events := by
  intro h
  have hkey : (requestKey (bytes "GET / HTTP/1.1\r\n\r\n")).isSome := by decide +kernel
  have hsize : HttpSession.fresh.readBuffer.buffer.length = 1024 := MessageBuffer.length_ofSize _
  refine not_along_clean fresh_reusing (by decide) (hsize ▸ by decide) ?_ [] (h
    [.receive (bytes "GET / HTTP/1.1\r\n\r\n") [], .receive (bytes "GET / HTTP/1.1\r\n\r\n") []] ?_)
  · rintro turn req ⟨handler, hfind, -⟩
    exact Option.some_ne_none _ (hfind.symm.trans (HttpRouter.find_fresh _))
  · intro chunk date hmem
    simp only [List.mem_cons, List.not_mem_nil, or_false, or_self, HttpEvent.receive.injEq] at hmem
    rw [hmem.1]
    exact hkey

end GameServer.Http
