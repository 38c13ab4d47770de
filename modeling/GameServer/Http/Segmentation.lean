import GameServer.Lib.Cuts
import GameServer.Http.PicoPrefix
import GameServer.Http.HttpSession

/-!
# How a stream of requests is cut

A client sends requests one after the other, and the session reads their bytes in chunks. Each
chunk is parsed once, as a whole: what a chunk leaves over is dropped and what it lacks is not
waited for. `routings` collects what a run hands to the router from texts that were parsed, with
the place of each text in the stream, and `routedOnce_iff` says which cuts the requests survive.
-/

namespace GameServer.Http

open GameServer.Lib GameServer.Net

/-- The method and path of a text, if it is a request. -/
def requestPair (content : Bytes) : Option (Bytes × Bytes) :=
  match phrParseRequest maxHeaderFieldNum content with
  | .error _ => none
  | .ok r => some (r.method, r.path.take (HttpParser.queryPos r.path))

/-- A request as it is sent: a head that the parser takes to its last byte, and a body of the
length that the head names. -/
structure HttpText where
  head : Bytes
  body : Bytes
  parsed : PhrRequest
  accepted : phrParseRequest maxHeaderFieldNum head = .ok parsed
  whole : parsed.length = head.length
  bodyLen : (body.length : Int) = (HttpParser.fresh.store head parsed).bodyLen

namespace HttpText

def text (r : HttpText) : Bytes := r.head ++ r.body

def pair (r : HttpText) : Bytes × Bytes :=
  (r.parsed.method, r.parsed.path.take (HttpParser.queryPos r.parsed.path))

theorem text_ne_nil (r : HttpText) : r.text ≠ [] := by
  have hpos := (phrParseRequest_ok r.accepted).1
  rw [r.whole] at hpos
  exact List.append_ne_nil_of_left_ne_nil (List.ne_nil_of_length_pos hpos) _

/-- **What a chunk is parsed as** that starts where a request does. -/
theorem requestPair_eq (r : HttpText) {chunk rest rest' : Bytes}
    (h : chunk ++ rest = r.text ++ rest') :
    requestPair chunk = if r.head.length ≤ chunk.length then some r.pair else none := by
  have hchunk : chunk <+: r.text ++ rest' := ⟨rest, h⟩
  have hhead : r.head <+: r.text ++ rest' := ⟨r.body ++ rest', (List.append_assoc ..).symm⟩
  split
  · next hlen =>
    obtain ⟨more, rfl⟩ := List.prefix_of_prefix_length_le hhead hchunk hlen
    rw [requestPair, phrParseRequest_more r.accepted]
    rfl
  · next hlen =>
    obtain ⟨more, hmore⟩ := List.prefix_of_prefix_length_le hchunk hhead (by omega)
    have hne : more ≠ [] := by
      rintro rfl
      rw [← hmore, List.append_nil] at hlen
      exact hlen (Nat.le_refl _)
    unfold requestPair
    split
    · rfl
    · next r' hr' => exact absurd hr' (phrParseRequest_cut r.accepted r.whole hmore hne r')

end HttpText

/-! ## What a run hands to the router -/

/-- The method and path that the last step handed to the router, if the text was parsed. -/
def HttpSession.handed (s : HttpSession) : Option (Bytes × Bytes) :=
  match s.exchange with
  | none => none
  | some x => if x.status = .Ok then some (s.req.getMethod, s.req.getPath) else none

def HttpEvent.chunk : HttpEvent → Option Bytes
  | .receive chunk _ => some chunk
  | _ => none

def chunks (events : List HttpEvent) : List Bytes := events.filterMap HttpEvent.chunk

/-- The routings of parsed texts, each with the place where its text starts in the stream. -/
def routings : (start : Nat) → HttpSession → List HttpEvent → List (Nat × (Bytes × Bytes))
  | _, _, [] => []
  | start, s, e :: events =>
    match httpSession.step s e with
    | none => []
    | some t =>
      (t.handed.map fun pair => (start, pair)).toList ++
        routings (start + (e.chunk.getD []).length) t events

/-- One routing for each request, with its method and path, of a text that starts where the
request does. -/
structure RoutedOnce (rs : List HttpText) (routed : List (Nat × (Bytes × Bytes))) : Prop where
  pairs : routed.map Prod.snd = rs.map HttpText.pair
  places : routed.map Prod.fst = (placed HttpText.text 0 rs).map Prod.fst

/-- Each request starts a chunk that has its whole head, and no other chunk is a request. -/
structure CutAtRequests (rs : List HttpText) (cuts : List Bytes) : Prop where
  heads : ∀ entry ∈ placed HttpText.text 0 rs, ∃ piece ∈ placed id 0 cuts,
    piece.1 = entry.1 ∧ entry.2.head.length ≤ piece.2.length
  others : ∀ piece ∈ placed id 0 cuts, (requestPair piece.2).isSome →
    piece.1 ∈ (placed HttpText.text 0 rs).map Prod.fst

/-! ## From chunks to routings -/

theorem requestKey_eq (content : Bytes) :
    requestKey content = (requestPair content).map fun pair => pair.1 ++ bytes " " ++ pair.2 := by
  unfold requestKey requestPair
  cases phrParseRequest maxHeaderFieldNum content <;> rfl

namespace HttpRequest

theorem parse_requestPair (req : HttpRequest) {content : Bytes} {pair : Bytes × Bytes}
    (h : requestPair content = some pair) :
    (req.parse content).2.getMethod = pair.1 ∧ (req.parse content).2.getPath = pair.2 := by
  unfold requestPair at h
  cases hr : phrParseRequest maxHeaderFieldNum content with
  | error e => rw [hr] at h; cases h
  | ok r =>
    rw [hr] at h
    cases h
    rw [req.parse_accepted hr]
    exact ⟨HttpParser.store_method .., HttpParser.store_path ..⟩

end HttpRequest

namespace HttpSession

variable {s t : HttpSession}

/-- A step hands over what its chunk is as a request. -/
theorem handed_step {e : HttpEvent} (h : Drained s.readBuffer)
    (hs : httpSession.step s e = some t) :
    Drained t.readBuffer ∧ t.handed = e.chunk.bind requestPair := by
  cases e with
  | addRouter method path handler =>
    cases hs
    exact ⟨h, rfl⟩
  | net event =>
    obtain ⟨net, -, rfl⟩ := Option.map_eq_some_iff.1 hs
    exact ⟨h, rfl⟩
  | receive chunk date =>
    obtain ⟨readBuffer, hdrained, -, rfl⟩ := receive_eq h hs
    split
    · next hempty =>
      subst hempty
      exact ⟨hdrained, rfl⟩
    · refine ⟨hdrained, ?_⟩
      have hok : (s.req.parse chunk).1 = .Ok ↔ (requestKey chunk).isSome :=
        HttpRequest.parse_ok_iff s.req
      rw [requestKey_eq, Option.isSome_map] at hok
      have hhanded : handed { s.handleRequest chunk date with readBuffer } =
          if (s.req.parse chunk).1 = .Ok then
            some ((s.req.parse chunk).2.getMethod, (s.req.parse chunk).2.getPath)
          else none := rfl
      rw [hhanded]
      change _ = requestPair chunk
      cases hpair : requestPair chunk with
      | none =>
        rw [hpair] at hok
        exact if_neg fun hparsed => Bool.false_ne_true (hok.1 hparsed)
      | some pair =>
        rw [hpair] at hok
        obtain ⟨hmethod, hpath⟩ := s.req.parse_requestPair hpair
        rw [if_pos (hok.2 rfl), hmethod, hpath]

end HttpSession

/-- **Each chunk for itself.** The routings of a run are those of its chunks. -/
theorem routings_eq {s t : HttpSession} {events : List HttpEvent} (h : Drained s.readBuffer)
    (hrun : httpSession.run s events = some t) (start : Nat) :
    routings start s events = (placed id start (chunks events)).filterMap fun piece =>
      (requestPair piece.2).map fun pair => (piece.1, pair) := by
  induction events generalizing s start with
  | nil => rfl
  | cons e events ih =>
    rw [Machine.run_cons] at hrun
    obtain ⟨u, hu, hrun⟩ := Option.bind_eq_some_iff.1 hrun
    obtain ⟨hdrained, hhanded⟩ := HttpSession.handed_step h hu
    rw [routings, hu]
    dsimp only
    rw [ih hdrained hrun, hhanded]
    cases e with
    | receive chunk date =>
      have hchunks : chunks (.receive chunk date :: events) = chunk :: chunks events := rfl
      have hchunk : HttpEvent.chunk (.receive chunk date) = some chunk := rfl
      rw [hchunks, hchunk, placed, List.filterMap_cons, Option.bind_some, Option.getD_some]
      cases requestPair chunk <;> rfl
    | _ => rfl

/-- Two lists of pairs with the same first and the same second parts are one. -/
theorem routedOnce_iff_eq {rs : List HttpText} {routed : List (Nat × (Bytes × Bytes))} :
    RoutedOnce rs routed ↔
      routed = (placed HttpText.text 0 rs).map fun entry => (entry.1, entry.2.pair) := by
  have hpairs : ((placed HttpText.text 0 rs).map fun entry =>
      (entry.1, entry.2.pair)).map Prod.snd = rs.map HttpText.pair := by
    have hrequests : (placed HttpText.text 0 rs).map Prod.snd = rs := map_snd_placed 0 rs
    rw [List.map_map, ← hrequests, List.map_map, hrequests]
    rfl
  have hplaces : ((placed HttpText.text 0 rs).map fun entry =>
      (entry.1, entry.2.pair)).map Prod.fst = (placed HttpText.text 0 rs).map Prod.fst := by
    rw [List.map_map]
    rfl
  constructor
  · intro h
    exact (List.zip_of_prod h.places h.pairs).trans (List.zip_of_prod hplaces hpairs).symm
  · rintro rfl
    exact ⟨hpairs, hplaces⟩

section Cutting

variable {rs : List HttpText} {cuts : List Bytes}

/-- What is read of a chunk that begins with a request. -/
theorem requestPair_of_placed (hstream : cuts.flatten = rs.flatMap HttpText.text) {place : Nat}
    {chunk : Bytes} {r : HttpText} (hpiece : (place, chunk) ∈ placed id 0 cuts)
    (hr : (place, r) ∈ placed HttpText.text 0 rs) :
    requestPair chunk = if r.head.length ≤ chunk.length then some r.pair else none := by
  obtain ⟨rest, rest', heq⟩ := append_eq_of_placed hstream hpiece hr
  exact r.requestPair_eq heq

/-- The routings of chunks that are read each for itself. -/
def routingsOf (cuts : List Bytes) : List (Nat × (Bytes × Bytes)) :=
  (placed id 0 cuts).filterMap fun piece => (requestPair piece.2).map fun pair => (piece.1, pair)

theorem mem_routingsOf {place : Nat} {pair : Bytes × Bytes} : (place, pair) ∈ routingsOf cuts ↔
    ∃ chunk, (place, chunk) ∈ placed id 0 cuts ∧ requestPair chunk = some pair := by
  rw [routingsOf, List.mem_filterMap]
  constructor
  · rintro ⟨⟨place', chunk⟩, hpiece, hsome⟩
    obtain ⟨pair', hrouted, hplace⟩ := Option.map_eq_some_iff.1 hsome
    cases hplace
    exact ⟨chunk, hpiece, hrouted⟩
  · rintro ⟨chunk, hpiece, hrouted⟩
    exact ⟨(place, chunk), hpiece, by rw [hrouted]; rfl⟩

/-- Where the routings are right the requests begin chunks and nothing else is taken for one. -/
theorem CutAtRequests.of_routings (hstream : cuts.flatten = rs.flatMap HttpText.text)
    (heq : routingsOf cuts =
      (placed HttpText.text 0 rs).map fun entry => (entry.1, entry.2.pair)) :
    CutAtRequests rs cuts := by
  constructor
  · rintro ⟨place, r⟩ hr
    have hmem : (place, r.pair) ∈ (placed HttpText.text 0 rs).map fun entry =>
        (entry.1, entry.2.pair) := List.mem_map_of_mem hr
    rw [← heq] at hmem
    obtain ⟨chunk, hpiece, hrouted⟩ := mem_routingsOf.1 hmem
    refine ⟨_, hpiece, rfl, ?_⟩
    rw [requestPair_of_placed hstream hpiece hr] at hrouted
    by_contra hlen
    rw [if_neg hlen] at hrouted
    cases hrouted
  · rintro ⟨place, chunk⟩ hpiece hsome
    obtain ⟨pair, hrouted⟩ := Option.isSome_iff_exists.1 hsome
    have hmem : (place, pair) ∈ routingsOf cuts := mem_routingsOf.2 ⟨chunk, hpiece, hrouted⟩
    rw [heq] at hmem
    obtain ⟨entry, hentry, hplace⟩ := List.mem_map.1 hmem
    exact List.mem_map.2 ⟨entry, hentry, congrArg Prod.fst hplace⟩

/-- Where they do, the routings are right: both are sorted by place and have the same members. -/
theorem CutAtRequests.routings (hcut : CutAtRequests rs cuts) (hne : ∀ chunk ∈ cuts, chunk ≠ [])
    (hstream : cuts.flatten = rs.flatMap HttpText.text) :
    routingsOf cuts = (placed HttpText.text 0 rs).map fun entry => (entry.1, entry.2.pair) := by
  have hpieces : (placed id 0 cuts).Pairwise fun x y => x.1 < y.1 := pairwise_placed hne 0
  have hrequests : (placed HttpText.text 0 rs).Pairwise fun x y => x.1 < y.1 :=
    pairwise_placed (fun r _ => r.text_ne_nil) 0
  refine eq_of_placed_mem_iff ?_ (List.pairwise_map.2 hrequests) ?_
  · refine hpieces.filterMap _ fun piece piece' hlt routed hrouted routed' hrouted' => ?_
    obtain ⟨pair, -, rfl⟩ := Option.map_eq_some_iff.1 hrouted
    obtain ⟨pair', -, rfl⟩ := Option.map_eq_some_iff.1 hrouted'
    exact hlt
  · rintro ⟨place, pair⟩
    rw [mem_routingsOf, List.mem_map]
    constructor
    · rintro ⟨chunk, hpiece, hrouted⟩
      obtain ⟨⟨place', r⟩, hr, hstart⟩ :=
        List.mem_map.1 (hcut.others _ hpiece (by rw [hrouted]; rfl))
      cases hstart
      rw [requestPair_of_placed hstream hpiece hr] at hrouted
      split at hrouted
      · cases hrouted
        exact ⟨_, hr, rfl⟩
      · cases hrouted
    · rintro ⟨⟨place', r⟩, hr, hplace⟩
      cases hplace
      obtain ⟨⟨place', chunk⟩, hpiece, hstart, hlen⟩ := hcut.heads _ hr
      cases hstart
      refine ⟨chunk, hpiece, ?_⟩
      rw [requestPair_of_placed hstream hpiece hr, if_pos hlen]

end Cutting

/-- **Which cuts the requests survive.** In a run whose chunks are the bytes of `rs`, every
request is routed once, in order and with its own method and path, exactly if each request starts
a chunk that has its whole head and no other chunk is taken for a request. -/
theorem routedOnce_iff (rs : List HttpText) (events : List HttpEvent) {t : HttpSession}
    (hrun : httpSession.run .fresh events = some t) (hne : ∀ chunk ∈ chunks events, chunk ≠ [])
    (hstream : (chunks events).flatten = rs.flatMap HttpText.text) :
    RoutedOnce rs (routings 0 .fresh events) ↔ CutAtRequests rs (chunks events) := by
  have hrouted : routings 0 .fresh events = routingsOf (chunks events) :=
    routings_eq (Drained.ofSize _) hrun 0
  rw [routedOnce_iff_eq, hrouted]
  constructor
  · intro heq
    exact .of_routings hstream heq
  · intro hcut
    exact hcut.routings hne hstream

/-! ## Cuts of either kind -/

/-- Chunks that fit into the buffer as it is are read one after the other. -/
theorem exists_run_receives {s : HttpSession} (h : Drained s.readBuffer) {cuts : List Bytes}
    (hne : ∀ chunk ∈ cuts, chunk ≠ [])
    (hlen : ∀ chunk ∈ cuts, chunk.length ≤ s.readBuffer.buffer.length) :
    ∃ t, httpSession.run s (cuts.map fun chunk => .receive chunk []) = some t := by
  induction cuts generalizing s with
  | nil => exact ⟨s, rfl⟩
  | cons chunk cuts ih =>
    have hfirst := hlen chunk List.mem_cons_self
    obtain ⟨readBuffer, hdrained, hsize, hstep⟩ :=
      HttpSession.exists_receive h (hne chunk List.mem_cons_self) (by omega) []
    have hgrown : ∀ c ∈ cuts, c.length ≤ readBuffer.buffer.length := by
      intro c hc
      have := hlen c (List.mem_cons_of_mem _ hc)
      omega
    obtain ⟨t, ht⟩ := ih (s := { s.handleRequest chunk [] with readBuffer }) hdrained
      (fun c hc => hne c (List.mem_cons_of_mem _ hc)) hgrown
    refine ⟨t, ?_⟩
    rw [List.map_cons, Machine.run_cons, hstep]
    exact ht

theorem chunks_receives (cuts : List Bytes) :
    chunks (cuts.map fun chunk => .receive chunk []) = cuts := by
  induction cuts with
  | nil => rfl
  | cons chunk cuts ih => exact congrArg (chunk :: ·) ih

/-- `GET /a` without a body. -/
def getA : HttpText where
  head := bytes "GET /a HTTP/1.1\r\n\r\n"
  body := []
  parsed := ⟨bytes "GET", bytes "/a", 1, [], 19⟩
  accepted := by decide +kernel
  whole := by decide
  bodyLen := by decide +kernel

/-- `POST /b` with a body of two bytes. -/
def postB : HttpText where
  head := bytes "POST /b HTTP/1.1\r\nContent-Length: 2\r\n\r\n"
  body := bytes "ok"
  parsed := ⟨bytes "POST", bytes "/b", 1, [⟨bytes "Content-Length", bytes "2"⟩], 39⟩
  accepted := by decide +kernel
  whole := by decide
  bodyLen := by decide +kernel

theorem length_fresh : HttpSession.fresh.readBuffer.buffer.length = 1024 :=
  MessageBuffer.length_ofSize _

/-- A body that arrives by itself does not matter. -/
theorem routedOnce_body_apart :
    ∃ t, httpSession.run .fresh ([postB.head, postB.body, getA.head].map fun chunk =>
        .receive chunk []) = some t ∧
      RoutedOnce [postB, getA] (routings 0 .fresh
        ([postB.head, postB.body, getA.head].map fun chunk => .receive chunk [])) := by
  have hcuts : ∀ chunk ∈ [postB.head, postB.body, getA.head],
      chunk ≠ [] ∧ chunk.length ≤ HttpSession.fresh.readBuffer.buffer.length := by
    rw [length_fresh]
    decide
  obtain ⟨t, ht⟩ := exists_run_receives (s := .fresh) (Drained.ofSize _)
    (fun chunk hc => (hcuts chunk hc).1) fun chunk hc => (hcuts chunk hc).2
  have hcut : CutAtRequests [postB, getA] [postB.head, postB.body, getA.head] := by
    constructor <;> decide +kernel
  refine ⟨t, ht, ?_⟩
  refine (routedOnce_iff [postB, getA] _ ht ?_ ?_).2 ?_ <;> rw [chunks_receives]
  · exact fun chunk hc => (hcuts chunk hc).1
  · decide
  · exact hcut

/-- Two requests that arrive together are routed as one. -/
theorem second_request_lost :
    ¬∀ (rs : List HttpText) (events : List HttpEvent) (t : HttpSession),
      httpSession.run .fresh events = some t → (∀ chunk ∈ chunks events, chunk ≠ []) →
      (chunks events).flatten = rs.flatMap HttpText.text →
      (routings 0 .fresh events).map Prod.snd = rs.map HttpText.pair := by
  intro h
  have hcuts : ∀ chunk ∈ [getA.head ++ getA.head],
      chunk ≠ [] ∧ chunk.length ≤ HttpSession.fresh.readBuffer.buffer.length := by
    rw [length_fresh]
    decide
  obtain ⟨t, ht⟩ := exists_run_receives (s := .fresh) (Drained.ofSize _)
    (fun chunk hc => (hcuts chunk hc).1) fun chunk hc => (hcuts chunk hc).2
  have hpairs := congrArg List.length (h [getA, getA] _ t ht
    (by rw [chunks_receives]; exact fun chunk hc => (hcuts chunk hc).1)
    (by rw [chunks_receives]; decide))
  rw [routings_eq (Drained.ofSize _) ht, chunks_receives, List.length_map,
    List.length_map] at hpairs
  have hone := List.length_filterMap_le (fun piece : Nat × Bytes =>
    (requestPair piece.2).map fun pair => (piece.1, pair)) (placed id 0 [getA.head ++ getA.head])
  rw [hpairs] at hone
  exact absurd hone (by decide)

end GameServer.Http
