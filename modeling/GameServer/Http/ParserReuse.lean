import GameServer.Http.HttpParser

/-!
# Which request a reused parser describes

A session parses all its requests with one `HttpParser`. `ParseRequest` overwrites the method, the
path, the version, the headers and the body length, but adds the parameters of the query to those
that are there, and a parameter that is there keeps its value. After a row of texts the parser
therefore holds the parameters of all of them, each with the value it had first
(`lookup_queries_parseAll`), and describes the last text alone exactly if no other parameter
was kept (`sameRequest_iff`).
-/

namespace GameServer.Http

/-- The query parameters that a text names, none if it is no request. -/
def requestQueries (content : Bytes) : List (Bytes × Bytes) :=
  match phrParseRequest maxHeaderFieldNum content with
  | .error _ => []
  | .ok r => HttpParser.queryLoop [] [] [] false (r.path.drop (HttpParser.queryPos r.path + 1))

namespace HttpParser

/-- Two parsers describe one request. -/
structure SameRequest (p q : HttpParser) : Prop where
  method : p.method = q.method
  path : p.path = q.path
  minorVersion : p.minorVersion = q.minorVersion
  headers : p.headers = q.headers
  queries : ∀ key, p.queries.lookup key = q.queries.lookup key
  bodyLen : p.bodyLen = q.bodyLen

/-- The parser after the texts `earlier`, one call for each. -/
def parseAll (p : HttpParser) (earlier : List Bytes) : HttpParser :=
  earlier.foldl (fun p content => (p.parseRequest content).2) p

/-! ## Queries are added -/

theorem lookup_emplace (queries : List (Bytes × Bytes)) (key val k : Bytes) :
    (emplace queries key val).lookup k =
      (queries.lookup k).or ((emplace [] key val).lookup k) := by
  have hone : emplace [] key val = [(key, val)] := rfl
  rw [hone, emplace]
  split
  · next hany =>
    by_cases hk : k = key
    · obtain ⟨q, hq, hkey⟩ := List.any_eq_true.1 hany
      obtain ⟨v, hv⟩ : ∃ v, queries.lookup k = some v := by
        cases hlookup : queries.lookup k with
        | some v => exact ⟨v, rfl⟩
        | none =>
          have hne := List.lookup_eq_none_iff.1 hlookup q hq
          rw [hk, bne_iff_ne] at hne
          exact absurd (eq_of_beq hkey).symm hne
      rw [hv, Option.some_or]
    · have hskip : (k == key) = false := beq_eq_false_iff_ne.2 hk
      rw [List.lookup_cons, hskip]
      exact Option.or_none.symm
  · exact List.lookup_append

/-- **The loop adds.** What it finds in the text comes after what is there already. -/
theorem lookup_queryLoop (queries : List (Bytes × Bytes)) (key piece : Bytes) (cut : Bool)
    (str k : Bytes) :
    (queryLoop queries key piece cut str).lookup k =
      (queries.lookup k).or ((queryLoop [] key piece cut str).lookup k) := by
  induction str generalizing queries key piece cut with
  | nil =>
    simp only [queryLoop]
    split
    · exact Option.or_none.symm
    · split <;> exact lookup_emplace queries key _ k
  | cons chr str ih =>
    simp only [queryLoop]
    split
    · exact ih queries _ _ _
    · split
      · rw [ih, ih (emplace [] key _), lookup_emplace, Option.or_assoc]
      · exact ih queries key _ cut

theorem lookup_queries_parseRequest (p : HttpParser) (content k : Bytes) :
    (p.parseRequest content).2.queries.lookup k =
      (p.queries.lookup k).or ((requestQueries content).lookup k) := by
  unfold parseRequest requestQueries
  cases content with
  | nil => exact Option.or_none.symm
  | cons c content =>
    simp only [List.isEmpty_cons, Bool.false_eq_true, if_false]
    cases hr : phrParseRequest maxHeaderFieldNum (c :: content) with
    | error e => exact Option.or_none.symm
    | ok r =>
      simp only [store, parseQuery]
      split
      · split
        · next hempty =>
          rw [List.isEmpty_iff.1 hempty]
          exact Option.or_none.symm
        · exact lookup_queryLoop ..
      · next hpos =>
        rw [List.drop_eq_nil_of_le (by omega)]
        exact Option.or_none.symm

/-- **What was kept.** A parameter has the value that the first text naming it gave. -/
theorem lookup_queries_parseAll (p : HttpParser) (earlier : List Bytes) (k : Bytes) :
    (p.parseAll earlier).queries.lookup k =
      (p.queries.lookup k).or
        (earlier.findSome? fun content => (requestQueries content).lookup k) := by
  induction earlier generalizing p with
  | nil => exact Option.or_none.symm
  | cons content earlier ih =>
    have hcons : p.parseAll (content :: earlier) = (p.parseRequest content).2.parseAll earlier :=
      rfl
    rw [hcons, ih, lookup_queries_parseRequest, Option.or_assoc, List.findSome?_cons]
    cases (requestQueries content).lookup k <;> rfl

/-! ## Everything else is overwritten -/

/-- An accepted text sets every field of the request but the queries. -/
theorem sameRequest_parseRequest_iff (p q : HttpParser) {content : Bytes}
    (h : 0 < (q.parseRequest content).1) :
    SameRequest (p.parseRequest content).2 (q.parseRequest content).2 ↔
      ∀ key, (p.parseRequest content).2.queries.lookup key =
        (q.parseRequest content).2.queries.lookup key := by
  refine ⟨fun hsame => hsame.queries, fun hqueries => ?_⟩
  unfold parseRequest at h hqueries ⊢
  split at h
  · cases h
  · next hne =>
    rw [if_neg hne] at hqueries ⊢
    rw [if_neg hne] at hqueries ⊢
    cases hr : phrParseRequest maxHeaderFieldNum content with
    | error e =>
      rw [hr] at h
      cases h
    | ok r =>
      rw [hr] at hqueries
      refine ⟨?_, ?_, ?_, ?_, hqueries, ?_⟩
      · exact (store_method ..).trans (store_method ..).symm
      · exact (store_path ..).trans (store_path ..).symm
      all_goals
        simp only [store, parseQuery, getHeaderValue]
        split
        · split <;> rfl
        · rfl

end HttpParser

open HttpParser

/-- **A reused parser** describes the text it accepted last, as a new parser would, exactly if
every query parameter of the texts before is a parameter of this text too, with the value it had
first. -/
theorem sameRequest_iff (earlier : List Bytes) (content : Bytes)
    (h : 0 < (HttpParser.fresh.parseRequest content).1) :
    SameRequest ((HttpParser.fresh.parseAll earlier).parseRequest content).2
        (HttpParser.fresh.parseRequest content).2 ↔
      ∀ key val, (earlier.findSome? fun text => (requestQueries text).lookup key) = some val →
        (requestQueries content).lookup key = some val := by
  rw [sameRequest_parseRequest_iff _ _ h]
  simp only [lookup_queries_parseRequest, lookup_queries_parseAll]
  have hfresh (key : Bytes) : HttpParser.fresh.queries.lookup key = none := rfl
  simp only [hfresh, Option.none_or]
  refine forall_congr' fun key => ?_
  cases earlier.findSome? fun text => (requestQueries text).lookup key with
  | none => exact iff_of_true rfl nofun
  | some val =>
    rw [Option.some_or]
    constructor
    · rintro heq _ ⟨⟩
      exact heq.symm
    · intro hval
      exact (hval val rfl).symm

/-- A parameter that is repeated with its value, beside a new one, does not show. -/
theorem sameRequest_repeated_parameter :
    SameRequest
      ((HttpParser.fresh.parseAll [bytes "GET /a?x=1 HTTP/1.1\r\n\r\n", bytes "x"]).parseRequest
        (bytes "GET /b?y=2&x=1 HTTP/1.1\r\n\r\n")).2
      (HttpParser.fresh.parseRequest (bytes "GET /b?y=2&x=1 HTTP/1.1\r\n\r\n")).2 := by
  have ha : requestQueries (bytes "GET /a?x=1 HTTP/1.1\r\n\r\n") = [(bytes "x", bytes "1")] := by
    decide +kernel
  have hx : requestQueries (bytes "x") = [] := by decide +kernel
  have hb : requestQueries (bytes "GET /b?y=2&x=1 HTTP/1.1\r\n\r\n") =
      [(bytes "y", bytes "2"), (bytes "x", bytes "1")] := by decide +kernel
  refine (sameRequest_iff _ _ (by decide +kernel)).2 fun key val hkept => ?_
  simp only [List.findSome?_cons, List.findSome?_nil, ha, hx, List.lookup_cons,
    List.lookup_nil] at hkept
  rw [hb]
  cases hk : key == bytes "x" with
  | true =>
    rw [hk] at hkept
    cases hkept
    rw [eq_of_beq hk]
    decide
  | false =>
    rw [hk] at hkept
    cases hkept

/-- The parameter of `GET /a?x=1` is still there after `GET /a`. -/
theorem parameter_survives :
    ¬∀ (earlier : List Bytes) (content : Bytes),
      0 < (HttpParser.fresh.parseRequest content).1 →
      SameRequest ((HttpParser.fresh.parseAll earlier).parseRequest content).2
        (HttpParser.fresh.parseRequest content).2 := by
  intro h
  have hsame := (h [bytes "GET /a?x=1 HTTP/1.1\r\n\r\n"] (bytes "GET /a HTTP/1.1\r\n\r\n")
    (by decide +kernel)).queries (bytes "x")
  revert hsame
  decide +kernel

end GameServer.Http
