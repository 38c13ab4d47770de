import GameServer.Lib.Lines
import GameServer.Http.HttpRouter

/-!
# Which handler a request calls

`AddHttpHandler` keeps the keys in a set, which owns their text, and the handlers in a map whose
keys are views of these texts. `RouterTables` has the two containers as the code has them, with no
invariant, over any type of handlers; `HttpRouter` is the same with the invariant in its fields
(`tables_addHttpHandler`). `route_registered` says which handler is called after any
registrations, and that both containers have the same keys.
-/

namespace GameServer.Http

open GameServer.Lib

/-- A call of `AddHttpHandler`. -/
structure Registration (H : Type) where
  method : HttpMethod
  path : Bytes
  handler : H

structure RouterTables (H : Type) where
  httpHandlers : List (Bytes × H)
  pathKeys : List Bytes

variable {H : Type}

def Registration.wholeStr (r : Registration H) : Bytes :=
  httpMethodToString r.method ++ bytes " " ++ r.path

/-- The method and the path are those of the request. -/
def Registration.serves (r : Registration H) (req : HttpRequest) : Bool :=
  httpMethodToString r.method == req.getMethod && r.path == req.getPath

namespace RouterTables

def empty : RouterTables H := ⟨[], []⟩

/-- `_pathKeys.emplace`, and whether it inserted. -/
def emplaceKey (keys : List Bytes) (key : Bytes) : List Bytes × Bool :=
  if keys.any (· == key) then (keys, false) else (keys ++ [key], true)

/-- `_httpHandlers.emplace`: a key that is there keeps its handler. -/
def emplaceHandler (handlers : List (Bytes × H)) (key : Bytes) (handler : H) : List (Bytes × H) :=
  if handlers.any fun entry => entry.1 == key then handlers else handlers ++ [(key, handler)]

def addHttpHandler (t : RouterTables H) (r : Registration H) : RouterTables H :=
  let (pathKeys, ok) := emplaceKey t.pathKeys r.wholeStr
  if !ok then { t with pathKeys }
  else { httpHandlers := emplaceHandler t.httpHandlers r.wholeStr r.handler, pathKeys }

/-- The router after these registrations, in order. -/
def registered (rs : List (Registration H)) : RouterTables H := rs.foldl addHttpHandler empty

def find (t : RouterTables H) (key : Bytes) : Option H :=
  (t.httpHandlers.find? fun entry => entry.1 == key).map Prod.snd

/-- `Route`, with the handlers it calls in order. -/
def route (t : RouterTables H) (invoke : H → HandlerOutcome) (req : HttpRequest)
    (resp : HttpResponse) : HttpResponse × List H :=
  match t.find req.key with
  | some handler => (HttpRouter.answer (invoke handler) resp, [handler])
  | none => (resp.setStatusCode .NotFound, [])

/-- Both containers have the same keys. -/
def Synced (t : RouterTables H) : Prop := t.httpHandlers.map Prod.fst = t.pathKeys

theorem Synced.any_eq {t : RouterTables H} (h : t.Synced) (key : Bytes) :
    (t.httpHandlers.any fun entry => entry.1 == key) = decide (key ∈ t.pathKeys) := by
  rw [← h, Bool.eq_iff_iff, List.any_eq_true, decide_eq_true_eq, List.mem_map]
  simp only [beq_iff_eq]

/-- **One registration.** A key that is there keeps its handler, and a new one is added to both
containers. -/
theorem Synced.addHttpHandler_eq {t : RouterTables H} (h : t.Synced) (r : Registration H) :
    t.addHttpHandler r = if r.wholeStr ∈ t.pathKeys then t
      else ⟨t.httpHandlers ++ [(r.wholeStr, r.handler)], t.pathKeys ++ [r.wholeStr]⟩ := by
  have hkeys : t.pathKeys.any (· == r.wholeStr) = decide (r.wholeStr ∈ t.pathKeys) := by
    rw [Bool.eq_iff_iff, List.any_eq_true, decide_eq_true_eq]
    simp only [beq_iff_eq, exists_eq_right]
  unfold RouterTables.addHttpHandler emplaceKey emplaceHandler
  rw [h.any_eq, hkeys]
  by_cases hmem : r.wholeStr ∈ t.pathKeys
  · simp only [hmem, decide_true, if_true, Bool.not_false]
  · simp only [hmem, if_false, decide_false, Bool.not_true, Bool.false_eq_true]

theorem Synced.addHttpHandler {t : RouterTables H} (h : t.Synced) (r : Registration H) :
    (t.addHttpHandler r).Synced := by
  rw [h.addHttpHandler_eq]
  split
  · exact h
  · have hkeys : t.httpHandlers.map Prod.fst = t.pathKeys := h
    simp only [Synced, List.map_append, hkeys, List.map_cons, List.map_nil]

theorem Synced.find_isSome {t : RouterTables H} (h : t.Synced) {key : Bytes} :
    (t.find key).isSome ↔ key ∈ t.pathKeys := by
  rw [find, Option.isSome_map, List.find?_isSome, ← List.any_eq_true, h.any_eq,
    decide_eq_true_eq]

theorem Synced.find_addHttpHandler {t : RouterTables H} (h : t.Synced) (r : Registration H)
    (key : Bytes) : (t.addHttpHandler r).find key =
      (t.find key).or (if r.wholeStr = key then some r.handler else none) := by
  rw [h.addHttpHandler_eq]
  split
  · next hmem =>
    split
    · next hkey =>
      obtain ⟨found, hfound⟩ := Option.isSome_iff_exists.1 (h.find_isSome.2 (hkey ▸ hmem))
      rw [hfound, Option.some_or]
    · rw [Option.or_none]
  · simp only [find, List.find?_append, List.find?_singleton, Option.map_or, beq_iff_eq]
    split <;> rfl

/-- The registrations in order: the tables stay in step, and the first handler of a key counts. -/
theorem Synced.foldl {t : RouterTables H} (h : t.Synced) (rs : List (Registration H)) :
    (rs.foldl RouterTables.addHttpHandler t).Synced ∧
      ∀ key, (rs.foldl RouterTables.addHttpHandler t).find key =
        (t.find key).or ((rs.find? fun r => r.wholeStr == key).map Registration.handler) := by
  induction rs generalizing t with
  | nil => exact ⟨h, fun key => (Option.or_none).symm⟩
  | cons r rs ih =>
    obtain ⟨hsynced, hfind⟩ := ih (h.addHttpHandler r)
    refine ⟨hsynced, fun key => ?_⟩
    rw [List.foldl_cons, hfind, h.find_addHttpHandler, Option.or_assoc]
    congr 1
    by_cases hkey : r.wholeStr = key
    · have hfirst : ((r :: rs).find? fun r => r.wholeStr == key) = some r :=
        List.find?_cons_of_pos (beq_iff_eq.2 hkey)
      rw [if_pos hkey, hfirst, Option.some_or, Option.map_some]
    · have hnext : ((r :: rs).find? fun r => r.wholeStr == key) =
          rs.find? fun r => r.wholeStr == key :=
        List.find?_cons_of_neg (mt beq_iff_eq.1 hkey)
      rw [if_neg hkey, hnext, Option.none_or]

theorem synced_registered (rs : List (Registration H)) : (registered rs).Synced :=
  (Synced.foldl (t := empty) rfl rs).1

theorem find_registered (rs : List (Registration H)) (key : Bytes) :
    (registered rs).find key =
      (rs.find? fun r => r.wholeStr == key).map Registration.handler :=
  (Synced.foldl (t := empty) rfl rs).2 key

end RouterTables

theorem sp_not_mem_httpMethodToString (method : HttpMethod) : sp ∉ httpMethodToString method := by
  cases method <;> decide

/-- **The key is injective.** Neither method contains a space, so the first one ends it. -/
theorem Registration.wholeStr_beq_key (r : Registration H) {req : HttpRequest}
    (hsp : sp ∉ req.getMethod) : (r.wholeStr == req.key) = r.serves req := by
  have hspace : bytes " " = [sp] := rfl
  rw [Bool.eq_iff_iff, beq_iff_eq, serves, Bool.and_eq_true, beq_iff_eq, beq_iff_eq, wholeStr,
    HttpRequest.key, hspace, List.append_assoc, List.append_assoc]
  constructor
  · exact append_cons_inj (sp_not_mem_httpMethodToString r.method) hsp
  · rintro ⟨hmethod, hpath⟩
    rw [hmethod, hpath]

/-- The request `GET /`. -/
def rootRequest : HttpRequest :=
  ⟨{ HttpParser.fresh with method := bytes "GET", path := bytes "/" }⟩

/-! ## `HttpRouter` has these tables -/

def HttpRouter.tables (router : HttpRouter) : RouterTables HttpHandlerFunc :=
  ⟨router.httpHandlers, router.pathKeys⟩

/-- `HttpRouter` registers as the tables do. -/
theorem tables_addHttpHandler (router : HttpRouter) (r : Registration HttpHandlerFunc) :
    (router.addHttpHandler r.method r.path r.handler).tables = router.tables.addHttpHandler r := by
  have hsynced : router.tables.Synced := router.keys_eq
  rw [hsynced.addHttpHandler_eq]
  unfold HttpRouter.addHttpHandler
  dsimp only
  split
  · next hmem => exact (if_pos hmem).symm
  · next hmem => exact (if_neg hmem).symm

theorem tables_foldl (rs : List (Registration HttpHandlerFunc)) (router : HttpRouter) :
    (rs.foldl (fun router r => router.addHttpHandler r.method r.path r.handler) router).tables =
      rs.foldl RouterTables.addHttpHandler router.tables := by
  induction rs generalizing router with
  | nil => rfl
  | cons r rs ih => rw [List.foldl_cons, ih, tables_addHttpHandler, List.foldl_cons]

/-- `HttpRouter` routes as the tables do. -/
theorem route_tables (router : HttpRouter) (turn : Nat) (req : HttpRequest) (resp : HttpResponse) :
    router.route turn req resp = (router.tables.route (fun h => h turn req) req resp).1 := by
  unfold HttpRouter.route RouterTables.route
  have hfind : router.tables.find req.key = router.find req.key := rfl
  rw [hfind]
  cases router.find req.key <;> rfl

/-- **The first registration is called.** After any registrations a request without a space in
its method calls the handler of the first one that serves it, once, or no handler, and then the
status is `NotFound`; both containers have the same keys. -/
theorem route_registered (rs : List (Registration H)) (invoke : H → HandlerOutcome)
    (req : HttpRequest) (hsp : sp ∉ req.getMethod) (resp : HttpResponse) :
    (∀ r, rs.find? (·.serves req) = some r →
      (RouterTables.registered rs).route invoke req resp =
        (HttpRouter.answer (invoke r.handler) resp, [r.handler])) ∧
    (rs.find? (·.serves req) = none →
      (RouterTables.registered rs).route invoke req resp = (resp.setStatusCode .NotFound, [])) ∧
    ∀ key, key ∈ (RouterTables.registered rs).httpHandlers.map Prod.fst ↔
      key ∈ (RouterTables.registered rs).pathKeys := by
  have hserves : (fun r : Registration H => r.wholeStr == req.key) = (·.serves req) :=
    funext fun r => r.wholeStr_beq_key hsp
  have hfind := RouterTables.find_registered rs req.key
  rw [hserves] at hfind
  refine ⟨fun r hr => ?_, fun hnone => ?_, fun key => ?_⟩
  · rw [hr, Option.map_some] at hfind
    simp only [RouterTables.route, hfind]
  · rw [hnone, Option.map_none] at hfind
    simp only [RouterTables.route, hfind]
  · have hsynced := RouterTables.synced_registered rs
    rw [RouterTables.Synced] at hsynced
    rw [hsynced]

/-- Two registrations of `GET /`: a request calls the first handler. -/
theorem route_registered_twice :
    (RouterTables.registered [(⟨.GET, bytes "/", 0⟩ : Registration Nat),
        ⟨.GET, bytes "/", 1⟩]).route (fun _ => ⟨[], false⟩) rootRequest .fresh =
      (HttpRouter.answer ⟨[], false⟩ .fresh, [0]) :=
  (route_registered _ _ rootRequest (by decide) _).1 ⟨.GET, bytes "/", 0⟩ rfl

end GameServer.Http
