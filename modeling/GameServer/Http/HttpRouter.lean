import GameServer.Http.HttpParser
import GameServer.Http.HttpResponse

/-!
# `HttpRouter`

The router of a session maps a method and path to a handler. A handler may keep state of its
own between requests, so what it does depends on the turn as well as on the request. A request
that finds no handler and a handler that throws leave everything else in the response as it was.
-/

namespace GameServer.Http

/-- What a handler did to its response, and whether it ended with an exception. -/
structure HandlerOutcome where
  effects : List ResponseEffect
  throws : Bool

abbrev HttpHandlerFunc : Type := (turn : Nat) → HttpRequest → HandlerOutcome

/-- The views that are the keys of `_httpHandlers` point into `_pathKeys`. -/
structure HttpRouter where
  httpHandlers : List (Bytes × HttpHandlerFunc)
  pathKeys : List Bytes
  keys_eq : httpHandlers.map Prod.fst = pathKeys
  nodup : pathKeys.Nodup

namespace HttpRouter

def fresh : HttpRouter := ⟨[], [], rfl, List.nodup_nil⟩

def find (router : HttpRouter) (key : Bytes) : Option HttpHandlerFunc :=
  (router.httpHandlers.find? fun entry => entry.1 == key).map Prod.snd

theorem find_fresh (key : Bytes) : fresh.find key = none := rfl

/-- `AddHttpHandler`: a path that is registered keeps its handler. -/
def addHttpHandler (router : HttpRouter) (method : HttpMethod) (path : Bytes)
    (handler : HttpHandlerFunc) : HttpRouter :=
  let wholeStr := httpMethodToString method ++ bytes " " ++ path
  if h : wholeStr ∈ router.pathKeys then router
  else
    { httpHandlers := router.httpHandlers ++ [(wholeStr, handler)]
      pathKeys := router.pathKeys ++ [wholeStr]
      keys_eq := by rw [List.map_append, router.keys_eq]; rfl
      nodup := List.nodup_append.2 ⟨router.nodup, List.pairwise_singleton _ _, fun a ha b hb hab =>
        h (List.mem_singleton.1 hb ▸ hab ▸ ha)⟩ }

def answer (outcome : HandlerOutcome) (resp : HttpResponse) : HttpResponse :=
  let resp := outcome.effects.foldl HttpResponse.apply resp
  if outcome.throws then resp.setStatusCode .ServiceUnavailable else resp

def route (router : HttpRouter) (turn : Nat) (req : HttpRequest) (resp : HttpResponse) :
    HttpResponse :=
  match router.find req.key with
  | some handler => answer (handler turn req) resp
  | none => resp.setStatusCode .NotFound

/-- The key of the handler that `Route` calls. -/
def invoked (router : HttpRouter) (req : HttpRequest) : Option Bytes :=
  if (router.find req.key).isSome then some req.key else none

/-- The handler that `Route` calls replaces the whole response. -/
def Assigns (router : HttpRouter) (turn : Nat) (req : HttpRequest) : Prop :=
  ∃ handler, router.find req.key = some handler ∧
    HttpResponse.Assigns (handler turn req).effects

variable {router : HttpRouter} {turn : Nat} {req : HttpRequest}

/-- A handler is found under exactly the registered paths. -/
theorem find_isSome {key : Bytes} : (router.find key).isSome ↔ key ∈ router.pathKeys := by
  rw [← router.keys_eq, find, Option.isSome_map, List.find?_isSome]
  constructor
  · rintro ⟨entry, hmem, heq⟩
    exact eq_of_beq heq ▸ List.mem_map_of_mem hmem
  · intro h
    obtain ⟨entry, hmem, rfl⟩ := List.mem_map.1 h
    exact ⟨entry, hmem, beq_self_eq_true _⟩

theorem find_addHttpHandler (router : HttpRouter) (method : HttpMethod) (path : Bytes)
    (handler : HttpHandlerFunc) : ((router.addHttpHandler method path handler).find
      (httpMethodToString method ++ bytes " " ++ path)).isSome := by
  rw [find_isSome]
  unfold addHttpHandler
  dsimp only
  split
  · assumption
  · exact List.mem_append_right _ (List.mem_singleton_self _)

/-- Registering a path again changes nothing. -/
theorem addHttpHandler_registered {method : HttpMethod} {path : Bytes} {handler : HttpHandlerFunc}
    (h : (router.find (httpMethodToString method ++ bytes " " ++ path)).isSome) :
    router.addHttpHandler method path handler = router :=
  dif_pos (find_isSome.1 h)

theorem invoked_eq_some {key : Bytes} (h : router.invoked req = some key) : req.key = key := by
  unfold invoked at h
  split at h
  · exact Option.some.inj h
  · cases h

theorem invoked_eq_none : router.invoked req = none ↔ router.find req.key = none := by
  unfold invoked
  cases router.find req.key <;> simp

/-- A whole response that is assigned hides the one before. -/
theorem route_of_assigns (h : router.Assigns turn req) (u f : HttpResponse) :
    router.route turn req u = router.route turn req f := by
  obtain ⟨handler, hfind, hassigns⟩ := h
  simp only [route, hfind, answer, HttpResponse.foldl_apply_of_assigns hassigns u f]

/-- Routing without an assignment keeps a used response ahead of a fresh one. -/
theorem route_outweighs (h : ¬router.Assigns turn req) {u f : HttpResponse}
    (huf : HttpResponse.Outweighs u f) :
    HttpResponse.Outweighs (router.route turn req u) (router.route turn req f) := by
  unfold route
  split
  · next handler hfind =>
    have hall := huf.foldl_apply fun hassigns => h ⟨handler, hfind, hassigns⟩
    unfold answer
    split
    · exact hall.apply (.setStatusCode .ServiceUnavailable) fun _ => nofun
    · exact hall
  · exact huf.apply (.setStatusCode .NotFound) fun _ => nofun

end HttpRouter

end GameServer.Http
