import GameServer.Lib.Family
import GameServer.Net.ClosedSession
import GameServer.Net.DelayedClose
import GameServer.Net.Server

/-!
# `IServer`: its sessions

The whole server: connections are accepted, each one gets a session, and every expiry of the update
timer runs the callbacks and then lets go of the sessions that are closed. `netServer` is its
machine, over the pass of the callbacks (`serve`) and the life of one session (`lifetime`).

* A session does not notice the others: what the server does to it is a run of `lifetime` over its
  own events and the passes that were not left by an exception (`server_isolated`).
* `_sessions` holds, in the order in which they were accepted, the sessions that were open in every
  such pass (`server_sessions`).
* A connection that could not be accepted is the last one: `DoAccept` is called again only at the
  end of a handler without an error (`server_accepts_iff`).

The handlers run one after the other, as on one thread. What a callback does to a session is an
event of that session. A run ends at a write handler that finds the queue of messages empty, where
`front` is undefined.
-/

namespace GameServer.Net

open GameServer.Lib GameServer.Lib.Exec GameServer.Util

/-- All sessions made so far, and the pointers of `_sessions` to some of them. -/
structure SessionTable where
  sessions : List (Option Nat)
  made : List LiveSession

/-- Moves of `std::shared_ptr`. -/
def sharedPtrMoves : Moves (Option Nat) := ⟨fun right => right, fun _ right => right, fun _ => none⟩

/-- `CloseSession` on a session that is erased. -/
def LiveSession.release (s : LiveSession) : LiveSession :=
  { s with session := s.session.closeSession, listed := false }

namespace SessionTable

/-- The predicate of `remove_if`; the pointer is passed by value. A null pointer, or one to a session
that was not made, is never in the table (`Listed`). -/
def updateSession (pSession : Option Nat) :
    EStateM Halt (List LiveSession) (Bool × Option Nat) := fun made =>
  match pSession with
  | none => .error .fault made
  | some i =>
    match made[i]? with
    | none => .error .fault made
    | some s =>
      if s.session.closed then .ok (true, some i) (made.set i s.release)
      else .ok (false, some i) made

/-- The end of `IServer::Update`. Its predicate returns for every pointer of the table, so that the
second branch is not reached (`Listed.updateSessions`). -/
def updateSessions (table : SessionTable) : SessionTable :=
  match removeIf sharedPtrMoves updateSession [] table.sessions table.made with
  | .ok sessions made => ⟨sessions, made⟩
  | .error _ made => ⟨table.sessions, made⟩

end SessionTable

/-- Callbacks that leave a part of the world alone. -/
def besideTable {κ τ ε : Type} (T : CallbackType κ τ ε) :
    CallbackType κ (τ × SessionTable) ε where
  moves := T.moves
  invokeIfReady c w :=
    let r := T.invokeIfReady c w.1
    ⟨r.outcome, r.self, r.added, (r.world, w.2)⟩

/-- What becomes of an `async_accept`. `gone` is a connection whose peer has left: the constructor
of the session throws, for `remote_endpoint`. -/
inductive AcceptResult where
  | connected
  | failed
  | gone
  deriving DecidableEq, Repr

structure ServerState (κ τ : Type) where
  server : IServer κ (τ × SessionTable)
  /-- An `async_accept` is pending. -/
  accepting : Bool

namespace ServerState

variable {κ τ : Type}

def table (s : ServerState κ τ) : SessionTable := s.server.processing.world.2

def withProcessing (s : ServerState κ τ) (processing : Processing κ (τ × SessionTable)) :
    ServerState κ τ :=
  { s with server := { s.server with processing } }

def withTable (s : ServerState κ τ) (table : SessionTable) : ServerState κ τ :=
  s.withProcessing
    { s.server.processing with world := (s.server.processing.world.1, table) }

/-- After `Start`. -/
def started (world : τ) : ServerState κ τ where
  server := { processing := .initial (world, ⟨[], []⟩), timerArmed := true, logged := 0 }
  accepting := true

/-- The handler of `DoAccept`. -/
def accepted (s : ServerState κ τ) : AcceptResult → ServerState κ τ
  | .connected =>
    s.withTable ⟨s.table.sessions ++ [some s.table.made.length], s.table.made ++ [.started]⟩
  | .failed => { s with accepting := false }
  | .gone =>
    { s with accepting := false, server := { s.server with logged := s.server.logged + 1 } }

end ServerState

/-- `elapse` is whatever changes the world of the callbacks. -/
inductive ServerEvent (κ τ : Type) where
  | accept (result : AcceptResult)
  | session (i : Nat) (e : LifetimeEvent)
  | timer
  | addCallback (callback : κ)
  | elapse (world : τ)

/-- `IServer::Update` is the server's, not an event of one session. -/
def LifetimeEvent.isUpdate : LifetimeEvent → Bool
  | .update => true
  | _ => false

section Code

variable {κ τ ε : Type} (T : CallbackType κ τ ε) (growth : Nat → Nat)

def netServer : Machine (ServerState κ τ) (ServerEvent κ τ) where
  init s := ∃ world, s = .started world
  step s
    | .accept result => if s.accepting then some (s.accepted result) else none
    | .session i e =>
      if e.isUpdate then none
      else (lifetime.stepOne i e s.table.made).map fun made => s.withTable { s.table with made }
    | .timer =>
      if s.server.timerArmed then
        match serve (besideTable T) growth (fun w => (w.1, w.2.updateSessions)) s.server with
        | .ok server => some { s with server }
        | .error _ => none
      else none
    | .addCallback callback =>
      some (s.withProcessing (addCallback (besideTable T) growth s.server.processing callback))
    | .elapse world =>
      some (s.withProcessing { s.server.processing with world := (world, s.table) })

end Code

/-! ## One session -/

namespace ISession

/-- A closed session stays closed. -/
theorem closed_step {s t : ISession} {e : SessionEvent} (ht : session.step s e = some t)
    (h : s.closed = true) : t.closed = true := by
  cases e with
  | sendMsg message =>
    cases ht
    rcases sendMsg_cases s message.1 with heq | ⟨hw, -⟩
    · rw [heq]
      exact h
    · rw [hw.closed]
      exact h
  | sendProtoMessage serialized =>
    cases ht
    rcases sendProtoMessage_cases s serialized with heq | ⟨hw, -⟩
    · rw [heq]
      exact h
    · rw [hw.closed]
      exact h
  | closeSession =>
    cases ht
    rfl
  | delayedCloseSession =>
    cases ht
    exact h
  | perform result =>
    change s.perform result = some t at ht
    unfold perform at ht
    split at ht
    · cases ht
    · cases result with
      | none =>
        cases ht
        exact h
      | some k =>
        simp only [Option.ite_none_right_eq_some, Option.some.injEq] at ht
        rw [← ht.2]
        exact h
  | runHandler i =>
    change s.runHandler i = some t at ht
    unfold runHandler at ht
    split at ht
    · cases ht
    · next result _ =>
      cases result with
      | none =>
        cases ht
        rfl
      | some k =>
        rcases (writeHandler_cases ht).2 with hw | ⟨-, -, hclosed⟩
        · rw [hw.closed]
          exact h
        · rw [hclosed, h, Bool.or_true]

end ISession

namespace LiveSession

variable {s t : LiveSession} {e : LifetimeEvent}

/-- The events of one session leave it listed and, if it was closed, closed. -/
theorem own_step (he : e.isUpdate = false) (ht : lifetime.step s e = some t) :
    t.listed = s.listed ∧ (s.session.closed = true → t.session.closed = true) := by
  cases e with
  | session e =>
    obtain ⟨u, hu, rfl⟩ := Option.map_eq_some_iff.1 ht
    exact ⟨rfl, ISession.closed_step hu⟩
  | readDone failed =>
    simp only [lifetime, Option.ite_none_left_eq_some, Option.some.injEq] at ht
    obtain ⟨-, rfl⟩ := ht
    cases failed with
    | true => exact ⟨rfl, fun _ => rfl⟩
    | false => exact ⟨rfl, id⟩
  | readHandled =>
    simp only [lifetime, Option.ite_none_left_eq_some, Option.some.injEq] at ht
    obtain ⟨-, rfl⟩ := ht
    exact ⟨rfl, id⟩
  | update => cases he

theorem update_listed (s : LiveSession) : s.update.listed = (s.listed && !s.session.closed) := by
  unfold update
  cases hlisted : s.listed <;> cases hclosed : s.session.closed <;> simp [hlisted]

end LiveSession

/-! ## Letting go of closed sessions -/

namespace SessionTable

variable {made : List LiveSession} {table : SessionTable}

def closedAt (made : List LiveSession) (i : Nat) : Bool := made[i]?.any fun s => s.session.closed

theorem sharedPtrMoves_whole : sharedPtrMoves.Whole := ⟨fun _ => rfl, fun _ _ => rfl⟩

/-- One call of the predicate. -/
theorem updateSession_some {i : Nat} {x : LiveSession} (hx : made[i]? = some x) :
    ∃ made', updateSession (some i) made = .ok (x.session.closed, some i) made' ∧
      made'.length = made.length ∧
      made'[i]? = some (if x.session.closed then x.release else x) ∧
      ∀ j, j ≠ i → made'[j]? = made[j]? := by
  unfold updateSession
  simp only [hx]
  cases x.session.closed with
  | false => exact ⟨made, rfl, rfl, hx, fun _ _ => rfl⟩
  | true =>
    obtain ⟨hlt, -⟩ := List.getElem?_eq_some_iff.1 hx
    exact ⟨made.set i x.release, rfl, List.length_set, List.getElem?_set_self hlt,
      fun j hj => List.getElem?_set_ne (Ne.symm hj)⟩

/-- The pass over `_sessions`: the closed ones are closed again and removed, the others stay. -/
theorem keepUnless_updateSession {is : List Nat} (hnodup : is.Nodup)
    (hlt : ∀ i ∈ is, i < made.length) :
    ∃ made', keepUnless updateSession (is.map some) made =
        .ok ((is.filter fun i => !closedAt made i).map some) made' ∧
      ∀ j, made'[j]? =
        if j ∈ is then made[j]?.map fun s => if s.session.closed then s.release else s
        else made[j]? := by
  induction is generalizing made with
  | nil => exact ⟨made, rfl, fun j => (if_neg List.not_mem_nil).symm⟩
  | cons i is ih =>
    obtain ⟨hnot, hnodup⟩ := List.nodup_cons.1 hnodup
    obtain ⟨x, hx⟩ : ∃ x, made[i]? = some x :=
      ⟨_, List.getElem?_eq_getElem (hlt i List.mem_cons_self)⟩
    obtain ⟨made₁, hcall, hlength, hself, hother⟩ := updateSession_some hx
    have hrest : ∀ k ∈ is, k < made₁.length := fun k hk =>
      hlength ▸ hlt k (List.mem_cons_of_mem i hk)
    obtain ⟨made', hrun, hmade⟩ := ih hnodup hrest
    -- the sessions that come later are what they were
    have hlater : (is.filter fun k => !closedAt made₁ k) = is.filter fun k => !closedAt made k :=
      List.filter_congr fun k hk => by
        rw [closedAt, hother k fun h => hnot (h ▸ hk), closedAt]
    refine ⟨made', ?_, fun j => ?_⟩
    · change (updateSession (some i) >>= fun r => _) made = _
      rw [bind_of_ok hcall]
      change (keepUnless updateSession (is.map some) >>= fun kept => _) made₁ = _
      rw [bind_of_ok hrun, hlater, List.filter_cons, closedAt, hx, Option.any_some]
      cases x.session.closed with
      | false => rfl
      | true => rfl
    · rw [hmade]
      by_cases hj : j = i
      · subst hj
        rw [if_neg hnot, if_pos List.mem_cons_self, hself, hx, Option.map_some]
      · simp only [List.mem_cons, hj, false_or, hother j hj]

/-- The places of the sessions that satisfy `p`. -/
def places (made : List LiveSession) (p : LiveSession → Bool) : List Nat :=
  (List.range made.length).filter fun i => made[i]?.any p

theorem mem_places {p : LiveSession → Bool} {i : Nat} :
    i ∈ places made p ↔ ∃ x, made[i]? = some x ∧ p x = true := by
  rw [places, List.mem_filter, List.mem_range]
  constructor
  · rintro ⟨-, hany⟩
    cases hx : made[i]? with
    | none =>
      rw [hx] at hany
      cases hany
    | some x =>
      rw [hx] at hany
      exact ⟨x, rfl, hany⟩
  · rintro ⟨x, hx, hp⟩
    obtain ⟨hlt, -⟩ := List.getElem?_eq_some_iff.1 hx
    exact ⟨hlt, by rw [hx]; exact hp⟩

theorem nodup_places (p : LiveSession → Bool) : (places made p).Nodup :=
  List.nodup_range.filter _

/-- A table whose pointers are those of the listed sessions, in the order of the sessions. -/
structure Listed (table : SessionTable) : Prop where
  sessions : table.sessions = (places table.made LiveSession.listed).map some
  dropped : ∀ x ∈ table.made, x.listed = false → x.session.closed = true

/-- **The pass over `_sessions`** updates every session there is. -/
theorem Listed.updateSessions (h : table.Listed) : table.updateSessions =
    ⟨(places table.made fun x => x.listed && !x.session.closed).map some,
      table.made.map LiveSession.update⟩ := by
  have hlt : ∀ i ∈ places table.made LiveSession.listed, i < table.made.length := fun i hi => by
    obtain ⟨x, hx, -⟩ := mem_places.1 hi
    exact (List.getElem?_eq_some_iff.1 hx).1
  obtain ⟨made', hrun, hmade⟩ := keepUnless_updateSession (nodup_places _) hlt
  have hupdated : made' = table.made.map LiveSession.update := by
    apply List.ext_getElem?
    intro j
    rw [hmade, List.getElem?_map]
    cases hx : table.made[j]? with
    | none => rw [Option.map_none, Option.map_none, ite_self]
    | some x =>
      have hmem : j ∈ places table.made LiveSession.listed ↔ x.listed = true := by
        rw [mem_places, hx]
        simp
      simp only [hmem, Option.map_some]
      cases hlisted : x.listed with
      | false => simp [LiveSession.update, hlisted]
      | true => simp [LiveSession.update, LiveSession.release, hlisted]
  have hkept : (places table.made LiveSession.listed).filter (fun i => !closedAt table.made i) =
      places table.made fun x => x.listed && !x.session.closed := by
    unfold places
    rw [List.filter_filter]
    apply List.filter_congr
    intro i _
    unfold closedAt
    cases table.made[i]? with
    | none => rfl
    | some x => exact Bool.and_comm _ _
  unfold SessionTable.updateSessions
  rw [removeIf_eq sharedPtrMoves_whole, h.sessions, hrun, hkept, hupdated]

theorem Listed.updated (h : table.Listed) : table.updateSessions.Listed := by
  rw [h.updateSessions]
  refine ⟨?_, ?_⟩
  · dsimp only
    unfold places
    rw [List.length_map]
    congr 1
    apply List.filter_congr
    intro i _
    rw [List.getElem?_map]
    cases table.made[i]? with
    | none => rfl
    | some x => exact (LiveSession.update_listed x).symm
  · intro x hx hlisted
    obtain ⟨y, hy, rfl⟩ := List.mem_map.1 hx
    have hdropped := h.dropped y hy
    rw [LiveSession.update_listed] at hlisted
    unfold LiveSession.update
    cases hl : y.listed with
    | false => simpa [hl] using hdropped hl
    | true =>
      rw [hl, Bool.true_and, Bool.not_eq_false'] at hlisted
      rw [hlisted]
      rfl

end SessionTable

section Runs

variable {κ τ ε : Type} {T : CallbackType κ τ ε} {growth : Nat → Nat} {s t : ServerState κ τ}
  {e : ServerEvent κ τ}

/-! ## What a pass leaves alone -/

/-- The table is the same. -/
def SameTable (p q : Processing κ (τ × SessionTable)) : Prop := q.world.2 = p.world.2

theorem processReadyCallbacks_sameTable (T : CallbackType κ τ ε) (growth : Nat → Nat) :
    Keeps SameTable (processReadyCallbacks (besideTable T) growth) := by
  have hrefl : ∀ p : Processing κ (τ × SessionTable), SameTable p p := fun _ => rfl
  have htrans : ∀ p q r : Processing κ (τ × SessionTable), SameTable p q → SameTable q r →
      SameTable p r := fun _ _ _ h k => k.trans h
  have hpoll : ∀ c, Keeps SameTable (poll (besideTable T) growth c) := by
    intro c p
    unfold poll
    dsimp only
    split
    · exact rfl
    · exact rfl
  refine .bind htrans (.of_get hrefl) fun p => .ite (.of_pure hrefl _) ?_
  refine .bind htrans (.of_modify hrefl) fun _ => ?_
  exact .bind htrans (removeIf_keeps hrefl htrans hpoll _ _) fun _ => .of_modify hrefl

/-- An expiry of the timer: the timer is set again, and the sessions are updated unless the pass of
the callbacks was left by an exception. -/
theorem serve_spec {v u : IServer κ (τ × SessionTable)}
    (h : serve (besideTable T) growth (fun w => (w.1, w.2.updateSessions)) v = .ok u) :
    u.timerArmed = true ∧
      (u.logged = v.logged + 1 ∧ u.processing.world.2 = v.processing.world.2 ∨
        u.logged = v.logged ∧ u.processing.world.2 = v.processing.world.2.updateSessions) := by
  have hsame := processReadyCallbacks_sameTable T growth v.processing
  unfold serve update at h
  rw [modify_bind] at h
  cases hpass : processReadyCallbacks (besideTable T) growth v.processing with
  | ok a p =>
    have hprocessor : onProcessor (processReadyCallbacks (besideTable T) growth)
        { v with timerArmed := true } = .ok a { v with timerArmed := true, processing := p } := by
      simp only [onProcessor, hpass]
    rw [hpass] at hsame
    rw [bind_of_ok hprocessor] at h
    cases h
    exact ⟨rfl, .inr ⟨rfl, congrArg SessionTable.updateSessions hsame⟩⟩
  | error stop p =>
    have hprocessor : onProcessor (processReadyCallbacks (besideTable T) growth)
        { v with timerArmed := true } =
          .error stop { v with timerArmed := true, processing := p } := by
      simp only [onProcessor, hpass]
    rw [hpass] at hsame
    rw [bind_of_error hprocessor] at h
    cases stop with
    | halt halt => cases h
    | exception e =>
      cases h
      exact ⟨rfl, .inl ⟨rfl, hsame⟩⟩

/-! ## One step -/

/-- The step as one of the family of sessions. A pass that was left by an exception is none. -/
def familyLabels (s : ServerState κ τ) : ServerEvent κ τ → ServerState κ τ →
    List (FamilyLabel LifetimeEvent)
  | .accept .connected, _ => [.spawn]
  | .session i e, _ => [.one i e]
  | .timer, t => if t.server.logged = s.server.logged then [.all .update] else []
  | _, _ => []

/-- The invariant of a server. -/
structure ServerState.Serving (s : ServerState κ τ) : Prop where
  armed : s.server.timerArmed = true
  listed : s.table.Listed

theorem started_serving (world : τ) : (ServerState.started (κ := κ) world).Serving :=
  ⟨rfl, rfl, fun _ hx => absurd hx List.not_mem_nil⟩

namespace SessionTable

theorem places_concat (made : List LiveSession) {x : LiveSession} {p : LiveSession → Bool}
    (hx : p x = true) : places (made ++ [x]) p = places made p ++ [made.length] := by
  unfold places
  rw [List.length_append, List.length_singleton, List.range_succ, List.filter_append]
  congr 1
  · apply List.filter_congr
    intro i hi
    rw [List.getElem?_append_left (List.mem_range.1 hi)]
  · rw [List.filter_singleton, List.getElem?_concat_length, Option.any_some, hx]
    rfl

theorem places_set {made : List LiveSession} {i : Nat} {x y : LiveSession}
    {p : LiveSession → Bool} (hx : made[i]? = some x) (hp : p y = p x) :
    places (made.set i y) p = places made p := by
  obtain ⟨hlt, -⟩ := List.getElem?_eq_some_iff.1 hx
  unfold places
  rw [List.length_set]
  apply List.filter_congr
  intro j _
  by_cases hj : i = j
  · subst hj
    rw [List.getElem?_set_self hlt, hx, Option.any_some, Option.any_some, hp]
  · rw [List.getElem?_set_ne hj]

variable {table : SessionTable}

theorem Listed.connected (h : table.Listed) : SessionTable.Listed
    ⟨table.sessions ++ [some table.made.length], table.made ++ [.started]⟩ := by
  refine ⟨?_, fun x hx hlisted => ?_⟩
  · rw [places_concat table.made (p := LiveSession.listed) rfl, List.map_append, ← h.sessions]
    rfl
  · rcases List.mem_append.1 hx with hx | hx
    · exact h.dropped x hx hlisted
    · rw [List.mem_singleton.1 hx] at hlisted
      cases hlisted

/-- One session moves, and does not leave the table. -/
theorem Listed.set (h : table.Listed) {i : Nat} {x y : LiveSession} (hx : table.made[i]? = some x)
    (hlisted : y.listed = x.listed)
    (hclosed : x.session.closed = true → y.session.closed = true) :
    SessionTable.Listed { table with made := table.made.set i y } := by
  refine ⟨?_, fun z hz hdropped => ?_⟩
  · rw [places_set hx hlisted]
    exact h.sessions
  · rcases List.mem_or_eq_of_mem_set hz with hz | rfl
    · exact h.dropped z hz hdropped
    · exact hclosed (h.dropped x (List.mem_of_getElem? hx) (hlisted.symm.trans hdropped))

theorem Listed.own (h : table.Listed) {i : Nat} {e : LifetimeEvent} {made : List LiveSession}
    (he : e.isUpdate = false) (hmade : lifetime.stepOne i e table.made = some made) :
    SessionTable.Listed { table with made } := by
  obtain ⟨-, x, y, hx, hstep, rfl⟩ := Machine.stepOne_spec hmade
  obtain ⟨hlisted, hclosed⟩ := LiveSession.own_step he hstep
  exact h.set hx hlisted hclosed

end SessionTable

/-- A step of the timer, taken apart. -/
theorem timer_spec (h : s.Serving) (ht : (netServer T growth).step s .timer = some t) :
    t.server.timerArmed = true ∧ t.accepting = s.accepting ∧
      (t.server.logged = s.server.logged + 1 ∧ t.table = s.table ∨
        t.server.logged = s.server.logged ∧ t.table = s.table.updateSessions) := by
  change (if s.server.timerArmed then _ else none) = some t at ht
  rw [if_pos h.armed] at ht
  split at ht
  · next u hu =>
    cases ht
    obtain ⟨harmed, hcases⟩ := serve_spec hu
    exact ⟨harmed, rfl, hcases⟩
  · cases ht

/-- **One step.** The server goes on serving, and its sessions take a step as a family. -/
theorem ServerState.Serving.step (h : s.Serving) (ht : (netServer T growth).step s e = some t) :
    t.Serving ∧
      (lifetime.family .started).run s.table.made (familyLabels s e t) = some t.table.made := by
  cases e with
  | accept result =>
    simp only [netServer, Option.ite_none_right_eq_some, Option.some.injEq] at ht
    obtain ⟨-, rfl⟩ := ht
    cases result with
    | connected => exact ⟨⟨h.armed, h.listed.connected⟩, rfl⟩
    | failed => exact ⟨⟨h.armed, h.listed⟩, rfl⟩
    | gone => exact ⟨⟨h.armed, h.listed⟩, rfl⟩
  | session i e =>
    simp only [netServer, Option.ite_none_left_eq_some, Option.map_eq_some_iff] at ht
    obtain ⟨he, made, hmade, rfl⟩ := ht
    refine ⟨⟨h.armed, h.listed.own (Bool.not_eq_true _ ▸ he) hmade⟩, ?_⟩
    change (lifetime.stepOne i e s.table.made).bind _ = some made
    rw [hmade]
    rfl
  | timer =>
    obtain ⟨harmed, -, hcases⟩ := timer_spec h ht
    change _ ∧ (lifetime.family .started).run s.table.made
      (if t.server.logged = s.server.logged then [.all .update] else []) = _
    rcases hcases with ⟨hlogged, htable⟩ | ⟨hlogged, htable⟩
    · rw [if_neg (by omega), htable]
      exact ⟨⟨harmed, htable ▸ h.listed⟩, rfl⟩
    · rw [if_pos hlogged, htable]
      refine ⟨⟨harmed, htable ▸ h.listed.updated⟩, ?_⟩
      rw [h.listed.updateSessions, Machine.run_cons]
      change (lifetime.stepAll .update s.table.made).bind _ = _
      rw [Machine.stepAll_eq_map fun _ => rfl]
      rfl
  | addCallback callback =>
    cases ht
    exact ⟨⟨h.armed, h.listed⟩, rfl⟩
  | elapse world =>
    cases ht
    exact ⟨⟨h.armed, h.listed⟩, rfl⟩

end Runs

/-! ## Whole runs -/

/-- **Sessions do not notice each other.** A session of the server is where its own events bring it,
with an update for each pass, since it was accepted, that was not left by an exception. -/
theorem server_isolated {κ τ ε : Type} {T : CallbackType κ τ ε} {growth : Nat → Nat} {world : τ}
    {events : List (ServerEvent κ τ)} {s : ServerState κ τ}
    (h : (netServer T growth).run (.started world) events = some s) {i : Nat} {x : LiveSession}
    (hx : s.table.made[i]? = some x) :
    lifetime.run .started (Machine.ownLabels i 0
      ((netServer T growth).labels familyLabels (.started world) events)) = some x := by
  have hrun := Machine.run_labels (I := ServerState.Serving)
    (F := fun s : ServerState κ τ => s.table.made) (fun _ _ _ hs ht => hs.step ht)
    (started_serving world) h
  exact Machine.family_run hrun hx

/-- One session is closed by its peer; a second one stays open in the next pass. -/
def onePeerLeaves : List (ServerEvent Empty Unit) :=
  [.accept .connected, .accept .connected, .session 0 (.readDone true), .timer]

/-- No callbacks. -/
def noCallbacks : CallbackType Empty Unit Empty := ⟨⟨id, fun _ => id, id⟩, fun c => c.elim⟩

theorem server_isolated_onePeerLeaves : ∃ s x,
    (netServer noCallbacks id).run (.started ()) onePeerLeaves = some s ∧
      s.table.made[0]? = some x ∧ x.listed = false ∧
      lifetime.run .started [.readDone true, .update] = some x := by
  have hrun : ∃ s x, (netServer noCallbacks id).run (.started ()) onePeerLeaves = some s ∧
      s.table.made[0]? = some x ∧ x.listed = false := ⟨_, _, rfl, rfl, rfl⟩
  obtain ⟨s, x, hs, hx, hlisted⟩ := hrun
  exact ⟨s, x, hs, hx, hlisted, server_isolated hs hx⟩

/-- **The sessions that are held.** The timer is set in every state. `_sessions` holds the listed
sessions in the order in which they were accepted, each once; one that is not listed is closed. A
pass that is not left by an exception lets go of exactly the sessions that are closed. -/
theorem server_sessions {κ τ ε : Type} {T : CallbackType κ τ ε} {growth : Nat → Nat}
    {s : ServerState κ τ} (h : (netServer T growth).Reach s) :
    s.server.timerArmed = true ∧
      s.table.sessions = (SessionTable.places s.table.made LiveSession.listed).map some ∧
      (∀ x ∈ s.table.made, x.listed = false → x.session.closed = true) ∧
      ∀ t, (netServer T growth).step s .timer = some t →
        t.server.logged = s.server.logged + 1 ∧ t.table = s.table ∨
        t.server.logged = s.server.logged ∧ ∀ i, some i ∈ t.table.sessions ↔
          some i ∈ s.table.sessions ∧
            ∃ x, s.table.made[i]? = some x ∧ x.session.closed = false := by
  have hserving : s.Serving := by
    refine h.invariant ?_ fun _ _ _ hs _ ht => (hs.step ht).1
    rintro _ ⟨world, rfl⟩
    exact started_serving world
  have hlisted := hserving.listed
  refine ⟨hserving.armed, hlisted.sessions, hlisted.dropped, fun t ht => ?_⟩
  rcases (timer_spec hserving ht).2.2 with hthrown | ⟨hlogged, htable⟩
  · exact .inl hthrown
  · refine .inr ⟨hlogged, fun i => ?_⟩
    have hmem : ∀ p : LiveSession → Bool,
        some i ∈ (SessionTable.places s.table.made p).map some ↔
          ∃ x, s.table.made[i]? = some x ∧ p x = true := fun p => by
      simp only [List.mem_map, Option.some.injEq, exists_eq_right, SessionTable.mem_places]
    rw [htable, hlisted.updateSessions, hlisted.sessions, hmem, hmem]
    cases s.table.made[i]? with
    | none => simp
    | some x => simp

/-- A session that is listed and closed is let go of. -/
theorem server_sessions_onePeerLeaves : ∃ s t,
    (netServer noCallbacks id).run (.started ()) (onePeerLeaves.take 3) = some s ∧
      (netServer noCallbacks id).step s .timer = some t ∧
      s.table.sessions = [some 0, some 1] ∧ t.table.sessions = [some 1] ∧
      ∀ i, some i ∈ t.table.sessions ↔ some i ∈ s.table.sessions ∧
        ∃ x, s.table.made[i]? = some x ∧ x.session.closed = false := by
  have hrun : ∃ s t,
      (netServer noCallbacks id).run (.started ()) (onePeerLeaves.take 3) = some s ∧
        (netServer noCallbacks id).step s .timer = some t ∧
        s.table.sessions = [some 0, some 1] ∧ t.table.sessions = [some 1] ∧
        t.server.logged = s.server.logged := ⟨_, _, rfl, rfl, rfl, rfl, rfl⟩
  obtain ⟨s, t, hs, ht, hbefore, hafter, hlogged⟩ := hrun
  obtain ⟨-, -, -, hpass⟩ := server_sessions (Machine.reach_of_run ⟨_, rfl⟩ hs)
  rcases hpass t ht with ⟨hthrown, -⟩ | ⟨-, hkept⟩
  · omega
  · exact ⟨s, t, hs, ht, hbefore, hafter, hkept⟩

/-! ## Accepting -/

section Accepting

variable {κ τ ε : Type} {T : CallbackType κ τ ε} {growth : Nat → Nat} {s t : ServerState κ τ}

theorem accepting_step {e : ServerEvent κ τ} (ht : (netServer T growth).step s e = some t) :
    t.accepting = true ↔ s.accepting = true ∧ ∀ r, e = .accept r → r = .connected := by
  cases e with
  | accept result =>
    simp only [netServer, Option.ite_none_right_eq_some, Option.some.injEq] at ht
    obtain ⟨-, rfl⟩ := ht
    cases result with
    | connected =>
      simp [ServerState.accepted, ServerState.withTable, ServerState.withProcessing]
    | failed => simp [ServerState.accepted]
    | gone => simp [ServerState.accepted]
  | session i e =>
    simp only [netServer, Option.ite_none_left_eq_some, Option.map_eq_some_iff] at ht
    obtain ⟨-, made, -, rfl⟩ := ht
    simp [ServerState.withTable, ServerState.withProcessing]
  | timer =>
    simp only [netServer, Option.ite_none_right_eq_some] at ht
    obtain ⟨-, ht⟩ := ht
    split at ht
    · cases ht
      simp
    · cases ht
  | addCallback callback =>
    cases ht
    simp [ServerState.withProcessing]
  | elapse world =>
    cases ht
    simp [ServerState.withProcessing]

theorem accepting_run {events : List (ServerEvent κ τ)}
    (h : (netServer T growth).run s events = some t) :
    t.accepting = true ↔
      s.accepting = true ∧ ∀ r, .accept r ∈ events → r = .connected := by
  induction events generalizing s with
  | nil =>
    cases h
    simp
  | cons e events ih =>
    rw [Machine.run_cons] at h
    obtain ⟨u, hu, hrest⟩ := Option.bind_eq_some_iff.1 h
    rw [ih hrest, accepting_step hu, and_assoc]
    refine and_congr_right fun _ => ?_
    simp only [List.mem_cons, or_imp, forall_and, eq_comm]

end Accepting

/-- **The last connection.** The server accepts connections as long as every `async_accept` brought
one: the first that fails, or brings one whose peer has left already, is the last one. -/
theorem server_accepts_iff {κ τ ε : Type} {T : CallbackType κ τ ε} {growth : Nat → Nat}
    {world : τ} {events : List (ServerEvent κ τ)} {s : ServerState κ τ}
    (h : (netServer T growth).run (.started world) events = some s) :
    (s.accepting = true ↔ ∀ r, .accept r ∈ events → r = .connected) ∧
      ∀ pre r post, events = pre ++ .accept r :: post →
        ∀ r', .accept r' ∈ pre → r' = .connected := by
  refine ⟨(accepting_run h).trans (and_iff_right rfl), ?_⟩
  rintro pre r post rfl
  rw [Machine.run_append] at h
  obtain ⟨u, hu, hrest⟩ := Option.bind_eq_some_iff.1 h
  rw [Machine.run_cons] at hrest
  obtain ⟨v, hv, -⟩ := Option.bind_eq_some_iff.1 hrest
  have haccepting : u.accepting = true := (Option.ite_none_right_eq_some.1 hv).1
  exact ((accepting_run hu).1 haccepting).2

/-- The second connection is gone before its session is made. -/
def peerGone : List (ServerEvent Empty Unit) := [.accept .connected, .accept .gone, .timer]

theorem server_accepts_iff_peerGone : ∃ s,
    (netServer noCallbacks id).run (.started ()) peerGone = some s ∧ s.accepting = false ∧
      (s.accepting = true ↔ ∀ r, .accept r ∈ peerGone → r = .connected) := by
  have hrun : ∃ s, (netServer noCallbacks id).run (.started ()) peerGone = some s ∧
      s.accepting = false := ⟨_, rfl, rfl⟩
  obtain ⟨s, hs, haccepting⟩ := hrun
  exact ⟨s, hs, haccepting, (server_accepts_iff hs).1⟩

end GameServer.Net
