import GameServer.Util.AsyncCallbackProcessor
import GameServer.Database.CallbackRuns
import GameServer.Database.CallbackTypes

/-!
# `IServer`: the update timer and the exceptions of a pass

Each expiry of the update timer sets it again and then runs a pass of the callback processor. What
is thrown there is logged by the loop of `Start`, which goes on serving. The pass works on a local
vector, and the exception destroys it: of the callbacks registered before the pass none is left,
and `serve_keeps_iff` says when none was to be kept.
-/

namespace GameServer.Net

open GameServer.Lib GameServer.Lib.Exec GameServer.Util

/-- An `IServer`; its sessions belong to the world. -/
structure IServer (κ σ : Type) where
  processing : Processing κ σ
  timerArmed : Bool
  /-- How many exceptions the loop of `Start` has logged. -/
  logged : Nat

section Code

variable {κ σ ε : Type} (T : CallbackType κ σ ε) (growth : Nat → Nat) (updateSessions : σ → σ)

/-- What the processor does, on the server. -/
def onProcessor {α : Type} (x : EStateM (Stop ε) (Processing κ σ) α) :
    EStateM (Stop ε) (IServer κ σ) α := fun s =>
  match x s.processing with
  | .ok a processing => .ok a { s with processing }
  | .error e processing => .error e { s with processing }

/-- `IServer::Update`. -/
def update : EStateM (Stop ε) (IServer κ σ) Unit := do
  modify fun s => { s with timerArmed := true }
  onProcessor (processReadyCallbacks T growth)
  modify fun s =>
    { s with processing := { s.processing with world := updateSessions s.processing.world } }

/-- The loop of `Start` when the timer expires. -/
def serve (s : IServer κ σ) : Except Halt (IServer κ σ) :=
  match update T growth updateSessions { s with timerArmed := false } with
  | .ok _ t => .ok t
  | .error (.exception _) t => .ok { t with logged := t.logged + 1 }
  | .error (.halt h) _ => .error h

end Code

variable {κ σ ε : Type} {T : CallbackType κ σ ε} {growth : Nat → Nat}

/-- A processor with these callbacks. -/
def holding (cs : List κ) (capacity : Nat) (world : σ) : Processing κ σ :=
  ⟨⟨numbered 0 cs, capacity⟩, world, cs.length, []⟩

/-- A callback that neither threw nor returned true is registered. -/
def KeepsOthers (s : Processing κ σ) : Prop :=
  ∀ n < s.registered, ⟨n, none⟩ ∉ s.polls → ⟨n, some true⟩ ∉ s.polls →
    n ∈ s.callbacks.elements.map Registration.number

/-- The last callback throws, and the ones before it return true. -/
def LastThrows (T : CallbackType κ σ ε) : List κ → σ → Prop
  | [], _ => False
  | c :: cs, w =>
    match (T.invokeIfReady c w).outcome with
    | .error _ => cs = []
    | .ok done => done = true ∧ LastThrows T cs (T.invokeIfReady c w).world

/-! ## What a pass adds -/

/-- Callbacks are registered only, and numbered on. -/
def Grows (s t : Processing κ σ) : Prop :=
  ∃ k, t.registered = s.registered + k ∧ t.callbacks.elements.map Registration.number =
    s.callbacks.elements.map Registration.number ++ List.range' s.registered k

theorem Grows.refl (s : Processing κ σ) : Grows s s := ⟨0, rfl, (List.append_nil _).symm⟩

theorem Grows.trans (s t u : Processing κ σ) (h : Grows s t) (k : Grows t u) : Grows s u := by
  obtain ⟨m, hm, hnumbers⟩ := h
  obtain ⟨n, hn, hnumbers'⟩ := k
  refine ⟨m + n, by omega, ?_⟩
  rw [hnumbers', hnumbers, hm, List.append_assoc, List.range'_append_1]

theorem poll_grows (T : CallbackType κ σ ε) (growth : Nat → Nat) (c : Registration κ) :
    Keeps Grows (poll T growth c) := by
  intro s
  obtain ⟨hnumbers, hregistered, -, -⟩ := foldl_addCallback_numbers T growth s
    (T.invokeIfReady c.callback s.world).added
  unfold poll
  cases houtcome : (T.invokeIfReady c.callback s.world).outcome with
  | ok done =>
    simp only [houtcome]
    exact ⟨_, hregistered, hnumbers⟩
  | error e =>
    simp only [houtcome]
    exact ⟨_, hregistered, hnumbers⟩

/-! ## Where a pass throws -/

theorem poll_ok {c c' : Registration κ} {done : Bool} {s t : Processing κ σ}
    (h : poll T growth c s = .ok (done, c') t) :
    (T.invokeIfReady c.callback s.world).outcome = .ok done ∧
      t.world = (T.invokeIfReady c.callback s.world).world ∧
      t.polls = s.polls ++ [⟨c.number, some done⟩] := by
  obtain ⟨-, -, -, hpolls⟩ := foldl_addCallback_numbers T growth s
    (T.invokeIfReady c.callback s.world).added
  unfold poll at h
  cases houtcome : (T.invokeIfReady c.callback s.world).outcome with
  | error e =>
    simp only [houtcome] at h
    cases h
  | ok done' =>
    simp only [houtcome] at h
    cases h
    exact ⟨rfl, rfl, congrArg (· ++ _) hpolls⟩

theorem poll_error {c : Registration κ} {e : Stop ε} {s t : Processing κ σ}
    (h : poll T growth c s = .error e t) :
    (T.invokeIfReady c.callback s.world).outcome = .error e ∧
      t.polls = s.polls ++ [⟨c.number, none⟩] := by
  obtain ⟨-, -, -, hpolls⟩ := foldl_addCallback_numbers T growth s
    (T.invokeIfReady c.callback s.world).added
  unfold poll at h
  cases houtcome : (T.invokeIfReady c.callback s.world).outcome with
  | ok done =>
    simp only [houtcome] at h
    cases h
  | error e' =>
    simp only [houtcome] at h
    cases h
    exact ⟨rfl, congrArg (· ++ _) hpolls⟩

/-- The callbacks before `c` are polled, then `c` throws. -/
structure Throws (T : CallbackType κ σ ε) (cs : List (Registration κ)) (w : σ) (e : Stop ε)
    (pre : List (Registration κ)) (c : Registration κ) (post : List (Registration κ))
    (results : List (Registration κ × Bool)) : Prop where
  split : cs = pre ++ c :: post
  polled : ∃ added w', Polled T pre w results added w' ∧
    (T.invokeIfReady c.callback w').outcome = .error e

theorem removeIf_error {m : Moves (Registration κ)} {e : Stop ε} {s t : Processing κ σ}
    {holes cs : List (Registration κ)}
    (h : removeIf m (poll T growth) holes cs s = .error e t) :
    ∃ pre c post results, Throws T cs s.world e pre c post results ∧
      t.polls = s.polls ++ pollsOf results ++ [⟨c.number, none⟩] := by
  induction cs generalizing holes s with
  | nil => cases h
  | cons c cs ih =>
    rw [removeIf] at h
    cases hpoll : poll T growth c s with
    | error e' u =>
      rw [bind_of_error hpoll] at h
      cases h
      obtain ⟨houtcome, hpolls⟩ := poll_error hpoll
      refine ⟨[], c, cs, [], ⟨rfl, [], s.world, .nil, houtcome⟩, ?_⟩
      simpa [pollsOf] using hpolls
    | ok r u =>
      obtain ⟨done, c'⟩ := r
      rw [bind_of_ok hpoll] at h
      obtain ⟨houtcome, hworld, hpolls⟩ := poll_ok hpoll
      have hrest : ∃ holes, removeIf m (poll T growth) holes cs u = .error e t := by
        cases done with
        | true => exact ⟨_, h⟩
        | false =>
          cases holes with
          | nil =>
            rcases bind_eq_error.1 h with h | ⟨kept, v, -, hpure⟩
            · exact ⟨_, h⟩
            · cases hpure
          | cons hole holes =>
            rcases bind_eq_error.1 h with h | ⟨kept, v, -, hpure⟩
            · exact ⟨_, h⟩
            · cases hpure
      obtain ⟨holes', hrest⟩ := hrest
      obtain ⟨pre, d, post, results, hthrows, hpolls'⟩ := ih hrest
      obtain ⟨added, w', hpolled, herror⟩ := hthrows.polled
      rw [hworld] at hpolled
      refine ⟨c :: pre, d, post, _, ⟨?_, _, w', .cons houtcome hpolled, herror⟩, ?_⟩
      · rw [hthrows.split, List.cons_append]
      · rw [hpolls', hpolls]
        simp [pollsOf]

theorem process_error {cs : List κ} {capacity : Nat} {w : σ} {e : Stop ε} {p : Processing κ σ}
    (h : processReadyCallbacks T growth (holding cs capacity w) = .error e p) :
    ∃ pre c post results, Throws T (numbered 0 cs) w e pre c post results ∧
      p.polls = pollsOf results ++ [⟨c.number, none⟩] ∧
      ∃ k, p.registered = cs.length + k ∧
        p.callbacks.elements.map Registration.number = List.range' cs.length k := by
  unfold processReadyCallbacks at h
  rw [get_bind] at h
  split at h
  · cases h
  · rw [modify_bind] at h
    have hremove : removeIf T.registrationMoves (poll T growth) [] (numbered 0 cs)
        { holding cs capacity w with callbacks := .stolen } = .error e p := by
      rcases bind_eq_error.1 h with hremove | ⟨kept, u, -, hinsert⟩
      · exact hremove
      · cases hinsert
    obtain ⟨pre, c, post, results, hthrows, hpolls⟩ := removeIf_error hremove
    have hgrows := removeIf_keeps (m := T.registrationMoves) Grows.refl Grows.trans
      (poll_grows T growth) [] (numbered 0 cs)
      { holding cs capacity w with callbacks := .stolen }
    rw [hremove] at hgrows
    obtain ⟨k, hregistered, hnumbers⟩ := hgrows
    exact ⟨pre, c, post, results, hthrows, hpolls, k, hregistered, hnumbers⟩

theorem lastThrows_iff {cs : List κ} {n : Nat} {w : σ} {e : Stop ε} {pre : List (Registration κ)}
    {c : Registration κ} {post : List (Registration κ)}
    {results : List (Registration κ × Bool)}
    (h : Throws T (numbered n cs) w e pre c post results) :
    LastThrows T cs w ↔ post = [] ∧ ∀ r ∈ results, r.2 = true := by
  obtain ⟨hsplit, added, w', hpolled, herror⟩ := h
  induction hpolled generalizing n cs with
  | nil =>
    cases cs with
    | nil => cases hsplit
    | cons d cs =>
      rw [numbered, List.nil_append, List.cons.injEq] at hsplit
      obtain ⟨rfl, rfl⟩ := hsplit
      simp only [LastThrows, herror]
      cases cs with
      | nil => simp [numbered]
      | cons d cs => simp [numbered]
  | @cons d pre w w'' done results added houtcome rest ih =>
    cases cs with
    | nil => cases hsplit
    | cons d' cs =>
      rw [numbered, List.cons_append, List.cons.injEq] at hsplit
      obtain ⟨rfl, hsplit⟩ := hsplit
      simp only [LastThrows, houtcome, ih hsplit herror]
      simp only [List.mem_cons, forall_eq_or_imp]
      tauto

section Pass

variable {cs : List κ} {w : σ} {e : Stop ε} {p : Processing κ σ} {pre post : List (Registration κ)}
  {c : Registration κ} {results : List (Registration κ × Bool)}

/-- The numbers of the callbacks up to the one that throws. -/
theorem Throws.numbers (h : Throws T (numbered 0 cs) w e pre c post results) :
    results.map (fun r => r.1.number) = List.range results.length ∧
      c.number = results.length ∧ cs.length = results.length + 1 + post.length := by
  obtain ⟨hsplit, added, w', hpolled, -⟩ := h
  have hnumbers := congrArg (List.map Registration.number) hsplit
  have hlength : pre.length = results.length := by
    have hlengths := congrArg List.length hpolled.numbers
    rw [List.length_map, List.length_map] at hlengths
    exact hlengths.symm
  have hcount : cs.length = results.length + 1 + post.length := by
    have hlengths := congrArg List.length hnumbers
    rw [numbers_numbered] at hlengths
    simp only [List.length_range', List.length_map, List.length_append, List.length_cons]
      at hlengths
    omega
  have hindex : ∀ i < cs.length,
      ((pre ++ c :: post).map Registration.number)[i]? = some i := by
    intro i hi
    rw [← hnumbers, numbers_numbered, List.getElem?_range' hi]
    simp
  refine ⟨?_, ?_, hcount⟩
  · rw [hpolled.numbers]
    apply List.ext_getElem?
    intro i
    by_cases hi : i < results.length
    · have hi' := hindex i (by omega)
      rw [List.map_append, List.getElem?_append_left (by rw [List.length_map]; omega)] at hi'
      rw [hi', List.getElem?_range hi]
    · rw [List.getElem?_eq_none (by rw [List.length_map]; omega),
        List.getElem?_eq_none (by rw [List.length_range]; omega)]
  · have hi := hindex results.length (by omega)
    rw [← hlength] at hi ⊢
    simpa using hi

theorem mem_pollsOf {n : Nat} {done : Bool} : (⟨n, some done⟩ : Poll) ∈ pollsOf results ↔
    ∃ r ∈ results, r.1.number = n ∧ r.2 = done := by
  simp [pollsOf]

/-- None of the callbacks registered before is kept, so each but the thrower must have returned
true. -/
theorem Throws.keepsOthers_iff_returned (h : Throws T (numbered 0 cs) w e pre c post results)
    (hpolls : p.polls = pollsOf results ++ [⟨c.number, none⟩]) {k : Nat}
    (hregistered : p.registered = cs.length + k)
    (hnumbers : p.callbacks.elements.map Registration.number = List.range' cs.length k) :
    KeepsOthers p ↔ ∀ n < cs.length, n ≠ results.length →
      ∃ r ∈ results, r.1.number = n ∧ r.2 = true := by
  obtain ⟨-, hthrower, -⟩ := h.numbers
  have hmem : ∀ n, n ∈ p.callbacks.elements.map Registration.number ↔
      cs.length ≤ n ∧ n < p.registered := by
    intro n
    rw [hnumbers, List.mem_range'_1, hregistered]
  have hnone : ∀ n, (⟨n, none⟩ : Poll) ∈ p.polls ↔ n = results.length := by
    intro n
    rw [hpolls, hthrower]
    simp [pollsOf]
  have htrue : ∀ n, (⟨n, some true⟩ : Poll) ∈ p.polls ↔
      ∃ r ∈ results, r.1.number = n ∧ r.2 = true := by
    intro n
    rw [hpolls, List.mem_append, mem_pollsOf]
    simp
  simp only [KeepsOthers, hmem, hnone, htrue]
  constructor
  · intro hkeeps n hn hne
    by_contra hnot
    have hin := (hkeeps n (by omega) hne hnot).1
    omega
  · intro hreturned n hn hne hnot
    refine ⟨?_, hn⟩
    by_contra hold
    exact hnot (hreturned n (Nat.not_le.1 hold) hne)

/-- The callbacks behind the thrower returned nothing. -/
theorem Throws.returned_iff (h : Throws T (numbered 0 cs) w e pre c post results) :
    (∀ n < cs.length, n ≠ results.length → ∃ r ∈ results, r.1.number = n ∧ r.2 = true) ↔
      post = [] ∧ ∀ r ∈ results, r.2 = true := by
  obtain ⟨horder, -, hcount⟩ := h.numbers
  have hmem : ∀ n, (∃ r ∈ results, r.1.number = n) ↔ n < results.length := by
    intro n
    rw [← List.mem_range, ← horder, List.mem_map]
  constructor
  · intro hreturned
    refine ⟨List.length_eq_zero_iff.1 ?_, fun r hr => ?_⟩
    · by_contra hpost
      obtain ⟨r, hr, hnumber, -⟩ := hreturned (results.length + 1) (by omega) (by omega)
      have hless := (hmem _).1 ⟨r, hr, hnumber⟩
      omega
    · have hless := (hmem _).1 ⟨r, hr, rfl⟩
      obtain ⟨r', hr', hnumber, hdone⟩ := hreturned r.1.number (by omega) (by omega)
      have hnodup : (results.map fun r => r.1.number).Nodup := horder ▸ List.nodup_range
      rwa [← List.inj_on_of_nodup_map hnodup hr' hr hnumber]
  · rintro ⟨rfl, hdone⟩ n hn hne
    rw [List.length_nil] at hcount
    obtain ⟨r, hr, hnumber⟩ := (hmem n).2 (by omega)
    exact ⟨r, hr, hnumber, hdone r hr⟩

end Pass

/-- **A pass that throws.** The server logs the exception and goes on, with the timer set again; and
the callbacks that neither threw nor returned true are still registered exactly if the last callback
threw and all before it had returned true. -/
theorem serve_keeps_iff (T : CallbackType κ σ ε) (growth : Nat → Nat) (updateSessions : σ → σ)
    (cs : List κ) (capacity logged : Nat) (w : σ) {e : ε} {p : Processing κ σ}
    (h : processReadyCallbacks T growth (holding cs capacity w) = .error (.exception e) p) :
    ∃ t, serve T growth updateSessions ⟨holding cs capacity w, true, logged⟩ = .ok t ∧
      t.timerArmed = true ∧ t.logged = logged + 1 ∧
      (KeepsOthers t.processing ↔ LastThrows T cs w) := by
  obtain ⟨pre, c, post, results, hthrows, hpolls, k, hregistered, hnumbers⟩ := process_error h
  have hprocessor : onProcessor (processReadyCallbacks T growth)
      ⟨holding cs capacity w, true, logged⟩ = .error (.exception e) ⟨p, true, logged⟩ := by
    simp only [onProcessor, h]
  have hupdate : update T growth updateSessions ⟨holding cs capacity w, false, logged⟩ =
      .error (.exception e) ⟨p, true, logged⟩ := by
    unfold update
    rw [modify_bind]
    exact bind_of_error hprocessor
  refine ⟨⟨p, true, logged + 1⟩, ?_, rfl, rfl, ?_⟩
  · simp only [serve, hupdate]
  · rw [lastThrows_iff hthrows, hthrows.keepsOthers_iff_returned hpolls hregistered hnumbers]
    exact hthrows.returned_iff

section QueryCallbacks

open GameServer.Database

/-- A queue that has been shut down: the queries that are listed have their result, the promise of
query 1 is broken, and the others are waiting. -/
def brokenPromise : QueryWorld (List Nat) Unit where
  status completed query :=
    if query = 1 then .exception () else if completed.contains query then .value () else .pending
  run _ w := ⟨.ok (), [], w⟩

/-- The query before the broken one is complete: no callback has to be kept. -/
theorem serve_keeps_after_complete :
    let cs := [asRegistered (false, 0), asRegistered (false, 1)]
    ∃ t, serve (queryCallbackType brokenPromise) (2 * ·) id ⟨holding cs 2 [0], true, 0⟩ = .ok t ∧
      t.timerArmed = true ∧ t.logged = 0 + 1 ∧
      (KeepsOthers t.processing ↔ LastThrows (queryCallbackType brokenPromise) cs [0]) :=
  serve_keeps_iff (e := ()) (queryCallbackType brokenPromise) (2 * ·) id
    [asRegistered (false, 0), asRegistered (false, 1)] 2 0 [0] rfl

/-- It is waiting: its callback is dropped with the one of the broken query. -/
theorem pending_callback_dropped :
    ¬∀ (cs : List QueryCallback) (capacity : Nat) (w : List Nat) (p : Processing _ _),
      processReadyCallbacks (queryCallbackType brokenPromise) (2 * ·) (holding cs capacity w) =
        .error (.exception ()) p →
          ∃ t, serve (queryCallbackType brokenPromise) (2 * ·) id ⟨holding cs capacity w, true, 0⟩ =
            .ok t ∧ KeepsOthers t.processing := by
  intro h
  obtain ⟨t, ht, hkeeps⟩ := h [asRegistered (false, 0), asRegistered (false, 1)] 2 [] _ rfl
  cases ht
  have hmem := hkeeps 0 (by decide) (by decide) (by decide)
  exact absurd hmem (by decide)

end QueryCallbacks

end GameServer.Net
