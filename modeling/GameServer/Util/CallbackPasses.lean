import Mathlib.Data.List.Count
import Mathlib.Data.List.Nodup
import GameServer.Util.AsyncCallbackProcessor

/-!
# A pass calls each callback once

For every `Callback` type whose moves carry the whole object, a pass whose calls of `InvokeIfReady`
return (`Returning`) ends, has called the callbacks registered before it, each once and in order, and
leaves behind those added during the pass and then those that returned false (`PassedOnce`). Over a
whole run every registration is stored once until it returns true, and is not called any more
afterwards (`Conserved`).
-/

namespace GameServer.Util

open GameServer.Lib GameServer.Lib.Exec

variable {κ σ ε : Type}

/-- `InvokeIfReady` returns on each of these callbacks, called one after the other. -/
def Returning (T : CallbackType κ σ ε) : List (Registration κ) → σ → Prop
  | [], _ => True
  | c :: cs, w => (∃ done, (T.invokeIfReady c.callback w).outcome = .ok done) ∧
      Returning T cs (T.invokeIfReady c.callback w).world

/-- What a pass from `s` to `t` should do. -/
structure PassedOnce (T : CallbackType κ σ ε) (s t : Processing κ σ)
    (results : List (Registration κ × Bool)) (added : List κ) : Prop where
  polled : Polled T s.callbacks.elements s.world results added t.world
  polls : t.polls = s.polls ++ pollsOf results
  order : results.map (fun r => r.1.number) = s.callbacks.elements.map Registration.number
  callbacks : t.callbacks.elements = numbered s.registered added ++ survivors results
  registered : t.registered = s.registered + added.length

/-- Each registration is stored once, or has returned true once and is not called afterwards. -/
structure Conserved (s : Processing κ σ) : Prop where
  stored : ∀ n, (s.callbacks.elements.map Registration.number).count n +
    s.polls.count ⟨n, some true⟩ = if n < s.registered then 1 else 0
  finished : s.polls.Pairwise fun a b => a.result = some true → b.number ≠ a.number

variable {T : CallbackType κ σ ε} {growth : Nat → Nat} {s t : Processing κ σ}

/-! ## One pass -/

theorem registrationMoves_whole (h : T.moves.Whole) : T.registrationMoves.Whole := by
  refine ⟨fun right => ?_, fun target right => ?_⟩
  · simp [CallbackType.registrationMoves, h.construct]
  · simp [CallbackType.registrationMoves, h.assign]

theorem foldl_addCallback_elements (growth : Nat → Nat) (h : T.moves.Whole) (s : Processing κ σ)
    (added : List κ) :
    (added.foldl (addCallback T growth) s).callbacks.elements =
      s.callbacks.elements ++ numbered s.registered added := by
  induction added generalizing s with
  | nil => simp [numbered]
  | cons c added ih =>
    rw [List.foldl_cons, ih, numbered]
    simp [addCallback, MoveVector.emplaceBack_elements (registrationMoves_whole h)]

/-- The callbacks `cs` are polled, going from `s` to `t`; `kept` returned false. -/
structure PolledFrom (T : CallbackType κ σ ε) (cs kept : List (Registration κ))
    (s t : Processing κ σ) (results : List (Registration κ × Bool)) (added : List κ) : Prop where
  polled : Polled T cs s.world results added t.world
  kept : kept = survivors results
  polls : t.polls = s.polls ++ pollsOf results
  callbacks : t.callbacks.elements = s.callbacks.elements ++ numbered s.registered added
  registered : t.registered = s.registered + added.length

theorem poll_ok (h : T.moves.Whole) {c c' : Registration κ} {done : Bool}
    (hpoll : poll T growth c s = .ok (done, c') t) :
    (T.invokeIfReady c.callback s.world).outcome = .ok done ∧
      c' = { c with callback := (T.invokeIfReady c.callback s.world).self } ∧
      t.world = (T.invokeIfReady c.callback s.world).world ∧
      t.polls = s.polls ++ [⟨c.number, some done⟩] ∧
      t.callbacks.elements = s.callbacks.elements ++
        numbered s.registered (T.invokeIfReady c.callback s.world).added ∧
      t.registered = s.registered + (T.invokeIfReady c.callback s.world).added.length := by
  have helements := foldl_addCallback_elements growth h s
    (T.invokeIfReady c.callback s.world).added
  obtain ⟨-, hregistered, -, hpolls⟩ := foldl_addCallback_numbers T growth s
    (T.invokeIfReady c.callback s.world).added
  unfold poll at hpoll
  cases houtcome : (T.invokeIfReady c.callback s.world).outcome with
  | error e =>
    simp only [houtcome] at hpoll
    cases hpoll
  | ok done' =>
    simp only [houtcome] at hpoll
    cases hpoll
    exact ⟨rfl, rfl, rfl, congrArg (· ++ _) hpolls, helements, hregistered⟩

theorem keepUnless_ok (h : T.moves.Whole) {cs kept : List (Registration κ)}
    (hkeep : keepUnless (poll T growth) cs s = .ok kept t) :
    ∃ results added, PolledFrom T cs kept s t results added := by
  induction cs generalizing s kept with
  | nil =>
    cases hkeep
    exact ⟨[], [], .nil, rfl, by simp [pollsOf], by simp [numbered], rfl⟩
  | cons c cs ih =>
    obtain ⟨⟨done, c'⟩, u, hu, hrest⟩ := bind_eq_ok.1 hkeep
    obtain ⟨rest, v, hv, hkept⟩ := bind_eq_ok.1 hrest
    cases hkept
    obtain ⟨houtcome, rfl, hworld, hpolls, hcallbacks, hregistered⟩ := poll_ok h hu
    obtain ⟨results, added, hpolled⟩ := ih hv
    refine ⟨_ :: results, _ ++ added, .cons houtcome (hworld ▸ hpolled.polled), ?_, ?_, ?_, ?_⟩
    · rw [hpolled.kept]
      cases done <;> simp [survivors]
    · rw [hpolled.polls, hpolls]
      simp [pollsOf]
    · rw [hpolled.callbacks, hcallbacks, hregistered, numbered_append, List.append_assoc]
    · rw [hpolled.registered, hregistered, List.length_append, Nat.add_assoc]

/-- Calls that return do not stop the pass. -/
theorem keepUnless_returns (growth : Nat → Nat) (h : T.moves.Whole) {cs : List (Registration κ)}
    (hreturning : Returning T cs s.world) :
    ∃ kept t, keepUnless (poll T growth) cs s = .ok kept t := by
  induction cs generalizing s with
  | nil => exact ⟨[], s, rfl⟩
  | cons c cs ih =>
    obtain ⟨⟨done, hdone⟩, hrest⟩ := hreturning
    have hpoll : ∃ c' t, poll T growth c s = .ok (done, c') t := by
      unfold poll
      simp only [hdone]
      exact ⟨_, _, rfl⟩
    obtain ⟨c', u, hu⟩ := hpoll
    obtain ⟨-, -, hworld, -⟩ := poll_ok h hu
    obtain ⟨kept, t, ht⟩ := ih (s := u) (hworld ▸ hrest)
    exact ⟨_, t, bind_eq_ok.2 ⟨_, u, hu, bind_eq_ok.2 ⟨kept, t, ht, rfl⟩⟩⟩

theorem process_returns (growth : Nat → Nat) (h : T.moves.Whole)
    (hreturning : Returning T s.callbacks.elements s.world) :
    ∃ t, processReadyCallbacks T growth s = .ok ⟨⟩ t := by
  unfold processReadyCallbacks
  rw [get_bind]
  cases helements : s.callbacks.elements with
  | nil => exact ⟨s, rfl⟩
  | cons c cs =>
    simp only [List.isEmpty_cons, Bool.false_eq_true, if_false, modify_bind]
    rw [helements] at hreturning
    obtain ⟨kept, t, ht⟩ := keepUnless_returns growth
      (s := { s with callbacks := .stolen }) h hreturning
    rw [← removeIf_eq (registrationMoves_whole h)] at ht
    exact ⟨_, bind_eq_ok.2 ⟨kept, t, ht, rfl⟩⟩

theorem process_passedOnce (h : T.moves.Whole)
    (hpass : processReadyCallbacks T growth s = .ok ⟨⟩ t) :
    ∃ results added, PassedOnce T s t results added := by
  unfold processReadyCallbacks at hpass
  rw [get_bind] at hpass
  cases helements : s.callbacks.elements with
  | nil =>
    simp only [helements, List.isEmpty_nil, if_true] at hpass
    cases hpass
    refine ⟨[], [], ?_, ?_, ?_, ?_, rfl⟩
    · rw [helements]
      exact .nil
    · simp [pollsOf]
    · simp [helements]
    · simp [helements, numbered, survivors]
  | cons c cs =>
    simp only [helements, List.isEmpty_cons, Bool.false_eq_true, if_false, modify_bind] at hpass
    obtain ⟨kept, u, hu, hinsert⟩ := bind_eq_ok.1 hpass
    rw [removeIf_eq (registrationMoves_whole h)] at hu
    obtain ⟨results, added, hpolled⟩ := keepUnless_ok h hu
    cases hinsert
    refine ⟨results, added, ?_, hpolled.polls, ?_, ?_, hpolled.registered⟩
    · rw [helements]
      exact hpolled.polled
    · rw [helements]
      exact hpolled.polled.numbers
    · change (u.callbacks.insertEnd _ _ kept).elements = _
      rw [MoveVector.insertEnd_elements (registrationMoves_whole h), hpolled.callbacks,
        hpolled.kept]
      rfl

/-! ## Whole runs -/

theorem conserved_initial (world : σ) : Conserved (.initial world : Processing κ σ) :=
  ⟨fun n => by simp [Processing.initial, MoveVector.stolen], .nil⟩

theorem Conserved.add (h : Conserved s) (callback : κ) :
    Conserved (addCallback T growth s callback) := by
  refine ⟨fun n => ?_, h.finished⟩
  have hstored := h.stored n
  rw [addCallback_numbers, List.count_append, List.count_singleton]
  change _ + s.polls.count _ = if n < s.registered + 1 then 1 else 0
  by_cases hn : n = s.registered
  · subst hn
    simp at hstored ⊢
    omega
  · have hlt : n < s.registered + 1 ↔ n < s.registered := by omega
    have hne : (s.registered == n) = false := by simpa using Ne.symm hn
    simp only [hlt, hne]
    simpa using hstored

theorem Conserved.elapse (h : Conserved s) (world : σ) : Conserved { s with world } :=
  ⟨h.stored, h.finished⟩

/-- Each result is a survivor or a call that returned true. -/
theorem count_results (results : List (Registration κ × Bool)) (n : Nat) :
    ((survivors results).map Registration.number).count n +
      (pollsOf results).count ⟨n, some true⟩ =
        (results.map fun r => r.1.number).count n := by
  induction results with
  | nil => rfl
  | cons r results ih =>
    obtain ⟨c, done⟩ := r
    simp only [survivors, pollsOf, List.filter_cons, List.map_cons, List.map_map,
      List.count_cons] at ih ⊢
    cases done with
    | true =>
      by_cases hn : c.number = n
      · simp [hn]
        omega
      · simp [hn]
        omega
    | false =>
      by_cases hn : c.number = n
      · simp [hn]
        omega
      · simp [hn]
        omega

theorem count_range' (n start length : Nat) :
    (List.range' start length).count n = if start ≤ n ∧ n < start + length then 1 else 0 := by
  rw [List.Nodup.count List.nodup_range']
  simp [List.mem_range'_1]

theorem Conserved.numbers_nodup (h : Conserved s) :
    (s.callbacks.elements.map Registration.number).Nodup := by
  rw [List.nodup_iff_count_le_one]
  intro n
  have hstored := h.stored n
  split at hstored <;> omega

/-- A callback that returned true is not stored any more. -/
theorem Conserved.not_mem_of_true (h : Conserved s) {a : Poll} (ha : a ∈ s.polls)
    (htrue : a.result = some true) :
    a.number ∉ s.callbacks.elements.map Registration.number := by
  obtain ⟨n, result⟩ := a
  change result = some true at htrue
  subst htrue
  have hpos := List.count_pos_iff.2 ha
  have hstored := h.stored n
  rw [← List.count_eq_zero]
  change List.count n _ = 0
  split at hstored <;> omega

theorem Conserved.pass (h : Conserved s) {results : List (Registration κ × Bool)}
    {added : List κ} (hpass : PassedOnce T s t results added) : Conserved t := by
  refine ⟨fun n => ?_, ?_⟩
  · have hstored := h.stored n
    have hresults := count_results results n
    rw [hpass.order] at hresults
    rw [hpass.callbacks, hpass.polls, hpass.registered, List.map_append, List.count_append,
      List.count_append, numbers_numbered, count_range']
    by_cases hold : n < s.registered
    · rw [if_pos hold] at hstored
      rw [if_neg (by omega), if_pos (by omega)]
      omega
    · rw [if_neg hold] at hstored
      by_cases hnew : n < s.registered + added.length
      · rw [if_pos (by omega), if_pos hnew]
        omega
      · rw [if_neg (by omega), if_neg hnew]
        omega
  · rw [hpass.polls, List.pairwise_append]
    refine ⟨h.finished, ?_, ?_⟩
    · have hnodup := h.numbers_nodup
      rw [← hpass.order] at hnodup
      rw [pollsOf, List.pairwise_map]
      refine (List.pairwise_map.1 hnodup).imp fun hne _ heq => hne heq.symm
    · intro a ha b hb htrue heq
      obtain ⟨r, hr, rfl⟩ := List.mem_map.1 hb
      refine h.not_mem_of_true ha htrue ?_
      rw [← hpass.order, ← heq]
      exact List.mem_map_of_mem hr

theorem step_processReadyCallbacks
    (h : (callbackRuns T growth).step s .processReadyCallbacks = some t) :
    processReadyCallbacks T growth s = .ok ⟨⟩ t := by
  simp only [callbackRuns] at h
  split at h
  · next hpass =>
    cases h
    exact hpass
  · cases h

theorem conserved_reach (hmoves : T.moves.Whole) (h : (callbackRuns T growth).Reach s) :
    Conserved s := by
  refine h.invariant (fun s h0 => ?_) fun s e t hs _ ht => ?_
  · obtain ⟨world, rfl⟩ := h0
    exact conserved_initial world
  · cases e with
    | addCallback callback =>
      cases ht
      exact hs.add callback
    | processReadyCallbacks =>
      obtain ⟨results, added, hpassed⟩ := process_passedOnce hmoves (step_processReadyCallbacks ht)
      exact hs.pass hpassed
    | elapse world =>
      cases ht
      exact hs.elapse world

/-- **Passes.** For moves that carry the whole object, in every run no registration is lost,
duplicated or called after it returned true, and each pass that ends calls each callback registered
before it once. A pass ends where its calls of `InvokeIfReady` return. -/
theorem callbackRuns_passedOnce (T : CallbackType κ σ ε) (hmoves : T.moves.Whole)
    (growth : Nat → Nat) {s : Processing κ σ} (h : (callbackRuns T growth).Reach s) :
    Conserved s ∧
      (∀ t, (callbackRuns T growth).step s .processReadyCallbacks = some t →
        ∃ results added, PassedOnce T s t results added) ∧
      (Returning T s.callbacks.elements s.world →
        ∃ t results added, (callbackRuns T growth).step s .processReadyCallbacks = some t ∧
          PassedOnce T s t results added) := by
  refine ⟨conserved_reach hmoves h,
    fun t ht => process_passedOnce hmoves (step_processReadyCallbacks ht), fun hreturning => ?_⟩
  obtain ⟨t, ht⟩ := process_returns growth hmoves hreturning
  obtain ⟨results, added, hpassed⟩ := process_passedOnce hmoves ht
  refine ⟨t, results, added, ?_, hpassed⟩
  simp only [callbackRuns, ht]

end GameServer.Util
