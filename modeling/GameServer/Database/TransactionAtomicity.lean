import GameServer.Database.Execution

/-!
# All or nothing

Whether the statements of a transaction become durable together. `BeginTransaction` drops the
result of `START TRANSACTION`: where that call fails on a connection that stays usable, or is
made usable again, the statements run outside any transaction and each one is durable at once
(`executeTransaction_atomic_iff`).
-/

namespace GameServer.Database

open GameServer.Lib GameServer.Lib.Exec

/-! ## Effects -/

def Call.executes : Call → Bool
  | .query (.text _) => true
  | .execute _ => true
  | _ => false

/-- The calls that open or close a transaction. -/
def Call.controls : Call → Bool
  | .query .startTransaction => true
  | .query .commit => true
  | .query .rollback => true
  | _ => false

def Call.effect (n : Nat) : Call → List Effect
  | .query (.text sql) => [⟨.text sql, n⟩]
  | .execute pStmt => [⟨.prepared (some pStmt), n⟩]
  | _ => []

/-- The effects of calls numbered from `n` on that all succeed. -/
def effectsFrom (n : Nat) : List Call → List Effect
  | [] => []
  | c :: calls => c.effect n ++ effectsFrom (n + 1) calls

/-- The effects of the calls from the `n`-th on. -/
def since (n : Nat) (effects : List Effect) : List Effect := effects.filter fun e => n ≤ e.call

/-- The effects that became durable between two states of a connection. -/
def newEffects (w v : World) : List Effect := since w.log.length v.durable

/-- Of the statements `qs`, all took effect or none. -/
def AllOrNothing (qs : List SqlElementData) (effects : List Effect) : Prop :=
  effects = [] ∨ effects.map Effect.stmt = qs

/-- The effects are numbered with calls that were made. -/
structure World.Stamped (w : World) : Prop where
  durable : ∀ e ∈ w.durable, e.call < w.log.length
  tx : ∀ e ∈ w.tx.getD [], e.call < w.log.length

/-- `START TRANSACTION` fails on a connection that can be used afterwards and has no transaction
open, and a statement fails after another one was executed. -/
def Torn (env : Env) (w : World) (qs : List SqlElementData) : Prop :=
  let n := w.log.length
  let b := env.answer n
  w.mysql.isSome ∧ b ≠ 0 ∧ env.survives w.opens b ∧ (lost b ∨ w.tx = none) ∧
    ∃ j < (callsOf qs).length, FirstFailure env (n + 1) j ∧
      ((callsOf qs).take j).any Call.executes

variable {env : Env} {qs : List SqlElementData} {w v : World} {r : Nat}

/-! ## Numbered effects -/

@[simp] theorem since_append (n : Nat) (a b : List Effect) :
    since n (a ++ b) = since n a ++ since n b := List.filter_append ..

theorem since_old {n : Nat} {effects : List Effect} (h : ∀ e ∈ effects, e.call < n) :
    since n effects = [] := by
  rw [since, List.filter_eq_nil_iff]
  intro e he
  have := h e he
  simp only [decide_eq_true_eq]
  omega

theorem since_new {n : Nat} {effects : List Effect} (h : ∀ e ∈ effects, n ≤ e.call) :
    since n effects = effects := by
  rw [since, List.filter_eq_self]
  exact fun e he => decide_eq_true (h e he)

theorem le_of_mem_effect {n : Nat} {c : Call} {e : Effect} (h : e ∈ c.effect n) : e.call = n := by
  unfold Call.effect at h
  split at h
  · rw [List.mem_singleton.1 h]
  · rw [List.mem_singleton.1 h]
  · cases h

theorem le_of_mem_effectsFrom {n : Nat} {calls : List Call} {e : Effect}
    (h : e ∈ effectsFrom n calls) : n ≤ e.call := by
  induction calls generalizing n with
  | nil => cases h
  | cons c calls ih =>
    rcases List.mem_append.1 h with h | h
    · exact Nat.le_of_eq (le_of_mem_effect h).symm
    · exact Nat.le_of_succ_le (ih h)

theorem effectsFrom_append (n : Nat) (cs ds : List Call) :
    effectsFrom n (cs ++ ds) = effectsFrom n cs ++ effectsFrom (n + cs.length) ds := by
  induction cs generalizing n with
  | nil => rfl
  | cons c cs ih =>
    simp only [List.cons_append, effectsFrom, ih, List.append_assoc, List.length_cons]
    rw [Nat.add_right_comm, Nat.add_assoc n]

/-- Effects come from the calls that execute something. -/
theorem effectsFrom_eq_nil_iff {n : Nat} {calls : List Call} :
    effectsFrom n calls = [] ↔ calls.any Call.executes = false := by
  induction calls generalizing n with
  | nil => exact ⟨fun _ => rfl, fun _ => rfl⟩
  | cons c calls ih =>
    rw [effectsFrom, List.append_eq_nil_iff, ih, List.any_cons, Bool.or_eq_false_iff]
    refine and_congr_left ?_
    intro _
    unfold Call.effect Call.executes
    split <;> simp

/-! ## The effects of a list of statements -/

theorem callsOf_controls {c : Call} (h : c ∈ callsOf qs) : c.controls = false := by
  obtain ⟨q, -, hc⟩ := List.mem_flatMap.1 h
  match q with
  | .text sql => rw [List.mem_singleton.1 hc]; rfl
  | .prepared none => cases hc
  | .prepared (some pStmt) =>
    rcases List.mem_cons.1 hc with rfl | hc
    · rfl
    · rw [List.mem_singleton.1 hc]; rfl

/-- Executed as a whole, the statements are the effects. -/
theorem effectsFrom_callsOf (hqs : ∀ q ∈ qs, q ≠ .prepared none) (n : Nat) :
    (effectsFrom n (callsOf qs)).map Effect.stmt = qs := by
  induction qs generalizing n with
  | nil => rfl
  | cons q qs ih =>
    rw [callsOf_cons, effectsFrom_append, List.map_append,
      ih fun p hp => hqs p (List.mem_cons_of_mem _ hp)]
    match q with
    | .text sql => rfl
    | .prepared none => exact absurd rfl (hqs _ List.mem_cons_self)
    | .prepared (some pStmt) => rfl

/-- Cut short, they have fewer effects than there are statements. -/
theorem length_effectsFrom_take {n j : Nat} (hj : j < (callsOf qs).length) :
    (effectsFrom n ((callsOf qs).take j)).length < qs.length := by
  induction qs generalizing n j with
  | nil => cases hj
  | cons q qs ih =>
    rw [callsOf_cons, List.length_append] at hj
    rw [callsOf_cons, List.take_append, effectsFrom_append, List.length_append, List.length_cons]
    by_cases hq : j < q.calls.length
    · -- the last call of the first statement is missing
      have hnone : effectsFrom n (q.calls.take j) = [] := by
        match q with
        | .text sql => obtain rfl : j = 0 := Nat.lt_one_iff.1 hq; rfl
        | .prepared none => cases hq
        | .prepared (some pStmt) =>
          match j with
          | 0 => rfl
          | 1 => rfl
          | j + 2 => exact absurd hq (by simp [SqlElementData.calls])
      rw [hnone, Nat.sub_eq_zero_of_le (Nat.le_of_lt hq), List.take_zero]
      exact Nat.succ_pos _
    · have hone : (effectsFrom n (q.calls.take j)).length ≤ 1 := by
        rw [List.take_of_length_le (Nat.not_lt.1 hq)]
        match q with
        | .text sql => exact Nat.le_refl _
        | .prepared none => exact Nat.zero_le _
        | .prepared (some pStmt) => exact Nat.le_refl _
      have hrest := ih (n := n + (q.calls.take j).length) (j := j - q.calls.length) (by omega)
      omega

/-! ## Where the effects go -/

/-- Outside a transaction a call that opens or closes none is durable at once. -/
theorem World.answered_autocommit {c : Call} (hc : c.controls = false) (hw : w.tx = none) :
    (w.answered c 0).durable = w.durable ++ c.effect w.log.length ∧ (w.answered c 0).tx = none := by
  match c with
  | .query (.text sql) => simp [answered, serve, record, hw, Call.effect]
  | .query .startTransaction => cases hc
  | .query .commit => cases hc
  | .query .rollback => cases hc
  | .bindParam _ => simp [answered, serve, hw, Call.effect]
  | .execute _ => simp [answered, serve, record, hw, Call.effect]

/-- In a transaction it joins the open effects. -/
theorem World.answered_pending {c : Call} (hc : c.controls = false) {pending : List Effect}
    (hw : w.tx = some pending) : (w.answered c 0).durable = w.durable ∧
      (w.answered c 0).tx = some (pending ++ c.effect w.log.length) := by
  match c with
  | .query (.text sql) => simp [answered, serve, record, hw, Call.effect]
  | .query .startTransaction => cases hc
  | .query .commit => cases hc
  | .query .rollback => cases hc
  | .bindParam _ => simp [answered, serve, hw, Call.effect]
  | .execute _ => simp [answered, serve, record, hw, Call.effect]

theorem World.performed_autocommit {calls : List Call} (hc : ∀ c ∈ calls, c.controls = false)
    (hw : w.tx = none) :
    (w.performed calls).durable = w.durable ++ effectsFrom w.log.length calls ∧
      (w.performed calls).tx = none := by
  induction calls generalizing w with
  | nil => exact ⟨(List.append_nil _).symm, hw⟩
  | cons c calls ih =>
    obtain ⟨hd, ht⟩ := answered_autocommit (hc c List.mem_cons_self) hw
    obtain ⟨hd', ht'⟩ := ih (fun d hd => hc d (List.mem_cons_of_mem _ hd)) ht
    refine ⟨?_, ht'⟩
    rw [performed, hd', hd, answered_log, List.length_append, List.append_assoc]
    rfl

theorem World.performed_pending {calls : List Call} (hc : ∀ c ∈ calls, c.controls = false)
    {pending : List Effect} (hw : w.tx = some pending) :
    (w.performed calls).durable = w.durable ∧
      (w.performed calls).tx = some (pending ++ effectsFrom w.log.length calls) := by
  induction calls generalizing w pending with
  | nil => exact ⟨rfl, by rw [effectsFrom, List.append_nil]; exact hw⟩
  | cons c calls ih =>
    obtain ⟨hd, ht⟩ := answered_pending (hc c List.mem_cons_self) hw
    obtain ⟨hd', ht'⟩ := ih (fun d hd => hc d (List.mem_cons_of_mem _ hd)) ht
    refine ⟨hd'.trans hd, ?_⟩
    rw [performed, ht', answered_log, List.length_append, List.append_assoc]
    rfl

theorem World.answered_failed {c : Call} {e : Nat} (he : e ≠ 0) :
    (w.answered c e).durable = w.durable ∧ (w.answered c e).tx = w.tx := by
  unfold World.answered
  rw [if_neg he]
  exact ⟨rfl, rfl⟩

/-- Whatever `ROLLBACK` gives, nothing more becomes durable. -/
theorem Executed.rollback_durable {done : Bool} (h : Executed env [.query .rollback] w done v) :
    v.durable = w.durable := by
  rcases h.single with ⟨-, -, rfl⟩ | ⟨-, -, hv⟩
  · rfl
  · rw [hv.durable]
    by_cases h0 : env.answer w.log.length = 0
    · rw [h0]; rfl
    · exact (World.answered_failed h0).1

/-- `COMMIT` makes the open effects durable, or nothing. -/
theorem Executed.commit_durable {done : Bool} (h : Executed env [.query .commit] w done v) :
    v.durable = w.durable ++ w.tx.getD [] ∨ v.durable = w.durable := by
  rcases h.single with ⟨-, -, rfl⟩ | ⟨-, -, hv⟩
  · exact .inr rfl
  · rw [hv.durable]
    by_cases h0 : env.answer w.log.length = 0
    · rw [h0]; exact .inl rfl
    · exact .inr (World.answered_failed h0).1

/-- After `START TRANSACTION` everything recorded is old, and no transaction is open exactly if
the call failed and none was open before or the connection was lost. -/
theorem Handled.start {u : World} (hw : w.Stamped)
    (hu : Handled env (w.answered (.query .startTransaction) (env.answer w.log.length)) u) :
    u.log.length = w.log.length + 1 ∧ (∀ e ∈ u.durable, e.call < w.log.length) ∧
      (∀ e ∈ u.tx.getD [], e.call < w.log.length) ∧
      (u.tx = none ↔ env.answer w.log.length ≠ 0 ∧
        (lost (env.answer w.log.length) ∨ w.tx = none)) := by
  refine ⟨by rw [hu.log, World.answered_log, List.length_append]; rfl, ?_⟩
  rw [hu.durable, hu.tx, World.answered_errno]
  by_cases h0 : env.answer w.log.length = 0
  · rw [h0]
    refine ⟨?_, ?_, ?_⟩
    · intro e he
      rcases List.mem_append.1 he with he | he
      · exact hw.durable e he
      · exact hw.tx e he
    · intro e he
      exact absurd he List.not_mem_nil
    · refine iff_of_false nofun ?_
      intro h
      exact h.1 rfl
  · obtain ⟨hd, ht⟩ := World.answered_failed (w := w) (c := .query .startTransaction) h0
    rw [hd, ht]
    refine ⟨hw.durable, ?_, ?_⟩
    · cases lost (env.answer w.log.length) with
      | false => exact hw.tx
      | true => exact fun e he => absurd he List.not_mem_nil
    · cases lost (env.answer w.log.length) with
      | false => simp [h0]
      | true => simp [h0]

/-! ## Exactly when -/

theorem allOrNothing_nil : AllOrNothing qs [] := .inl rfl

/-- Every statement was executed: the closing `COMMIT` makes them durable, or they are already. -/
theorem allOrNothing_commit {u : World} {done : Bool} (hsome : ∀ q ∈ qs, q ≠ .prepared none)
    (hlen : u.log.length = w.log.length + 1) (hold : ∀ e ∈ u.durable, e.call < w.log.length)
    (htx : ∀ e ∈ u.tx.getD [], e.call < w.log.length)
    (hend : Executed env [.query .commit] (u.performed (callsOf qs)) done v) :
    AllOrNothing qs (newEffects w v) := by
  have hplain : ∀ c ∈ callsOf qs, c.controls = false := fun c => callsOf_controls
  have hnew : since w.log.length (effectsFrom u.log.length (callsOf qs)) =
      effectsFrom u.log.length (callsOf qs) :=
    since_new fun e he => by have := le_of_mem_effectsFrom he; omega
  have hall : AllOrNothing qs (effectsFrom u.log.length (callsOf qs)) :=
    .inr (effectsFrom_callsOf hsome _)
  unfold newEffects
  cases ht : u.tx with
  | none =>
    obtain ⟨hd, ht'⟩ := World.performed_autocommit hplain ht
    have hv : v.durable = u.durable ++ effectsFrom u.log.length (callsOf qs) := by
      rcases hend.commit_durable with h | h
      · rw [h, ht', hd]
        exact List.append_nil _
      · rw [h, hd]
    rw [hv, since_append, since_old hold, List.nil_append, hnew]
    exact hall
  | some pending =>
    obtain ⟨hd, ht'⟩ := World.performed_pending hplain ht
    rw [ht, Option.getD_some] at htx
    rcases hend.commit_durable with h | h
    · rw [h, ht', hd, Option.getD_some, since_append, since_append, since_old hold,
        since_old htx, List.nil_append, List.nil_append, hnew]
      exact hall
    · rw [h, hd, since_old hold]
      exact allOrNothing_nil

/-- A statement fails: what was executed before it is durable unless a transaction is open. -/
theorem allOrNothing_rollback {u u' : World} {j e : Nat} {c : Call} {done : Bool}
    (hlen : u.log.length = w.log.length + 1) (hold : ∀ e ∈ u.durable, e.call < w.log.length)
    (hj : j < (callsOf qs).length) (he : e ≠ 0)
    (hu' : Handled env ((u.performed ((callsOf qs).take j)).answered c e) u')
    (hend : Executed env [.query .rollback] u' done v) :
    AllOrNothing qs (newEffects w v) ↔
      ¬(u.tx = none ∧ ((callsOf qs).take j).any Call.executes) := by
  have hplain : ∀ c ∈ (callsOf qs).take j, c.controls = false :=
    fun c hc => callsOf_controls (List.mem_of_mem_take hc)
  have hv : v.durable = (u.performed ((callsOf qs).take j)).durable := by
    rw [hend.rollback_durable, hu'.durable, (World.answered_failed he).1]
  unfold newEffects
  rw [hv]
  cases ht : u.tx with
  | none =>
    rw [(World.performed_autocommit hplain ht).1, since_append, since_old hold, List.nil_append,
      since_new fun e he => by have := le_of_mem_effectsFrom he; omega]
    have hshort := length_effectsFrom_take (n := u.log.length) hj
    have hne : (effectsFrom u.log.length ((callsOf qs).take j)).map Effect.stmt ≠ qs := by
      intro h
      have := congrArg List.length h
      rw [List.length_map] at this
      omega
    rw [AllOrNothing, or_iff_left hne, effectsFrom_eq_nil_iff]
    simp
  | some pending =>
    rw [(World.performed_pending hplain ht).1, since_old hold]
    refine iff_of_true allOrNothing_nil ?_
    intro h
    cases h.1

/-- **All or nothing.** After a run of `ExecuteTransaction` that returns, the statements are
durable together or not at all exactly if the run was not torn. -/
theorem executeTransaction_atomic_iff (hw : w.Stamped)
    (h : executeTransaction env qs w = .ok r v) :
    AllOrNothing qs (newEffects w v) ↔ ¬Torn env w qs := by
  have hdead : v = w → (AllOrNothing qs (newEffects w v) : Prop) := by
    rintro rfl
    rw [newEffects, since_old hw.durable]
    exact allOrNothing_nil
  by_cases hqs : qs = []
  · subst hqs
    simp only [executeTransaction, List.isEmpty_nil, if_true, pure_apply,
      EStateM.Result.ok.injEq] at h
    refine iff_of_true (hdead h.2.symm) ?_
    rintro ⟨_, _, _, _, j, hj, _⟩
    cases hj
  cases executeTransaction_ok hqs h with
  | commit hstart hcalls hlive hsome hend =>
    rcases hstart.single with ⟨hnone, -, rfl⟩ | ⟨-, -, hu⟩
    · rw [hnone] at hlive
      cases hlive
    · obtain ⟨hzero, rfl⟩ := hcalls.of_true
      obtain ⟨hlen, hold, htx, -⟩ := hu.start hw
      rw [hlen] at hzero
      refine iff_of_true (allOrNothing_commit hsome hlen hold htx hend) ?_
      rintro ⟨-, -, -, -, j, hj, hfail, -⟩
      exact hfail.2 (hzero j hj)
  | rollback hstart hcalls hend =>
    rcases hstart.single with ⟨hnone, -, rfl⟩ | ⟨hw', -, hu⟩
    · obtain rfl := hcalls.of_null hnone
      refine iff_of_true (hdead (hend.of_null hnone)) ?_
      intro ht
      rw [Torn, hnone] at ht
      cases ht.1
    · obtain ⟨hlen, hold, -, htx⟩ := hu.start hw
      have halive := hu.alive
      rw [World.answered_opens, World.answered_errno] at halive
      rcases hcalls.of_false with ⟨hnone, rfl⟩ | ⟨hlive, j, c, hj, hfail, hu'⟩
      · obtain rfl := hend.of_null hnone
        rw [newEffects, since_old hold]
        refine iff_of_true allOrNothing_nil ?_
        rintro ⟨_, _, hs, _⟩
        rw [← halive, hnone] at hs
        cases hs
      · obtain ⟨hlt, -⟩ := List.getElem?_eq_some_iff.1 hj
        rw [allOrNothing_rollback hlen hold hlt hfail.2 hu' hend, htx]
        rw [hlen] at hfail
        apply not_congr
        constructor
        · rintro ⟨⟨hb, ho⟩, hany⟩
          exact ⟨hw', hb, halive ▸ hlive, ho, j, hlt, hfail, hany⟩
        · rintro ⟨_, hb, _, ho, i, _, hi, hany⟩
          obtain rfl := hi.unique hfail
          exact ⟨⟨hb, ho⟩, hany⟩

theorem loginConnection_stamped : loginConnection.Stamped :=
  ⟨fun _ he => absurd he List.not_mem_nil, fun _ he => absurd he List.not_mem_nil⟩

theorem executeTransaction_atomic_iff_committed :
    ∃ v, executeTransaction (loginDatabase []) [.text "a", .text "b"] loginConnection = .ok 0 v ∧
      AllOrNothing [.text "a", .text "b"] (newEffects loginConnection v) := by
  refine ⟨_, rfl, (@executeTransaction_atomic_iff (loginDatabase []) _ _ _ _
    loginConnection_stamped rfl).2 ?_⟩
  rintro ⟨-, hb, -⟩
  exact hb rfl

/-- `START TRANSACTION` finds the server gone and the reconnect succeeds; the first statement is
durable although the second one fails. -/
theorem executeTransaction_torn :
    ¬∀ (env : Env) (qs : List SqlElementData) (w v : World) (r : Nat), w.Stamped →
      executeTransaction env qs w = .ok r v → AllOrNothing qs (newEffects w v) := by
  intro h
  have hrun := h (loginDatabase [crServerGoneError, 0, erDupEntry]) [.text "a", .text "b"]
    loginConnection _ 0 loginConnection_stamped rfl
  rcases hrun with hrun | hrun
  · exact absurd hrun (by decide)
  · exact absurd hrun (by decide)

/-! ## The numbering is kept -/

/-- The relation that a program keeps if it keeps the numbering. -/
def KeepsStamped (w v : World) : Prop := w.Stamped → v.Stamped

theorem KeepsStamped.refl (w : World) : KeepsStamped w w := id

theorem KeepsStamped.trans (w v u : World) (h : KeepsStamped w v) (k : KeepsStamped v u) :
    KeepsStamped w u := k ∘ h

theorem KeepsStamped.of_tx_none {w v : World} (hlog : v.log = w.log) (hd : v.durable = w.durable)
    (ht : v.tx = none) : KeepsStamped w v := by
  intro h
  refine ⟨?_, by rw [ht]; exact nofun⟩
  rw [hlog, hd]
  exact h.durable

theorem SameServer.keepsStamped {w v : World} (h : SameServer w v) : KeepsStamped w v := by
  intro hw
  refine ⟨?_, ?_⟩
  · rw [h.log, h.durable]
    exact hw.durable
  · rw [h.log, h.tx]
    exact hw.tx

theorem World.answered_stamped (w : World) (c : Call) (e : Nat) :
    KeepsStamped w (w.answered c e) := by
  intro hw
  have hlen : (w.answered c e).log.length = w.log.length + 1 := by
    rw [answered_log, List.length_append, List.length_singleton]
  have hold : ∀ l : List Effect, (∀ x ∈ l, x.call < w.log.length) →
      ∀ x ∈ l, x.call < w.log.length + 1 := fun l h x hx => Nat.lt_succ_of_lt (h x hx)
  have hd := hold _ hw.durable
  have ht := hold _ hw.tx
  have happend : ∀ l k : List Effect, (∀ x ∈ l, x.call < w.log.length + 1) →
      (∀ x ∈ k, x.call < w.log.length + 1) → ∀ x ∈ l ++ k, x.call < w.log.length + 1 :=
    fun l k hl hk x hx => (List.mem_append.1 hx).elim (hl x) (hk x)
  have hnew : ∀ x ∈ c.effect w.log.length, x.call < w.log.length + 1 := fun x hx => by
    rw [le_of_mem_effect hx]
    exact Nat.lt_succ_self _
  have hnil : ∀ x ∈ ([] : List Effect), x.call < w.log.length + 1 :=
    fun x hx => absurd hx List.not_mem_nil
  by_cases he : e = 0
  · subst he
    cases hc : c.controls with
    | false =>
      cases htx : w.tx with
      | none =>
        obtain ⟨h₁, h₂⟩ := answered_autocommit hc htx
        exact ⟨by rw [h₁, hlen]; exact happend _ _ hd hnew, by rw [h₂, hlen]; exact hnil⟩
      | some pending =>
        obtain ⟨h₁, h₂⟩ := answered_pending hc htx
        rw [htx] at ht
        exact ⟨by rw [h₁, hlen]; exact hd, by rw [h₂, hlen]; exact happend _ _ ht hnew⟩
    | true =>
      refine ⟨?_, ?_⟩
      all_goals rw [hlen]
      all_goals match c with
        | .query .startTransaction => first | exact happend _ _ hd ht | exact hnil
        | .query .commit => first | exact happend _ _ hd ht | exact hnil
        | .query .rollback => first | exact hd | exact hnil
  · obtain ⟨h₁, h₂⟩ := answered_failed (w := w) (c := c) he
    exact ⟨by rw [h₁, hlen]; exact hd, by rw [h₂, hlen]; exact ht⟩

theorem finishReconnect_keepsStamped (env : Env) : Keeps KeepsStamped (finishReconnect env) := by
  refine .bind .trans (fun w => (prepareStatements_keeps env w).keepsStamped) fun ready => ?_
  refine .ite (.bind .trans (.of_modify fun _ h => ⟨h.durable, h.tx⟩) fun _ => ?_) ?_
  · exact .of_pure .refl _
  · exact .of_throw .refl _

theorem openConnection_keepsStamped (env : Env) : Keeps KeepsStamped (openConnection env) := by
  intro w
  rw [openConnection_eq]
  exact .of_tx_none rfl rfl rfl

theorem closeLost_keepsStamped (e : Nat) : Keeps KeepsStamped (closeLost e) :=
  .bind .trans (.of_get .refl) fun _ =>
    .ite (.of_modify fun _ => .of_tx_none rfl rfl rfl) (.of_pure .refl _)

theorem handleMysqlErrcode_keepsStamped (env : Env) (again e : Nat) :
    Keeps KeepsStamped (handleMysqlErrcode env again e) := by
  induction again generalizing e with
  | zero =>
    rw [handleMysqlErrcode.eq_def]
    refine .ite ?_ (.ite (.of_throw .refl _) (.of_pure .refl _))
    refine .bind .trans (closeLost_keepsStamped e) fun _ =>
      .bind .trans (.of_modify fun _ h => ⟨h.durable, h.tx⟩) fun _ => ?_
    exact .bind .trans (openConnection_keepsStamped env) fun _ =>
      .ite (finishReconnect_keepsStamped env) (.of_throw .refl _)
  | succ again ih =>
    rw [handleMysqlErrcode.eq_def]
    refine .ite ?_ (.ite (.of_throw .refl _) (.of_pure .refl _))
    refine .bind .trans (closeLost_keepsStamped e) fun _ =>
      .bind .trans (.of_modify fun _ h => ⟨h.durable, h.tx⟩) fun _ => ?_
    exact .bind .trans (openConnection_keepsStamped env) fun _ =>
      .ite (finishReconnect_keepsStamped env) (.bind .trans (.of_get .refl) fun _ => ih _)

theorem call_keepsStamped (env : Env) (c : Call) : Keeps KeepsStamped (call env c) :=
  fun w => w.answered_stamped c _

theorem onError_keepsStamped {again : Run Bool} (h : Keeps KeepsStamped again) :
    Keeps KeepsStamped (onError env again) :=
  .bind .trans (fun _ => .refl _) fun _ =>
    .bind .trans (handleMysqlErrcode_keepsStamped env _ _) fun _ => .ite h (.of_pure .refl _)

theorem executeSqlBody_keepsStamped {sql : Sql} {again : Run Bool} (h : Keeps KeepsStamped again) :
    Keeps KeepsStamped (executeSqlBody env sql again) :=
  .bind .trans (.of_get .refl) fun _ => .ite (.of_pure .refl _) <|
    .bind .trans (call_keepsStamped env _) fun _ => .ite (onError_keepsStamped h) (.of_pure .refl _)

theorem executeSql_keepsStamped (env : Env) (sql : Sql) : Keeps KeepsStamped (executeSql env sql) :=
  executeSqlBody_keepsStamped (executeSqlBody_keepsStamped (.of_throw .refl _))

theorem executeStmtBody_keepsStamped {pStmt : PreparedStatementBase} {again : Run Bool}
    (h : Keeps KeepsStamped again) : Keeps KeepsStamped (executeStmtBody env pStmt again) := by
  refine .bind .trans (.of_get .refl) fun _ => .ite (.of_pure .refl _) ?_
  refine .bind .trans (.bind .trans (.of_get .refl) fun w => ?_) fun stmt => ?_
  · split
    · exact .of_pure .refl _
    · exact .of_throw .refl _
  refine .bind .trans (.ite (.of_pure .refl _) (.of_throw .refl _)) fun _ => ?_
  refine .bind .trans (call_keepsStamped env _) fun _ => .ite (onError_keepsStamped h) ?_
  exact .bind .trans (call_keepsStamped env _) fun _ =>
    .ite (onError_keepsStamped h) (.of_pure .refl _)

theorem executeQuery_keepsStamped (env : Env) (q : SqlElementData) :
    Keeps KeepsStamped (executeQuery env q) := by
  match q with
  | .text sql => exact executeSql_keepsStamped env _
  | .prepared none => exact .of_throw .refl _
  | .prepared (some pStmt) =>
    exact executeStmtBody_keepsStamped (executeStmtBody_keepsStamped (.of_throw .refl _))

theorem executeQueries_keepsStamped (env : Env) (qs : List SqlElementData) :
    Keeps KeepsStamped (executeQueries env qs) := by
  induction qs with
  | nil => exact .of_pure .refl _
  | cons q qs ih =>
    exact .bind .trans (executeQuery_keepsStamped env q) fun _ => .ite ih (.of_pure .refl _)

/-- The numbering holds initially and every transaction keeps it, so it holds in every run. -/
theorem executeTransaction_keepsStamped (env : Env) (qs : List SqlElementData) :
    Keeps KeepsStamped (executeTransaction env qs) := by
  have hcontrol : ∀ sql, Keeps KeepsStamped (do let _ ← executeSql env sql : Run Unit) :=
    fun sql => .bind .trans (executeSql_keepsStamped env sql) fun _ => .of_pure .refl _
  refine .ite (.of_pure .refl _) ?_
  refine .bind .trans (hcontrol _) fun _ =>
    .bind .trans (executeQueries_keepsStamped env qs) fun _ => ?_
  refine .ite (.bind .trans (hcontrol _) fun _ => .of_pure .refl _) ?_
  exact .bind .trans (hcontrol _) fun _ _ => .refl _

theorem initial_stamped (t : ConnectionType) : (World.initial t).Stamped :=
  ⟨fun _ he => absurd he List.not_mem_nil, fun _ he => absurd he List.not_mem_nil⟩

end GameServer.Database
