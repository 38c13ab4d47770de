import Mathlib.Data.List.TakeWhile

/-!
# Transducers

A transducer reads symbols one by one and writes some; it may refuse a symbol, and it may stop after
one. `transduce` is a run with what it leaves unread.

* `transduce_append` continues a run, so it does not matter how the symbols are cut into pieces
  (`transducePieces_eq`).
* `transduce_dropWhile` and `transduce_append_of_all` are the loops that stay in one state.
* `transduce_more_iff` says of a transducer that can always stop which runs go on.
-/

namespace GameServer.Lib

universe u v w

/-- What becomes of one symbol. A symbol that is refused is not read. -/
inductive Verdict (σ : Type u) (β : Type w) where
  | next (s : σ) (out : List β)
  | refuse
  | stop (s : σ)

/-- What becomes of a run: the state it ends in, what it wrote and what it did not read. -/
inductive Outcome (σ : Type u) (α : Type v) (β : Type w) where
  | more (s : σ) (out : List β)
  | refused (s : σ) (out : List β) (rest : List α)
  | stopped (s : σ) (out : List β) (rest : List α)

namespace Outcome

variable {σ : Type u} {α : Type v} {β : Type w}

/-- With what was written before. -/
def after (written : List β) : Outcome σ α β → Outcome σ α β
  | more s out => more s (written ++ out)
  | refused s out rest => refused s (written ++ out) rest
  | stopped s out rest => stopped s (written ++ out) rest

/-- With what was not given to it. -/
def before (later : List α) : Outcome σ α β → Outcome σ α β
  | more s out => more s out
  | refused s out rest => refused s out (rest ++ later)
  | stopped s out rest => stopped s out (rest ++ later)

@[simp] theorem after_nil (o : Outcome σ α β) : o.after [] = o := by
  cases o <;> rfl

@[simp] theorem after_after (x y : List β) (o : Outcome σ α β) :
    (o.after y).after x = o.after (x ++ y) := by
  cases o <;> simp [after]

theorem after_eq_stopped {written out : List β} {o : Outcome σ α β} {s : σ} {rest : List α}
    (h : o.after written = stopped s out rest) :
    ∃ out', o = stopped s out' rest ∧ out = written ++ out' := by
  cases o with
  | more => cases h
  | refused => cases h
  | stopped s' out' rest' =>
    cases h
    exact ⟨out', rfl, rfl⟩

end Outcome

open Outcome

section

variable {σ : Type u} {α : Type v} {β : Type w} (step : σ → α → Verdict σ β)

def transduce : σ → List α → Outcome σ α β
  | s, [] => .more s []
  | s, a :: as =>
    match step s a with
    | .next t out => (transduce t as).after out
    | .refuse => .refused s [] (a :: as)
    | .stop t => .stopped t [] as

/-- The pieces one by one, as long as the transducer goes on. -/
def transducePieces : σ → List (List α) → Outcome σ α β
  | s, [] => .more s []
  | s, piece :: cuts =>
    match transduce step s piece with
    | .more t out => (transducePieces t cuts).after out
    | o => o.before cuts.flatten

variable {step} {s t : σ}

@[simp] theorem transduce_nil (s : σ) : transduce step s [] = .more s [] := rfl

theorem transduce_next {a : α} {out : List β} (h : step s a = .next t out) (as : List α) :
    transduce step s (a :: as) = (transduce step t as).after out := by
  rw [transduce, h]

theorem transduce_refuse {a : α} (h : step s a = .refuse) (as : List α) :
    transduce step s (a :: as) = .refused s [] (a :: as) := by
  rw [transduce, h]

theorem transduce_stop {a : α} (h : step s a = .stop t) (as : List α) :
    transduce step s (a :: as) = .stopped t [] as := by
  rw [transduce, h]

/-- A run goes on with the symbols that follow, unless it has ended. -/
theorem transduce_append (s : σ) (as bs : List α) :
    transduce step s (as ++ bs) =
      match transduce step s as with
      | .more t out => (transduce step t bs).after out
      | o => o.before bs := by
  induction as generalizing s with
  | nil => exact (after_nil _).symm
  | cons a as ih =>
    rw [List.cons_append, transduce, transduce]
    cases step s a with
    | next t out =>
      dsimp only
      rw [ih]
      cases transduce step t as with
      | more u out' => exact after_after out out' _
      | refused u out' rest => rfl
      | stopped u out' rest => rfl
    | refuse => rfl
    | stop t => rfl

theorem transduce_append_of_more {as : List α} {out : List β}
    (h : transduce step s as = .more t out) (bs : List α) :
    transduce step s (as ++ bs) = (transduce step t bs).after out := by
  rw [transduce_append, h]

theorem transduce_append_of_refused {as rest : List α} {out : List β}
    (h : transduce step s as = .refused t out rest) (bs : List α) :
    transduce step s (as ++ bs) = .refused t out (rest ++ bs) := by
  rw [transduce_append, h]
  rfl

/-- **Pieces make no difference.** -/
theorem transducePieces_eq (s : σ) (cuts : List (List α)) :
    transducePieces step s cuts = transduce step s cuts.flatten := by
  induction cuts generalizing s with
  | nil => rfl
  | cons piece cuts ih =>
    rw [transducePieces, List.flatten_cons, transduce_append]
    cases transduce step s piece with
    | more t out => exact congrArg (after out) (ih t)
    | refused t out rest => rfl
    | stopped t out rest => rfl

/-! ## Loops -/

/-- The symbols that leave the state as it is are read. -/
theorem transduce_append_of_all {as : List α} (h : ∀ a ∈ as, step s a = .next s [])
    (bs : List α) : transduce step s (as ++ bs) = transduce step s bs := by
  induction as with
  | nil => rfl
  | cons a as ih =>
    rw [List.cons_append, transduce_next (h a List.mem_cons_self), after_nil]
    exact ih fun b hb => h b (List.mem_cons_of_mem a hb)

theorem transduce_dropWhile {p : α → Bool} (h : ∀ a, p a = true → step s a = .next s [])
    (as : List α) : transduce step s as = transduce step s (as.dropWhile p) := by
  have hloop : transduce step s (as.takeWhile p ++ as.dropWhile p) =
      transduce step s (as.dropWhile p) :=
    transduce_append_of_all (fun a ha => h a (List.mem_takeWhile_imp ha)) _
  rwa [List.takeWhile_append_dropWhile] at hloop

/-- A run that stops leaves a loop. -/
theorem exists_of_stopped_loop {p : α → Bool} (hloop : ∀ a, p a = true → step s a = .next s [])
    {as rest : List α} {out : List β} (h : transduce step s as = .stopped t out rest) :
    ∃ passed a more, as = passed ++ a :: more ∧ (∀ x ∈ passed, p x = true) ∧ p a = false ∧
      transduce step s (a :: more) = .stopped t out rest := by
  rw [transduce_dropWhile hloop] at h
  have hsplit := List.takeWhile_append_dropWhile (p := p) (l := as)
  cases hdrop : as.dropWhile p with
  | nil =>
    rw [hdrop] at h
    cases h
  | cons a more =>
    rw [hdrop] at h hsplit
    have hhead := List.head?_dropWhile_not p as
    rw [hdrop] at hhead
    exact ⟨as.takeWhile p, a, more, hsplit.symm, fun x hx => List.mem_takeWhile_imp hx, hhead, h⟩

/-! ## Runs that go on -/

/-- What the states of a run have in common. -/
theorem transduce_more {I : σ → Prop}
    (hstep : ∀ s a t out, I s → step s a = .next t out → I t) {as : List α} {out : List β}
    (hs : I s) (h : transduce step s as = .more t out) : I t := by
  induction as generalizing s out with
  | nil =>
    cases h
    exact hs
  | cons a as ih =>
    rw [transduce] at h
    split at h
    · next u out' hu =>
      cases hrest : transduce step u as with
      | more v out'' =>
        rw [hrest] at h
        cases h
        exact ih (hstep s a _ _ hs hu) hrest
      | refused => rw [hrest] at h; cases h
      | stopped => rw [hrest] at h; cases h
    · cases h
    · cases h

/-- **What goes on can be ended.** If the transducer can stop in every state, a run that neither
stopped nor was refused is one that stops after more symbols. -/
theorem transduce_more_iff {I : σ → Prop}
    (hstep : ∀ s a t out, I s → step s a = .next t out → I t)
    (hstop : ∀ s, I s → ∃ as t out, transduce step s as = .stopped t out [])
    (hs : I s) (as : List α) :
    (∃ t out, transduce step s as = .more t out) ↔
      (¬∃ t out rest, transduce step s as = .stopped t out rest) ∧
        ∃ bs t out rest, transduce step s (as ++ bs) = .stopped t out rest := by
  constructor
  · rintro ⟨t, out, h⟩
    refine ⟨fun ⟨t', out', rest, h'⟩ => ?_, ?_⟩
    · rw [h] at h'
      cases h'
    · obtain ⟨bs, u, out', hu⟩ := hstop t (transduce_more hstep hs h)
      exact ⟨bs, u, _, _, (transduce_append_of_more h bs).trans (congrArg (after out) hu)⟩
  · rintro ⟨hnot, bs, u, out', rest, hu⟩
    cases h : transduce step s as with
    | more t out => exact ⟨t, out, rfl⟩
    | refused t out rest' =>
      rw [transduce_append_of_refused h] at hu
      cases hu
    | stopped t out rest' => exact absurd ⟨t, out, rest', h⟩ hnot

end

end GameServer.Lib
