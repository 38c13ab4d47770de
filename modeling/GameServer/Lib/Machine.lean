import Mathlib.Data.List.Basic

/-!
# Machines: partial steps, runs and guarded reachability

A machine is a set of initial states with a partial step function whose labels carry every
choice (which thread moves, how many bytes a write takes). `Machine.run` executes a list of
labels, `Machine.ReachVia C` collects the states reached by steps that each meet a guard `C`
in the state they start from; `Machine.Reach` drops the guard.

* `ReachVia.invariant` is the induction rule: an invariant that holds initially and survives
  every guarded step holds in every state so reached.
* `Along P` says that a run passes through states with `P` only, `Meets C` that each of its
  steps meets `C`. `along_of_meets` turns a step lemma into a statement about whole runs and
  `along_iff_meets` adds the converse where a step off the guard breaks `P` at once.
* `gained g` adds up what `g` assigns to the steps of a run; `run_gained_of_meets` is the accounting
  rule for a weight that each step raises by `g`, and `gained_eq_zero_iff` reads a zero sum as a
  guard.
* `restrict C` is the machine whose labels are enabled only where `C` allows them.
* `refines_of_run` is the rule for an abstract function that each step follows, `run_labels` the one
  for another machine that each step runs.
* `Permits C` asks of a run only that its labels are used as `C` allows; `exists_run_of_simulates`
  is the rule for a machine that executes every such run in step with an abstract one.
-/

namespace GameServer.Lib

universe u v

/-- Initial states and a partial labelled step. -/
structure Machine (σ : Type u) (α : Type v) where
  init : σ → Prop
  step : σ → α → Option σ

namespace Machine

variable {σ : Type u} {α : Type v} (M : Machine σ α)

/-- Executes the labels in order; `none` when one of them is not enabled. -/
def run : σ → List α → Option σ
  | s, [] => some s
  | s, a :: as => (M.step s a).bind fun t => run t as

@[simp] theorem run_nil (s : σ) : M.run s [] = some s := rfl

theorem run_cons (s : σ) (a : α) (as : List α) :
    M.run s (a :: as) = (M.step s a).bind fun t => M.run t as := rfl

theorem run_append (s : σ) (as bs : List α) :
    M.run s (as ++ bs) = (M.run s as).bind fun t => M.run t bs := by
  induction as generalizing s with
  | nil => rfl
  | cons a as ih =>
    rw [List.cons_append, run_cons, run_cons, Option.bind_assoc]
    exact congrArg _ (funext ih)

/-- The states reached by steps that meet `C` in the state before them. -/
inductive ReachVia (C : σ → α → Prop) : σ → Prop
  | init {s : σ} (h : M.init s) : ReachVia C s
  | step {s t : σ} {a : α} (h : ReachVia C s) (hc : C s a) (hs : M.step s a = some t) :
      ReachVia C t

abbrev Reach : σ → Prop := M.ReachVia fun _ _ => True

variable {M}

namespace ReachVia

variable {C : σ → α → Prop}

/-- **The invariant rule.** -/
theorem invariant {I : σ → Prop} (h0 : ∀ s, M.init s → I s)
    (hstep : ∀ s a t, I s → C s a → M.step s a = some t → I t) {s : σ}
    (h : M.ReachVia C s) : I s := by
  induction h with
  | init h => exact h0 _ h
  | step _ hc hs ih => exact hstep _ _ _ ih hc hs

end ReachVia

/-- An invariant of every step is kept by a run. -/
theorem keeps_of_run {I : σ → Prop} (hstep : ∀ s a t, I s → M.step s a = some t → I t)
    {as : List α} {s t : σ} (hs : I s) (h : M.run s as = some t) : I t := by
  induction as generalizing s with
  | nil => exact Option.some.inj h ▸ hs
  | cons a as ih =>
    rw [run_cons] at h
    obtain ⟨u, hu, hrest⟩ := Option.bind_eq_some_iff.1 h
    exact ih (hstep s a u hs hu) hrest

theorem Reach.run {s t : σ} (hs : M.Reach s) {as : List α} (h : M.run s as = some t) :
    M.Reach t :=
  keeps_of_run (fun _ _ _ hu ht => .step hu trivial ht) hs h

theorem reach_of_run {s t : σ} {as : List α} (h0 : M.init s) (h : M.run s as = some t) :
    M.Reach t :=
  Reach.run (.init h0) h

variable (M)

/-- Each step of the run from `s` meets `C` in the state before it. -/
def Meets (C : σ → α → Prop) : σ → List α → Prop
  | _, [] => True
  | s, a :: as => ∀ t, M.step s a = some t → C s a ∧ Meets C t as

/-- Each state the run from `s` passes through has `P`. -/
def Along (P : σ → Prop) : σ → List α → Prop
  | s, [] => P s
  | s, a :: as => P s ∧ ∀ t, M.step s a = some t → Along P t as

variable {M}

theorem Meets.mono {C D : σ → α → Prop} (hCD : ∀ s a, C s a → D s a) :
    ∀ {as : List α} {s : σ}, M.Meets C s as → M.Meets D s as
  | [], _, _ => trivial
  | _ :: _, s, h => fun t ht => ⟨hCD s _ (h t ht).1, (h t ht).2.mono hCD⟩

theorem Along.head {P : σ → Prop} {s : σ} {as : List α} (h : M.Along P s as) : P s := by
  cases as with
  | nil => exact h
  | cons a as => exact h.1

/-- An invariant that survives guarded steps and entails `P` gives `P` along guarded runs. -/
theorem along_of_meets {C : σ → α → Prop} {I P : σ → Prop} (hIP : ∀ s, I s → P s)
    (hstep : ∀ s a t, I s → C s a → M.step s a = some t → I t) :
    ∀ {as : List α} {s : σ}, I s → M.Meets C s as → M.Along P s as
  | [], s, hs, _ => hIP s hs
  | _ :: _, s, hs, h =>
    ⟨hIP s hs, fun t ht => along_of_meets hIP hstep (hstep s _ t hs (h t ht).1 ht) (h t ht).2⟩

/-- An invariant of every step gives `P` along every run. -/
theorem along_of_invariant {I P : σ → Prop} (hIP : ∀ s, I s → P s)
    (hstep : ∀ s a t, I s → M.step s a = some t → I t) :
    ∀ {as : List α} {s : σ}, I s → M.Along P s as
  | [], s, hs => hIP s hs
  | _ :: _, s, hs => ⟨hIP s hs, fun t ht => along_of_invariant hIP hstep (hstep s _ t hs ht)⟩

/-- **The exact guard.** If moreover a step off the guard ends in a state without `P`, a run
passes through states with `P` only exactly when all its steps meet the guard. -/
theorem along_iff_meets {C : σ → α → Prop} {I P : σ → Prop} (hIP : ∀ s, I s → P s)
    (hstep : ∀ s a t, I s → C s a → M.step s a = some t → I t)
    (hbad : ∀ s a t, I s → ¬C s a → M.step s a = some t → ¬P t) :
    ∀ {as : List α} {s : σ}, I s → (M.Along P s as ↔ M.Meets C s as)
  | [], s, hs => ⟨fun _ => trivial, fun _ => hIP s hs⟩
  | a :: as, s, hs => by
    constructor
    · intro h t ht
      have hnext : M.Along P t as := h.2 t ht
      have hc : C s a := by
        by_contra hc
        exact hbad s a t hs hc ht hnext.head
      exact ⟨hc, (along_iff_meets hIP hstep hbad (hstep s a t hs hc ht)).1 hnext⟩
    · exact along_of_meets hIP hstep hs

/-! ## Accounting -/

variable (M)

/-- The sum of `g` over the steps of the run from `s`. -/
def gained (g : σ → α → Nat) : σ → List α → Nat
  | _, [] => 0
  | s, a :: as =>
    match M.step s a with
    | none => 0
    | some t => g s a + gained g t as

variable {M}

/-- **The accounting rule.** A weight that each guarded step raises by `g` is raised by a run of
such steps by the sum of `g` over them. -/
theorem run_gained_of_meets {C : σ → α → Prop} {I : σ → Prop} {w : σ → Nat} {g : σ → α → Nat}
    (hI : ∀ s a t, I s → C s a → M.step s a = some t → I t)
    (hw : ∀ s a t, I s → C s a → M.step s a = some t → w t = w s + g s a) {as : List α}
    {s t : σ} (hs : I s) (hC : M.Meets C s as) (h : M.run s as = some t) :
    I t ∧ w t = w s + M.gained g s as := by
  induction as generalizing s with
  | nil =>
    cases h
    exact ⟨hs, rfl⟩
  | cons a as ih =>
    rw [run_cons] at h
    obtain ⟨u, hu, hrest⟩ := Option.bind_eq_some_iff.1 h
    obtain ⟨hc, hmeets⟩ := hC u hu
    obtain ⟨ht, hsum⟩ := ih (hI s a u hs hc hu) hmeets hrest
    refine ⟨ht, ?_⟩
    rw [hsum, hw s a u hs hc hu, gained, hu, Nat.add_assoc]

theorem meets_true : ∀ (as : List α) (s : σ), M.Meets (fun _ _ => True) s as
  | [], _ => trivial
  | _ :: as, _ => fun t _ => ⟨trivial, meets_true as t⟩

/-- The accounting rule without a guard. -/
theorem run_gained {I : σ → Prop} {w : σ → Nat} {g : σ → α → Nat}
    (hI : ∀ s a t, I s → M.step s a = some t → I t)
    (hw : ∀ s a t, I s → M.step s a = some t → w t = w s + g s a) {as : List α} {s t : σ}
    (hs : I s) (h : M.run s as = some t) : I t ∧ w t = w s + M.gained g s as :=
  run_gained_of_meets (fun s a t hs _ ht => hI s a t hs ht) (fun s a t hs _ ht => hw s a t hs ht)
    hs (meets_true as s) h

theorem gained_eq_zero_iff {g : σ → α → Nat} {as : List α} {s t : σ}
    (h : M.run s as = some t) : M.gained g s as = 0 ↔ M.Meets (fun s a => g s a = 0) s as := by
  induction as generalizing s with
  | nil => exact iff_of_true rfl trivial
  | cons a as ih =>
    rw [run_cons] at h
    obtain ⟨u, hu, hrest⟩ := Option.bind_eq_some_iff.1 h
    rw [gained, hu, Nat.add_eq_zero_iff, ih hrest]
    constructor
    · rintro ⟨hg, hmeets⟩ v hv
      rw [hu] at hv
      cases hv
      exact ⟨hg, hmeets⟩
    · intro hmeets
      exact hmeets u hu

/-! ## Restricted labels -/

variable (M)

/-- The machine whose labels are enabled only in states where `C` allows them. -/
def restrict (C : σ → α → Prop) [∀ s a, Decidable (C s a)] : Machine σ α where
  init := M.init
  step s a := if C s a then M.step s a else none

variable {M}

@[simp] theorem restrict_step_eq_some {C : σ → α → Prop} [∀ s a, Decidable (C s a)] {s t : σ}
    {a : α} : (M.restrict C).step s a = some t ↔ C s a ∧ M.step s a = some t :=
  Option.ite_none_right_eq_some

/-! ## Simulation -/

variable (M)

/-- Each label is allowed by `C` in the state it is executed in. -/
def Permits (C : σ → α → Prop) : σ → List α → Prop
  | _, [] => True
  | s, a :: as => C s a ∧ ∀ t, M.step s a = some t → Permits C t as

instance decidablePermits (C : σ → α → Prop) [∀ s a, Decidable (C s a)] :
    ∀ (s : σ) (as : List α), Decidable (M.Permits C s as)
  | _, [] => inferInstanceAs (Decidable True)
  | s, a :: as =>
    match h : M.step s a with
    | none => decidable_of_iff (C s a) (by simp [Permits, h])
    | some t =>
      let _ := decidablePermits C t as
      decidable_of_iff (C s a ∧ M.Permits C t as) (by simp [Permits, h])

variable {M}

theorem Permits.meets {C : σ → α → Prop} :
    ∀ {as : List α} {s : σ}, M.Permits C s as → M.Meets C s as
  | [], _, _ => trivial
  | _ :: _, _, h => fun t ht => ⟨h.1, (h.2 t ht).meets⟩

/-- **Refinement.** Where each step that meets `C` does to the abstract state what `f` does, so does
a run of such steps. -/
theorem refines_of_run {τ : Type*} {C : σ → α → Prop} {R : σ → τ → Prop} {f : τ → α → τ}
    (hstep : ∀ s q a t, R s q → C s a → M.step s a = some t → R t (f q a)) {as : List α}
    {s t : σ} {q : τ} (hs : R s q) (hC : M.Meets C s as) (h : M.run s as = some t) :
    R t (as.foldl f q) := by
  induction as generalizing s q with
  | nil =>
    cases h
    exact hs
  | cons a as ih =>
    rw [run_cons] at h
    obtain ⟨u, hu, hrest⟩ := Option.bind_eq_some_iff.1 h
    obtain ⟨hc, hmeets⟩ := hC u hu
    exact ih (hstep s q a u hs hc hu) hmeets hrest

variable (M) in
/-- What the steps of a run stand for in another machine. -/
def labels {β : Type*} (g : σ → α → σ → List β) : σ → List α → List β
  | _, [] => []
  | s, a :: as =>
    match M.step s a with
    | none => []
    | some t => g s a t ++ labels g t as

theorem labels_cons {β : Type*} {g : σ → α → σ → List β} {s t : σ} {a : α} {as : List α}
    (h : M.step s a = some t) : M.labels g s (a :: as) = g s a t ++ M.labels g t as := by
  rw [labels, h]

/-- **Projection.** Where each step stands for a run of another machine, so does a run. -/
theorem run_labels {τ β : Type*} {N : Machine τ β} {I : σ → Prop} {F : σ → τ}
    {g : σ → α → σ → List β} (hstep : ∀ s a t, I s → M.step s a = some t →
      I t ∧ N.run (F s) (g s a t) = some (F t)) {as : List α} {s t : σ} (hs : I s)
    (h : M.run s as = some t) : N.run (F s) (M.labels g s as) = some (F t) := by
  induction as generalizing s with
  | nil =>
    cases h
    rfl
  | cons a as ih =>
    rw [run_cons] at h
    obtain ⟨u, hu, hrest⟩ := Option.bind_eq_some_iff.1 h
    obtain ⟨hI, hrun⟩ := hstep s a u hs hu
    rw [labels_cons hu, run_append, hrun]
    exact ih hI hrest

/-- **Simulation.** Where every label that `C` allows is executed and keeps the relation to the
abstract state, every permitted run is executed in step with the abstract one. -/
theorem exists_run_of_simulates {τ : Type*} {C : σ → α → Prop} {R : σ → τ → Prop}
    {f : τ → α → τ} (hstep : ∀ s q a, R s q → C s a → ∃ t, M.step s a = some t ∧ R t (f q a))
    {as : List α} {s : σ} {q : τ} (hs : R s q) (h : M.Permits C s as) :
    ∃ t, M.run s as = some t ∧ R t (as.foldl f q) := by
  induction as generalizing s q with
  | nil => exact ⟨s, rfl, hs⟩
  | cons a as ih =>
    obtain ⟨hc, hrest⟩ := h
    obtain ⟨t, ht, hR⟩ := hstep s q a hs hc
    obtain ⟨u, hu, hRu⟩ := ih hR (hrest t ht)
    refine ⟨u, ?_, hRu⟩
    rw [run_cons, ht]
    exact hu

end Machine

end GameServer.Lib
