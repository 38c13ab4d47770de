import GameServer.Lib.Machine

/-!
# Families of machines

Any number of copies of one machine, started one after the other. A label is for one member, for
all members there are, or starts another one. The members do not see each other: a run of the
family is, for each member, a run of the machine over the labels that concern it (`family_run`).
-/

namespace GameServer.Lib

universe u v

/-- What can happen to a family. -/
inductive FamilyLabel (α : Type v) where
  | spawn
  | one (i : Nat) (a : α)
  | all (a : α)

namespace Machine

variable {σ : Type u} {α : Type v} (M : Machine σ α)

/-- Every member takes the step, or none does. -/
def stepAll (a : α) : List σ → Option (List σ)
  | [] => some []
  | s :: ss => (M.step s a).bind fun t => (stepAll a ss).map (t :: ·)

def stepOne (i : Nat) (a : α) (ss : List σ) : Option (List σ) :=
  (ss[i]?.bind fun s => M.step s a).map (ss.set i ·)

/-- The family of `M`, whose members start in `start`. -/
def family (start : σ) : Machine (List σ) (FamilyLabel α) where
  init ss := ss = []
  step ss
    | .spawn => some (ss ++ [start])
    | .one i a => M.stepOne i a ss
    | .all a => M.stepAll a ss

/-- The labels that concern member `i`, when there are `count` members to begin with. -/
def ownLabels (i : Nat) : Nat → List (FamilyLabel α) → List α
  | _, [] => []
  | count, .spawn :: ls => ownLabels i (count + 1) ls
  | count, .one j a :: ls => if j = i then a :: ownLabels i count ls else ownLabels i count ls
  | count, .all a :: ls => if i < count then a :: ownLabels i count ls else ownLabels i count ls

variable {M} {start : σ} {i : Nat} {a : α} {ss ts : List σ}

theorem stepAll_spec (h : M.stepAll a ss = some ts) : ts.length = ss.length ∧
    ∀ {i : Nat} {t : σ}, ts[i]? = some t → ∃ s, ss[i]? = some s ∧ M.step s a = some t := by
  induction ss generalizing ts with
  | nil =>
    cases h
    exact ⟨rfl, fun ht => by cases ht⟩
  | cons s ss ih =>
    obtain ⟨u, hu, hrest⟩ := Option.bind_eq_some_iff.1 h
    obtain ⟨us, hus, rfl⟩ := Option.map_eq_some_iff.1 hrest
    obtain ⟨hlen, hmem⟩ := ih hus
    refine ⟨congrArg (· + 1) hlen, ?_⟩
    intro i t ht
    cases i with
    | zero =>
      cases ht
      exact ⟨s, rfl, hu⟩
    | succ i => exact hmem ht

/-- A step that each member can take. -/
theorem stepAll_eq_map {f : σ → σ} (h : ∀ s, M.step s a = some (f s)) :
    ∀ ss, M.stepAll a ss = some (ss.map f)
  | [] => rfl
  | s :: ss => by
    rw [stepAll, h, stepAll_eq_map h ss]
    rfl

theorem stepOne_spec (h : M.stepOne i a ss = some ts) : ts.length = ss.length ∧
    ∃ s t, ss[i]? = some s ∧ M.step s a = some t ∧ ts = ss.set i t := by
  obtain ⟨t, ht, rfl⟩ := Option.map_eq_some_iff.1 h
  obtain ⟨s, hs, hstep⟩ := Option.bind_eq_some_iff.1 ht
  exact ⟨List.length_set, s, t, hs, hstep, rfl⟩

/-- **Members are independent.** A member that is there at the end has run over its own labels, from
where it was at the beginning or from the start. -/
theorem family_run {ls : List (FamilyLabel α)} (h : (M.family start).run ss ls = some ts) {t : σ}
    (ht : ts[i]? = some t) : M.run (ss[i]?.getD start) (ownLabels i ss.length ls) = some t := by
  induction ls generalizing ss with
  | nil =>
    cases h
    rw [ht]
    rfl
  | cons l ls ih =>
    rw [run_cons] at h
    obtain ⟨us, hus, hrest⟩ := Option.bind_eq_some_iff.1 h
    have hrun := ih hrest
    cases l with
    | spawn =>
      obtain rfl : ss ++ [start] = us := Option.some.inj hus
      rw [List.length_append, List.length_singleton] at hrun
      have hsame : (ss ++ [start])[i]?.getD start = ss[i]?.getD start := by
        rcases Nat.lt_trichotomy i ss.length with hlt | rfl | hgt
        · rw [List.getElem?_append_left hlt]
        · rw [List.getElem?_append_right (Nat.le_refl _), Nat.sub_self,
            List.getElem?_eq_none (Nat.le_refl _)]
          rfl
        · rw [List.getElem?_eq_none (by rw [List.length_append, List.length_singleton]; omega),
            List.getElem?_eq_none (Nat.le_of_lt hgt)]
      rwa [hsame] at hrun
    | one j a =>
      obtain ⟨hlen, s, u, hs, hu, rfl⟩ := stepOne_spec hus
      rw [hlen] at hrun
      rw [ownLabels]
      by_cases hj : j = i
      · subst hj
        obtain ⟨hlt, -⟩ := List.getElem?_eq_some_iff.1 hs
        rw [List.getElem?_set_self hlt] at hrun
        rw [if_pos rfl, hs, run_cons, Option.getD_some, hu]
        exact hrun
      · rw [List.getElem?_set_ne hj] at hrun
        rwa [if_neg hj]
    | all a =>
      obtain ⟨hlen, hmem⟩ := stepAll_spec hus
      rw [hlen] at hrun
      rw [ownLabels]
      by_cases hlt : i < ss.length
      · have hu : us[i]? = some us[i] := List.getElem?_eq_getElem (hlen ▸ hlt)
        obtain ⟨s, hs, hstep⟩ := hmem hu
        rw [hu] at hrun
        rw [if_pos hlt, hs, run_cons, Option.getD_some, hstep]
        exact hrun
      · rw [if_neg hlt]
        rw [List.getElem?_eq_none (by omega)] at hrun ⊢
        exact hrun

end Machine

end GameServer.Lib
