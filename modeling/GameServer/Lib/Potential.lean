import Mathlib.Algebra.Order.BigOperators.Group.Finset
import GameServer.Lib.Machine

/-!
# Potentials

A potential is a number that steps of a kind lower. It bounds the runs of such steps
(`Machine.length_add_le`). Where many parties take steps, a potential is a sum of weights, one for
each party (`total`), and a step changes the weight of the party that takes it (`total_update`).
-/

namespace GameServer.Lib

universe u v

namespace Machine

variable {σ : Type u} {α : Type v} {M : Machine σ α}

/-- **Runs are bounded** by a potential that each of their steps lowers. -/
theorem length_add_le {C : σ → α → Prop} {I : σ → Prop} (potential : σ → Nat)
    (hstep : ∀ s a t, I s → C s a → M.step s a = some t → I t ∧ potential t < potential s)
    {as : List α} {s t : σ} (hs : I s) (hC : M.Meets C s as) (h : M.run s as = some t) :
    I t ∧ as.length + potential t ≤ potential s := by
  induction as generalizing s with
  | nil =>
    cases h
    exact ⟨hs, Nat.le_of_eq (Nat.zero_add _)⟩
  | cons a as ih =>
    rw [run_cons] at h
    obtain ⟨u, hu, hrest⟩ := Option.bind_eq_some_iff.1 h
    obtain ⟨hc, hmeets⟩ := hC u hu
    obtain ⟨hI, hlt⟩ := hstep s a u hs hc hu
    obtain ⟨ht, hle⟩ := ih hI hmeets hrest
    rw [List.length_cons]
    exact ⟨ht, by omega⟩

theorem meets_of_forall {P : α → Prop} {as : List α} (h : ∀ a ∈ as, P a) :
    ∀ {s : σ}, M.Meets (fun _ a => P a) s as := by
  induction as with
  | nil => exact trivial
  | cons a as ih =>
    intro s t _
    exact ⟨h a List.mem_cons_self, ih fun b hb => h b (List.mem_cons_of_mem a hb)⟩

end Machine

section Total

variable {β : Type u} {w : β → Nat} {n t : Nat} {f : Nat → β}

/-- The sum of the weights of the parties below `n`. -/
def total (w : β → Nat) (n : Nat) (f : Nat → β) : Nat := ∑ t ∈ Finset.range n, w (f t)

theorem total_update (ht : t < n) (b : β) :
    total w n (Function.update f t b) + w (f t) = total w n f + w b := by
  have hmem : t ∈ Finset.range n := Finset.mem_range.2 ht
  have hrest : ∑ u ∈ (Finset.range n).erase t, w (Function.update f t b u) =
      ∑ u ∈ (Finset.range n).erase t, w (f u) :=
    Finset.sum_congr rfl fun u hu => by rw [Function.update_of_ne (Finset.ne_of_mem_erase hu)]
  rw [total, total, ← Finset.add_sum_erase _ _ hmem, ← Finset.add_sum_erase _ _ hmem, hrest,
    Function.update_self]
  omega

/-- Two parties change. -/
theorem total_update_update {u : Nat} (ht : t < n) (hu : u < n) (htu : t ≠ u) (a b : β) :
    total w n (Function.update (Function.update f u a) t b) + (w (f u) + w (f t)) =
      total w n f + (w a + w b) := by
  have hone := total_update (w := w) (f := f) hu a
  have htwo := total_update (w := w) (f := Function.update f u a) ht b
  rw [Function.update_of_ne htu] at htwo
  omega

/-- A change of all parties at once. -/
theorem total_comp_le {g : β → β} {d : Nat} (h : ∀ b, w (g b) ≤ w b + d) :
    total w n (fun t => g (f t)) ≤ total w n f + n * d := by
  calc total w n (fun t => g (f t))
      ≤ ∑ t ∈ Finset.range n, (w (f t) + d) := Finset.sum_le_sum fun t _ => h (f t)
    _ = total w n f + n * d := by
        rw [Finset.sum_add_distrib, Finset.sum_const_nat fun _ _ => rfl, Finset.card_range, total]

end Total

end GameServer.Lib
