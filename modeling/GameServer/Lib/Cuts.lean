import Mathlib.Data.List.Sort

/-!
# Pieces of a stream

A stream is written as a list of items, each with a text, or cut into pieces, each its own text.
`placed` gives every item the position of its first symbol, `pieceEnds` lists the positions at
which the pieces of a cut end. An item and a piece of one stream that start at the same place read
the same symbols (`append_eq_of_placed`).
-/

namespace GameServer.Lib

universe u v

variable {α : Type u} {β : Type v} {text : β → List α}

/-- Each item with its position, the first at `start`. -/
def placed (text : β → List α) : (start : Nat) → List β → List (Nat × β)
  | _, [] => []
  | start, x :: xs => (start, x) :: placed text (start + (text x).length) xs

theorem map_snd_placed (start : Nat) (xs : List β) : (placed text start xs).map Prod.snd = xs := by
  induction xs generalizing start with
  | nil => rfl
  | cons x xs ih => rw [placed, List.map_cons, ih]

theorem le_of_mem_placed {start : Nat} {xs : List β} {entry : Nat × β}
    (h : entry ∈ placed text start xs) : start ≤ entry.1 := by
  induction xs generalizing start with
  | nil => cases h
  | cons x xs ih =>
    rcases List.mem_cons.1 h with rfl | h
    · exact Nat.le_refl _
    · exact Nat.le_trans (Nat.le_add_right _ _) (ih h)

/-- Items with a text of their own have increasing positions. -/
theorem pairwise_placed {xs : List β} (hne : ∀ x ∈ xs, text x ≠ []) (start : Nat) :
    (placed text start xs).Pairwise fun x y => x.1 < y.1 := by
  induction xs generalizing start with
  | nil => exact .nil
  | cons x xs ih =>
    refine .cons (fun y hy => ?_) (ih (fun y hy => hne y (List.mem_cons_of_mem _ hy)) _)
    have hpos := List.length_pos_of_ne_nil (hne x List.mem_cons_self)
    exact Nat.lt_of_lt_of_le (Nat.lt_add_of_pos_right hpos) (le_of_mem_placed hy)

theorem drop_of_mem_placed {start : Nat} {xs : List β} {entry : Nat × β}
    (h : entry ∈ placed text start xs) :
    ∃ rest, (xs.flatMap text).drop (entry.1 - start) = text entry.2 ++ rest := by
  induction xs generalizing start with
  | nil => cases h
  | cons x xs ih =>
    rcases List.mem_cons.1 h with rfl | h
    · exact ⟨xs.flatMap text, by rw [Nat.sub_self, List.drop_zero, List.flatMap_cons]⟩
    · obtain ⟨rest, hrest⟩ := ih h
      have hsub : entry.1 - start = (text x).length + (entry.1 - (start + (text x).length)) := by
        have := le_of_mem_placed h
        omega
      exact ⟨rest, by rw [hsub, List.flatMap_cons, List.drop_length_add_append, hrest]⟩

/-- **One stream, cut and written.** A piece and an item at the same place continue alike. -/
theorem append_eq_of_placed {start : Nat} {cuts : List (List α)} {xs : List β}
    (hstream : cuts.flatten = xs.flatMap text) {place : Nat} {piece : List α} {x : β}
    (hpiece : (place, piece) ∈ placed id start cuts) (hx : (place, x) ∈ placed text start xs) :
    ∃ rest rest', piece ++ rest = text x ++ rest' := by
  obtain ⟨rest, hrest⟩ := drop_of_mem_placed hpiece
  obtain ⟨rest', hrest'⟩ := drop_of_mem_placed hx
  rw [List.flatMap_id, hstream] at hrest
  exact ⟨rest, rest', hrest.symm.trans hrest'⟩

/-- Lists of increasing positions with the same entries are the same. -/
theorem eq_of_placed_mem_iff {entries entries' : List (Nat × β)}
    (h : entries.Pairwise fun x y => x.1 < y.1) (h' : entries'.Pairwise fun x y => x.1 < y.1)
    (hmem : ∀ entry, entry ∈ entries ↔ entry ∈ entries') : entries = entries' := by
  have : Std.Antisymm fun x y : Nat × β => x.1 < y.1 :=
    ⟨fun _ _ hlt hgt => absurd hlt (Nat.lt_asymm hgt)⟩
  have : Std.Irrefl fun x y : Nat × β => x.1 < y.1 := ⟨fun _ => Nat.lt_irrefl _⟩
  exact h.eq_of_mem_iff h' hmem

/-- The positions at which the pieces end. -/
def pieceEnds : (start : Nat) → List (List α) → List Nat
  | _, [] => []
  | start, piece :: cuts => (start + piece.length) :: pieceEnds (start + piece.length) cuts

theorem lt_of_mem_pieceEnds {cuts : List (List α)} (hne : ∀ piece ∈ cuts, piece ≠ [])
    {start place : Nat} (h : place ∈ pieceEnds start cuts) : start < place := by
  induction cuts generalizing start with
  | nil => cases h
  | cons piece cuts ih =>
    have hpos := List.length_pos_of_ne_nil (hne piece List.mem_cons_self)
    rcases List.mem_cons.1 h with rfl | h
    · omega
    · have := ih (fun piece hp => hne piece (List.mem_cons_of_mem _ hp)) h
      omega

end GameServer.Lib
