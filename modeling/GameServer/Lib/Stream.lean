import GameServer.Lib.Cuts

/-!
# A receiver that keeps what it cannot read

Items with a text of their own are sent without a mark between them. The receiver gets the stream
in pieces, tries to read all it has whenever a piece ends, and keeps it where this fails. If it
reads whole items and nothing else (`Reads`), what it delivers is decided by which of the items'
ends are ends of pieces:

* `delivered` is the receiver, `deliveredAt` the same one symbol at a time (`delivered_eq`).
* `deliveredAt_item` says what becomes of one item, `groupsAt` which items are read together
  (`deliveredAt_groups`).
-/

namespace GameServer.Lib

universe u v w

variable {α : Type u} {β : Type v} {μ : Type w}

/-- `parse` reads whole items, up to a size, and no text that ends within an item. -/
structure Reads (parse : List α → Option μ) (text : β → List α) (value : List β → μ)
    (bound : Nat) : Prop where
  text_ne : ∀ x, text x ≠ []
  whole : ∀ items : List β, (items.flatMap text).length < bound →
    parse (items.flatMap text) = some (value items)
  cut : ∀ (items : List β) cut more x, cut ≠ [] → more ≠ [] → cut ++ more = text x →
    (items.flatMap text ++ cut).length < bound → parse (items.flatMap text ++ cut) = none

/-- What is read of the pieces when so much was kept before. -/
def delivered (parse : List α → Option μ) : (kept : List α) → List (List α) → List μ
  | _, [] => []
  | kept, piece :: cuts =>
    match parse (kept ++ piece) with
    | none => delivered parse (kept ++ piece) cuts
    | some m => m :: delivered parse [] cuts

/-- The same for a stream, of which the pieces end at `ends`. -/
def deliveredAt (parse : List α → Option μ) (ends : List Nat) :
    (place : Nat) → (kept : List α) → List α → List μ
  | _, _, [] => []
  | place, kept, x :: xs =>
    if place + 1 ∈ ends then
      match parse (kept ++ [x]) with
      | none => deliveredAt parse ends (place + 1) (kept ++ [x]) xs
      | some m => m :: deliveredAt parse ends (place + 1) [] xs
    else deliveredAt parse ends (place + 1) (kept ++ [x]) xs

/-- The items that are read together. -/
def groupsAt (text : β → List α) (ends : List Nat) :
    (place : Nat) → (items : List β) → List β → List (List β)
  | _, _, [] => []
  | place, items, x :: xs =>
    if place + (text x).length ∈ ends then
      (items ++ [x]) :: groupsAt text ends (place + (text x).length) [] xs
    else groupsAt text ends (place + (text x).length) (items ++ [x]) xs

variable {parse : List α → Option μ} {text : β → List α} {value : List β → μ} {bound : Nat}
  {ends : List Nat}

/-! ## Pieces -/

/-- Nothing is tried before the piece ends. -/
theorem deliveredAt_piece {piece : List α} (hne : piece ≠ []) {place : Nat}
    (hinside : ∀ e, place < e → e < place + piece.length → e ∉ ends)
    (hend : place + piece.length ∈ ends) (kept rest : List α) :
    deliveredAt parse ends place kept (piece ++ rest) =
      match parse (kept ++ piece) with
      | none => deliveredAt parse ends (place + piece.length) (kept ++ piece) rest
      | some m => m :: deliveredAt parse ends (place + piece.length) [] rest := by
  induction piece generalizing place kept with
  | nil => exact absurd rfl hne
  | cons x piece ih =>
    cases piece with
    | nil => exact if_pos hend
    | cons y piece =>
      have hskip : place + 1 ∉ ends := hinside _ (Nat.lt_succ_self _) (by simp)
      have hlen : place + (x :: y :: piece).length = place + 1 + (y :: piece).length := by
        simp only [List.length_cons]
        omega
      have hkept : kept ++ x :: y :: piece = kept ++ [x] ++ (y :: piece) := List.append_cons ..
      rw [List.cons_append, deliveredAt, if_neg hskip, hlen, hkept]
      exact ih (List.cons_ne_nil _ _) (fun e hlo hhi => hinside e (by omega) (by omega))
        (hlen ▸ hend) (kept ++ [x])

/-- **Pieces and their ends** say the same. -/
theorem delivered_eq {cuts : List (List α)} (hne : ∀ piece ∈ cuts, piece ≠ []) {place : Nat}
    (hends : ∀ e, place < e → (e ∈ ends ↔ e ∈ pieceEnds place cuts)) (kept : List α) :
    delivered parse kept cuts = deliveredAt parse ends place kept cuts.flatten := by
  induction cuts generalizing place kept with
  | nil => rfl
  | cons piece cuts ih =>
    have hpiece := hne piece List.mem_cons_self
    have hcuts : ∀ piece ∈ cuts, piece ≠ [] := fun p hp => hne p (List.mem_cons_of_mem _ hp)
    have hpos := List.length_pos_of_ne_nil hpiece
    have hinside : ∀ e, place < e → e < place + piece.length → e ∉ ends := by
      intro e hlo hhi hmem
      rcases List.mem_cons.1 ((hends e hlo).1 hmem) with rfl | hlater
      · exact absurd hhi (Nat.lt_irrefl _)
      · have := lt_of_mem_pieceEnds hcuts hlater
        omega
    have hend : place + piece.length ∈ ends := (hends _ (by omega)).2 List.mem_cons_self
    have hlater : ∀ e, place + piece.length < e →
        (e ∈ ends ↔ e ∈ pieceEnds (place + piece.length) cuts) := by
      intro e he
      rw [hends e (by omega), pieceEnds, List.mem_cons]
      exact or_iff_right (Nat.ne_of_gt he)
    rw [List.flatten_cons, deliveredAt_piece hpiece hinside hend, delivered]
    cases parse (kept ++ piece) with
    | none => exact ih hcuts hlater _
    | some m => exact congrArg (m :: ·) (ih hcuts hlater [])

/-! ## Items -/

/-- The rest of an item after a part of it was kept. -/
theorem deliveredAt_rest (h : Reads parse text value bound) (ends : List Nat) {items : List β}
    {x : β} {cut more : List α} (hcut : cut ++ more = text x) (hmore : more ≠ [])
    (hbound : ((items ++ [x]).flatMap text).length < bound) (place : Nat) (rest : List α) :
    deliveredAt parse ends place (items.flatMap text ++ cut) (more ++ rest) =
      if place + more.length ∈ ends then
        value (items ++ [x]) :: deliveredAt parse ends (place + more.length) [] rest
      else deliveredAt parse ends (place + more.length) ((items ++ [x]).flatMap text) rest := by
  induction more generalizing cut place with
  | nil => exact absurd rfl hmore
  | cons a more ih =>
    have hkept : items.flatMap text ++ cut ++ [a] ++ more = (items ++ [x]).flatMap text := by
      rw [List.flatMap_append, List.flatMap_singleton, ← hcut]
      simp
    rw [List.cons_append, deliveredAt]
    cases more with
    | nil =>
      rw [List.append_nil] at hkept
      rw [hkept, h.whole _ hbound]
      rfl
    | cons b more =>
      have hpart : cut ++ [a] ++ (b :: more) = text x := by
        rw [← hcut]
        simp
      have hnone : parse (items.flatMap text ++ cut ++ [a]) = none := by
        rw [List.append_assoc]
        refine h.cut items (cut ++ [a]) (b :: more) x (by simp) (List.cons_ne_nil _ _) hpart ?_
        have hlen := congrArg List.length hkept
        simp only [List.length_append, List.length_cons, List.length_nil] at hlen hbound ⊢
        omega
      have hlen : place + (a :: b :: more).length = place + 1 + (b :: more).length := by
        simp only [List.length_cons]
        omega
      rw [hnone, ite_self, List.append_assoc, hlen]
      exact ih hpart (List.cons_ne_nil _ _) (place + 1)

/-- **One item.** It is delivered, with those that were kept before it, if a piece ends with it,
and is kept otherwise. -/
theorem deliveredAt_item (h : Reads parse text value bound) (ends : List Nat) (items : List β)
    (x : β) (hbound : ((items ++ [x]).flatMap text).length < bound) (place : Nat)
    (rest : List α) :
    deliveredAt parse ends place (items.flatMap text) (text x ++ rest) =
      if place + (text x).length ∈ ends then
        value (items ++ [x]) :: deliveredAt parse ends (place + (text x).length) [] rest
      else
        deliveredAt parse ends (place + (text x).length) ((items ++ [x]).flatMap text) rest := by
  have hcut : [] ++ text x = text x := rfl
  have hrest := deliveredAt_rest h ends hcut (h.text_ne x) hbound place rest
  rwa [List.append_nil] at hrest

/-- **All items**: each group is delivered as one. -/
theorem deliveredAt_groups (h : Reads parse text value bound) (ends : List Nat)
    {items xs : List β} (hbound : ((items ++ xs).flatMap text).length < bound) (place : Nat) :
    deliveredAt parse ends place (items.flatMap text) (xs.flatMap text) =
      (groupsAt text ends place items xs).map value := by
  induction xs generalizing items place with
  | nil => rfl
  | cons x xs ih =>
    have hsplit : ((items ++ [x] ++ xs).flatMap text).length < bound := by
      rwa [← List.append_cons]
    have hfirst : ((items ++ [x]).flatMap text).length < bound := by
      rw [List.flatMap_append, List.length_append] at hsplit
      omega
    rw [List.flatMap_cons, deliveredAt_item h ends items x hfirst, groupsAt]
    split
    · have hlater : (([] ++ xs).flatMap text).length < bound := by
        rw [List.flatMap_append, List.length_append] at hsplit
        rw [List.nil_append]
        omega
      exact congrArg (value (items ++ [x]) :: ·) (ih hlater _)
    · exact ih hsplit _

/-- A group is longer than what was kept when it began. -/
theorem length_lt_of_groupsAt {place : Nat} {items xs : List β} {group : List β}
    {groups : List (List β)} (h : groupsAt text ends place items xs = group :: groups) :
    items.length < group.length := by
  induction xs generalizing place items with
  | nil => cases h
  | cons x xs ih =>
    rw [groupsAt] at h
    split at h
    · cases h
      simp
    · have := ih h
      rw [List.length_append] at this
      exact Nat.lt_of_le_of_lt (Nat.le_add_right _ _) this

/-- The groups are the items in order, without those that are still kept. -/
theorem flatten_groupsAt (text : β → List α) (ends : List Nat) (place : Nat)
    (items xs : List β) :
    ∃ left, (groupsAt text ends place items xs).flatten ++ left = items ++ xs := by
  induction xs generalizing place items with
  | nil => exact ⟨items, (List.append_nil _).symm⟩
  | cons x xs ih =>
    rw [groupsAt]
    split
    · obtain ⟨left, hleft⟩ := ih (place + (text x).length) []
      refine ⟨left, ?_⟩
      rw [List.flatten_cons, List.append_assoc, hleft]
      simp
    · obtain ⟨left, hleft⟩ := ih (place + (text x).length) (items ++ [x])
      refine ⟨left, ?_⟩
      rw [hleft]
      simp

end GameServer.Lib
