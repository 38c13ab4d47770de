import Mathlib.Data.List.Basic

/-!
# Texts of lines

A line is ended by two different symbols `a` and `b`. A message is a head of lines, an empty line
and a body. `splitOnce` cuts a text where a separator stands first, `splitLines` cuts it at every
line end, and `splitMessage` reads a message with them. A message written from lines without `a`
is read back, whatever its body contains (`splitMessage_lines`).
-/

namespace GameServer.Lib

universe u

variable {α : Type u} [DecidableEq α]

/-- What stands before and after the first occurrence of `sep`. -/
def splitOnce (sep : List α) : List α → Option (List α × List α)
  | [] => if sep = [] then some ([], []) else none
  | x :: xs =>
    if sep.isPrefixOf (x :: xs) then some ([], (x :: xs).drop sep.length)
    else (splitOnce sep xs).map fun parts => (x :: parts.1, parts.2)

/-- The lines of a text, of which the first begins with `line`. -/
def splitLines (a b : α) : (line : List α) → List α → List (List α)
  | line, [] => [line]
  | line, [x] => [line ++ [x]]
  | line, x :: y :: xs =>
    if x = a ∧ y = b then line :: splitLines a b [] xs else splitLines a b (line ++ [x]) (y :: xs)

/-- The lines before the first empty line, and the text after it. -/
def splitMessage (a b : α) (text : List α) : Option (List (List α) × List α) :=
  (splitOnce [a, b, a, b] text).map fun parts => (splitLines a b [] parts.1, parts.2)

/-- Each line with its end. -/
def joinLines (a b : α) (lines : List (List α)) : List α := lines.flatMap (· ++ [a, b])

variable {a b : α}

/-- A separator is not found in symbols other than its first one. -/
theorem splitOnce_append {sep line : List α} (hline : a ∉ line) (text : List α) :
    splitOnce (a :: sep) (line ++ text) =
      (splitOnce (a :: sep) text).map fun parts => (line ++ parts.1, parts.2) := by
  induction line with
  | nil => simp
  | cons x line ih =>
    obtain ⟨hx, hline⟩ := not_or.1 (mt List.mem_cons.2 hline)
    have hskip : (a :: sep).isPrefixOf (x :: (line ++ text)) = false := by
      rw [List.isPrefixOf_cons_cons, beq_eq_false_iff_ne.2 hx, Bool.false_and]
    rw [List.cons_append, splitOnce, hskip, ih hline, if_neg Bool.false_ne_true, Option.map_map]
    rfl

/-- A text is cut at the first `a` in one way. -/
theorem append_cons_inj {line line' s t : List α} (hline : a ∉ line) (hline' : a ∉ line')
    (h : line ++ a :: s = line' ++ a :: t) : line = line' ∧ s = t := by
  have hcut (text : List α) {l : List α} (hl : a ∉ l) :
      splitOnce [a] (l ++ a :: text) = some (l, text) := by
    rw [splitOnce_append hl]
    simp [splitOnce]
  have hparts := hcut t hline'
  rw [← h, hcut s hline, Option.some.injEq, Prod.mk.injEq] at hparts
  exact hparts

/-- A line end that is not followed by a second one does not end the head. -/
theorem splitOnce_skip (hab : a ≠ b) {x : α} (hx : x ≠ a) (text : List α) :
    splitOnce [a, b, a, b] (a :: b :: x :: text) =
      (splitOnce [a, b, a, b] (x :: text)).map fun parts => (a :: b :: parts.1, parts.2) := by
  have hfirst : [a, b, a, b].isPrefixOf (a :: b :: x :: text) = false := by
    simp [List.isPrefixOf_cons_cons, beq_eq_false_iff_ne.2 (Ne.symm hx)]
  have hsecond : [a, b, a, b].isPrefixOf (b :: x :: text) = false := by
    simp [List.isPrefixOf_cons_cons, beq_eq_false_iff_ne.2 hab]
  rw [splitOnce, hfirst, splitOnce, hsecond, if_neg Bool.false_ne_true, if_neg Bool.false_ne_true,
    Option.map_map]
  rfl

/-- **The head ends at the first empty line.** -/
theorem splitOnce_joinLines (hab : a ≠ b) {lines : List (List α)} (hne : lines ≠ [])
    (hlines : ∀ line ∈ lines, line ≠ [] ∧ a ∉ line) (body : List α) :
    splitOnce [a, b, a, b] (joinLines a b lines ++ ([a, b] ++ body)) =
      some ([a, b].intercalate lines, body) := by
  induction lines with
  | nil => exact absurd rfl hne
  | cons line lines ih =>
    have hline := (hlines line List.mem_cons_self).2
    have hrest : ∀ line ∈ lines, line ≠ [] ∧ a ∉ line :=
      fun l hl => hlines l (List.mem_cons_of_mem _ hl)
    have hcons : joinLines a b (line :: lines) ++ ([a, b] ++ body) =
        line ++ (a :: b :: (joinLines a b lines ++ ([a, b] ++ body))) := by
      simp [joinLines]
    rw [hcons, splitOnce_append hline]
    cases lines with
    | nil =>
      simp [joinLines, splitOnce]
    | cons next lines =>
      obtain ⟨x, rest, hx⟩ := List.exists_cons_of_ne_nil (hrest next List.mem_cons_self).1
      have hxa : x ≠ a := by
        rintro rfl
        exact (hrest next List.mem_cons_self).2 (hx ▸ List.mem_cons_self)
      obtain ⟨text, htext⟩ : ∃ text,
          joinLines a b (next :: lines) ++ ([a, b] ++ body) = x :: text := by
        rw [joinLines, List.flatMap_cons, hx]
        exact ⟨_, rfl⟩
      have ih := ih (List.cons_ne_nil _ _) hrest
      rw [htext] at ih ⊢
      rw [splitOnce_skip hab hxa, ih]
      rw [List.intercalate_cons_cons]
      simp

theorem splitLines_append {line : List α} (hline : a ∉ line) (start text : List α) :
    splitLines a b start (line ++ a :: b :: text) =
      (start ++ line) :: splitLines a b [] text := by
  induction line generalizing start with
  | nil => rw [List.nil_append, splitLines, if_pos ⟨rfl, rfl⟩, List.append_nil]
  | cons x line ih =>
    obtain ⟨hx, hline⟩ := not_or.1 (mt List.mem_cons.2 hline)
    have hstep (y : α) (ys : List α) :
        splitLines a b start (x :: y :: ys) = splitLines a b (start ++ [x]) (y :: ys) := by
      rw [splitLines, if_neg fun h => hx h.1.symm]
    have hcons : start ++ x :: line = start ++ [x] ++ line := List.append_cons ..
    rw [hcons, ← ih hline]
    cases line with
    | nil => exact hstep _ _
    | cons y line => exact hstep _ _

theorem splitLines_of_not_mem {line : List α} (hline : a ∉ line) (start : List α) :
    splitLines a b start line = [start ++ line] := by
  induction line generalizing start with
  | nil => rw [splitLines, List.append_nil]
  | cons x line ih =>
    obtain ⟨hx, hline⟩ := not_or.1 (mt List.mem_cons.2 hline)
    cases line with
    | nil => rfl
    | cons y line =>
      rw [splitLines, if_neg fun h => hx h.1.symm, ih hline, List.append_assoc,
        List.singleton_append]

/-- Lines without `a` are read back. -/
theorem splitLines_intercalate {lines : List (List α)} (hne : lines ≠ [])
    (hlines : ∀ line ∈ lines, a ∉ line) :
    splitLines a b [] ([a, b].intercalate lines) = lines := by
  induction lines with
  | nil => exact absurd rfl hne
  | cons line lines ih =>
    have hline := hlines line List.mem_cons_self
    cases lines with
    | nil =>
      rw [List.intercalate_singleton, splitLines_of_not_mem hline, List.nil_append]
    | cons next lines =>
      have hcons : [a, b].intercalate (line :: next :: lines) =
          line ++ a :: b :: [a, b].intercalate (next :: lines) := by
        rw [List.intercalate_cons_cons, List.append_assoc]
        rfl
      rw [hcons, splitLines_append hline, List.nil_append,
        ih (List.cons_ne_nil _ _) fun l hl => hlines l (List.mem_cons_of_mem _ hl)]

/-- **A message is read back**, whatever its body contains. -/
theorem splitMessage_lines (hab : a ≠ b) {lines : List (List α)} (hne : lines ≠ [])
    (hlines : ∀ line ∈ lines, line ≠ [] ∧ a ∉ line) (body : List α) :
    splitMessage a b (joinLines a b lines ++ ([a, b] ++ body)) = some (lines, body) := by
  rw [splitMessage, splitOnce_joinLines hab hne hlines, Option.map_some,
    splitLines_intercalate hne fun line hl => (hlines line hl).2]

end GameServer.Lib
