import GameServer.Lib.Positions
import GameServer.Http.HttpParser

/-!
# The positions of `ParseQuery`

`ParseQuery` and `TrimSpace` with their positions: what they read and cut is given by a position and
a count, and a position outside of the string is a fault. `turns_read` is the invariant of the loop:
the position is not behind the character that is read, and the text from the position on is the
piece that `queryLoop` holds. So no access is outside of the string, and the result is that of
`HttpParser.parseQuery` (`parseQuery_eq`).
-/

namespace GameServer.Http

open GameServer.Lib

/-- A string whose length is a value of `size_t`. -/
structure StringView where
  text : Bytes
  size_lt : text.length < 0x10000000000000000
  deriving DecidableEq, Repr

namespace ByPosition

/-! ## The code -/

def trimSpace (str : Bytes) : Except Halt Bytes := do
  let str ← Positions.removePrefix
    (min (toSize (Positions.findFirstNotOf sp str)) str.length) str
  Positions.removeSuffix
    (min (sizeSub (sizeSub str.length (toSize (Positions.findLastNotOf sp str))) 1) str.length) str

/-- The variables of `ParseQuery`, with the queries. -/
structure QueryPass where
  queries : List (Bytes × Bytes)
  key : Bytes
  pos : Nat
  deriving DecidableEq, Repr

/-- A turn of the loop. -/
def turn (str : Bytes) (s : QueryPass) (i : Nat) : Except Halt QueryPass :=
  match str[i]? with
  | none => .error .fault
  | some chr =>
    if chr == 0x3d then do
      let key ← trimSpace (← Positions.view str s.pos (sizeSub i s.pos))
      pure { s with key, pos := i + 1 }
    else if chr == 0x26 then do
      let val ← trimSpace (← Positions.view str s.pos (sizeSub i s.pos))
      pure { s with queries := HttpParser.emplace s.queries s.key val, pos := i + 1 }
    else pure s

/-- The first `n` turns. -/
def turns (queries : List (Bytes × Bytes)) (str : Bytes) (n : Nat) : Except Halt QueryPass :=
  (List.range n).foldlM (turn str) ⟨queries, [], 0⟩

/-- What follows the loop. -/
def lastPiece (str : Bytes) (s : QueryPass) : Except Halt (List (Bytes × Bytes)) :=
  if s.pos == 0 then pure s.queries
  else if 0 < sizeSub str.length s.pos then do
    let val ← trimSpace (← Positions.view str s.pos (sizeSub str.length s.pos))
    pure (HttpParser.emplace s.queries s.key val)
  else if sizeSub str.length s.pos == 0 then pure (HttpParser.emplace s.queries s.key [])
  else pure s.queries

def parseQuery (p : HttpParser) (str : Bytes) : Except Halt HttpParser :=
  if str.isEmpty then pure p
  else do
    let s ← turns p.queries str str.length
    let queries ← lastPiece str s
    pure { p with queries }

/-! ## `TrimSpace` -/

theorem trimSpace_eq {str : Bytes} (h : str.length < 0x10000000000000000) :
    trimSpace str = .ok (HttpParser.trimSpace str) := by
  have hle : (str.dropWhile (· == sp)).length ≤ str.length :=
    (List.dropWhile_sublist _).length_le
  rw [trimSpace, Positions.removePrefix_eq h, Positions.ok_bind,
    Positions.removeSuffix_eq (Nat.lt_of_le_of_lt hle h), HttpParser.trimSpace]

/-- What is dropped at the front is a row of spaces, and no space follows. -/
theorem exists_dropWhile (s : Bytes) :
    ∃ n, s = List.replicate n sp ++ s.dropWhile (· == sp) ∧
      (s.dropWhile (· == sp)).head? ≠ some sp := by
  induction s with
  | nil => exact ⟨0, rfl, by decide⟩
  | cons c s ih =>
    obtain ⟨n, hs, hhead⟩ := ih
    rw [List.dropWhile_cons]
    by_cases hc : c = sp
    · subst hc
      rw [if_pos BEq.rfl]
      exact ⟨n + 1, congrArg (sp :: ·) hs, hhead⟩
    · rw [if_neg (by simpa using hc)]
      exact ⟨0, rfl, fun h => hc (Option.some.inj h)⟩

/-- A row of spaces at both ends, and what is between them. -/
structure Trimmed (str t : Bytes) : Prop where
  spaces : ∃ a b, str = List.replicate a sp ++ (t ++ List.replicate b sp)
  head : t.head? ≠ some sp
  last : t.getLast? ≠ some sp

theorem trimSpace_trimmed (str : Bytes) : Trimmed str (HttpParser.trimSpace str) := by
  obtain ⟨a, ha, hhead⟩ := exists_dropWhile str
  obtain ⟨b, hb, hlast⟩ := exists_dropWhile (str.dropWhile (· == sp)).reverse
  have hmiddle : str.dropWhile (· == sp) = HttpParser.trimSpace str ++ List.replicate b sp := by
    rw [← List.reverse_inj, hb, HttpParser.trimSpace, List.reverse_append, List.reverse_reverse,
      List.reverse_replicate]
  refine ⟨⟨a, b, ?_⟩, ?_, ?_⟩
  · rw [← hmiddle]
    exact ha
  · intro htrim
    refine hhead ?_
    rw [hmiddle, List.head?_append, htrim]
    rfl
  · rw [HttpParser.trimSpace, List.getLast?_reverse]
    exact hlast

/-! ## The loop -/

section Loop

variable {queries : List (Bytes × Bytes)} {str : Bytes} {n : Nat} {s : QueryPass}

/-- What the first `n` turns have read. -/
structure Read (queries : List (Bytes × Bytes)) (str : Bytes) (n : Nat) (s : QueryPass) :
    Prop where
  pos_le : s.pos ≤ n
  rest : HttpParser.queryLoop queries [] [] false str =
    HttpParser.queryLoop s.queries s.key ((str.take n).drop s.pos) (s.pos != 0) (str.drop n)

theorem read_zero : Read queries str 0 ⟨queries, [], 0⟩ := ⟨Nat.le_refl _, rfl⟩

/-- The piece up to the `n`-th character: the view is in the string, and it is trimmed. -/
theorem view_piece (hstr : str.length < 0x10000000000000000) {pos : Nat} (hle : pos ≤ n)
    (hpos : pos < str.length) (hn : n ≤ str.length) :
    Positions.view str pos (sizeSub n pos) = .ok ((str.take n).drop pos) ∧
      trimSpace ((str.take n).drop pos) = .ok (HttpParser.trimSpace ((str.take n).drop pos)) := by
  have hlength : ((str.take n).drop pos).length ≤ str.length := by
    rw [List.length_drop, List.length_take]
    omega
  have hsub : sizeSub n pos = n - pos :=
    Positions.sizeSub_of_le hle (Nat.lt_of_le_of_lt hn hstr)
  refine ⟨?_, trimSpace_eq (Nat.lt_of_le_of_lt hlength hstr)⟩
  rw [hsub, Positions.view_of_le hpos (by omega), List.drop_take]

theorem take_drop_succ (hle : s.pos ≤ n) (hn : n < str.length) :
    (str.take (n + 1)).drop s.pos = (str.take n).drop s.pos ++ [str[n]] := by
  rw [List.take_succ_eq_append_getElem hn, List.drop_append_of_le_length]
  rw [List.length_take]
  omega

theorem drop_take_self : (str.take n).drop n = [] :=
  List.drop_eq_nil_of_le (by rw [List.length_take]; omega)

/-- **A turn of the loop.** -/
theorem turn_read (hstr : str.length < 0x10000000000000000) (hn : n < str.length)
    (h : Read queries str n s) : ∃ t, turn str s n = .ok t ∧ Read queries str (n + 1) t := by
  obtain ⟨hview, htrim⟩ := view_piece hstr h.pos_le (Nat.lt_of_le_of_lt h.pos_le hn)
    (Nat.le_of_lt hn)
  have hrest := h.rest
  rw [List.drop_eq_getElem_cons hn, HttpParser.queryLoop] at hrest
  rw [turn, List.getElem?_eq_getElem hn]
  dsimp only
  by_cases heq : str[n] == 0x3d
  · rw [if_pos heq] at hrest ⊢
    rw [hview, Positions.ok_bind, htrim, Positions.ok_bind]
    refine ⟨_, rfl, Nat.le_refl _, ?_⟩
    rw [hrest, drop_take_self]
    rfl
  · rw [if_neg heq] at hrest ⊢
    by_cases hamp : str[n] == 0x26
    · rw [if_pos hamp] at hrest ⊢
      rw [hview, Positions.ok_bind, htrim, Positions.ok_bind]
      refine ⟨_, rfl, Nat.le_refl _, ?_⟩
      rw [hrest, drop_take_self]
      rfl
    · rw [if_neg hamp] at hrest ⊢
      refine ⟨s, rfl, Nat.le_succ_of_le h.pos_le, ?_⟩
      rw [hrest, take_drop_succ h.pos_le hn]

/-- **The loop.** No turn reads or cuts outside of the string. -/
theorem turns_read (hstr : str.length < 0x10000000000000000) (hn : n ≤ str.length) :
    ∃ s, turns queries str n = .ok s ∧ Read queries str n s := by
  induction n with
  | zero => exact ⟨_, rfl, read_zero⟩
  | succ n ih =>
    obtain ⟨s, hs, hread⟩ := ih (Nat.le_of_succ_le hn)
    obtain ⟨t, ht, hread'⟩ := turn_read hstr hn hread
    refine ⟨t, ?_, hread'⟩
    unfold turns at hs ⊢
    rw [List.range_succ, List.foldlM_append, hs, Positions.ok_bind, List.foldlM_cons, ht,
      Positions.ok_bind]
    rfl

/-- The piece after the last separator. -/
theorem lastPiece_eq (hstr : str.length < 0x10000000000000000)
    (h : Read queries str str.length s) :
    lastPiece str s = .ok (HttpParser.queryLoop queries [] [] false str) := by
  have hsub : sizeSub str.length s.pos = str.length - s.pos :=
    Positions.sizeSub_of_le h.pos_le hstr
  have hrest := h.rest
  rw [List.take_length, List.drop_length, HttpParser.queryLoop] at hrest
  rw [lastPiece]
  by_cases hzero : s.pos = 0
  · rw [if_pos (by simpa using hzero)] at hrest
    rw [if_pos (by simpa using hzero), hrest]
    rfl
  · rw [if_neg (by simpa using hzero)] at hrest
    rw [if_neg (by simpa using hzero)]
    by_cases hlt : s.pos < str.length
    · obtain ⟨hview, htrim⟩ := view_piece hstr h.pos_le hlt (Nat.le_refl _)
      rw [List.take_length] at hview htrim
      rw [if_neg (by simpa using hlt)] at hrest
      rw [if_pos (by omega), hview, Positions.ok_bind, htrim, Positions.ok_bind, hrest]
      rfl
    · rw [if_pos (by simpa using hlt)] at hrest
      have hempty : sizeSub str.length s.pos = 0 := by omega
      rw [if_neg (by omega), hempty, if_pos BEq.rfl, hrest]
      rfl

/-- **The pass by positions** is that over the pieces. -/
theorem parseQuery_eq (p : HttpParser) (hstr : str.length < 0x10000000000000000) :
    parseQuery p str = .ok (p.parseQuery str) := by
  rw [parseQuery, HttpParser.parseQuery]
  split
  · rfl
  · obtain ⟨s, hs, hread⟩ := @turns_read p.queries str _ hstr (Nat.le_refl _)
    rw [hs, Positions.ok_bind, lastPiece_eq hstr hread, Positions.ok_bind]
    rfl

end Loop

/-- **No access is outside of the string.** In front of every turn the position is not behind the
character that is read; no view and no count is outside of the string, and the queries are those of
the trimmed pieces. Trimming takes the spaces at both ends and nothing else. -/
theorem parseQuery_inside (p : HttpParser) (str : StringView) :
    (∀ n ≤ str.text.length, ∃ s, turns p.queries str.text n = .ok s ∧ s.pos ≤ n) ∧
      parseQuery p str.text = .ok (p.parseQuery str.text) ∧
      ∀ piece : StringView, ∃ t, trimSpace piece.text = .ok t ∧ Trimmed piece.text t := by
  refine ⟨?_, parseQuery_eq p str.size_lt, ?_⟩
  · intro n hn
    obtain ⟨s, hs, hread⟩ := turns_read str.size_lt hn
    exact ⟨s, hs, hread.pos_le⟩
  · intro piece
    exact ⟨_, trimSpace_eq piece.size_lt, trimSpace_trimmed piece.text⟩

end ByPosition

end GameServer.Http
