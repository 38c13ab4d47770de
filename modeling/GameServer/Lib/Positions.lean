import GameServer.Lib.Exec

/-!
# Strings with positions

The operations of `std::string` and `std::string_view` that take or give positions, on lists of any
characters. A search that finds nothing gives `npos`: `none` here, and the greatest value of
`size_t` (`toSize`) where a program computes with it. Differences are those of `size_t` (`sizeSub`).
A view beyond the string is a fault, and `replace` throws there.

* `find_append`: a search from the end of a prefix is a search of the rest.
* `removePrefix_eq`, `removeSuffix_eq`: what is cut off up to the character that a search gives,
  also if there is none and the positions are computed with `npos`.
-/

namespace GameServer.Lib

universe u

/-- `std::out_of_range`. -/
structure OutOfRange where
  deriving DecidableEq, Repr

/-- A position as a value of `size_t`. -/
def toSize : Option Nat → Nat
  | some pos => pos
  | none => 0xffffffffffffffff

/-- The difference of two values of `size_t`. -/
def sizeSub (a b : Nat) : Nat := (a + (0x10000000000000000 - b)) % 0x10000000000000000

namespace Positions

variable {α : Type u}

/-- `replace(pos, count, t)`. -/
def replace (s : List α) (pos : Option Nat) (count : Nat) (t : List α) :
    Except OutOfRange (List α) :=
  match pos with
  | none => .error {}
  | some pos =>
    if s.length < pos then .error {} else .ok (s.take pos ++ (t ++ s.drop (pos + count)))

/-- The view `{&s[pos], count}`: there has to be a character at `pos`. -/
def view (s : List α) (pos count : Nat) : Except Halt (List α) :=
  if pos < s.length ∧ pos + count ≤ s.length then .ok ((s.drop pos).take count) else .error .fault

def removePrefix (count : Nat) (s : List α) : Except Halt (List α) :=
  if count ≤ s.length then .ok (s.drop count) else .error .fault

def removeSuffix (count : Nat) (s : List α) : Except Halt (List α) :=
  if count ≤ s.length then .ok (s.take (s.length - count)) else .error .fault

section Search

variable [BEq α]

/-- `find(c, pos)`. -/
def find (c : α) (s : List α) (pos : Nat) : Option Nat :=
  ((s.drop pos).findIdx? (· == c)).map (pos + ·)

def findFirstNotOf (c : α) (s : List α) : Option Nat := s.findIdx? (!· == c)

def findLastNotOf (c : α) (s : List α) : Option Nat :=
  (s.reverse.findIdx? (!· == c)).map (s.length - 1 - ·)

end Search

@[simp] theorem ok_bind {β γ : Type u} (a : β) (f : β → Except Halt γ) :
    (Except.ok a >>= f) = f a := rfl

theorem sizeSub_of_le {a b : Nat} (h : b ≤ a) (ha : a < 0x10000000000000000) :
    sizeSub a b = a - b := by
  unfold sizeSub
  omega

theorem view_of_le {s : List α} {pos count : Nat} (hpos : pos < s.length)
    (hcount : pos + count ≤ s.length) : view s pos count = .ok ((s.drop pos).take count) :=
  if_pos ⟨hpos, hcount⟩

/-- One character of a string is replaced. -/
theorem replace_append (done rest t : List α) (c : α) :
    replace (done ++ c :: rest) (some done.length) 1 t = .ok (done ++ (t ++ rest)) := by
  rw [replace, if_neg (by simp), List.take_left, List.drop_length_add_append]
  rfl

/-- The bound that a search without success leaves to the count. -/
theorem min_toSize {s : List α} (p : α → Bool)
    (hs : s.length < 0x10000000000000000) :
    min (toSize (s.findIdx? p)) s.length = s.findIdx p := by
  have hle : s.findIdx p ≤ s.length := List.findIdx_le_length
  rw [List.findIdx_eq_getD_findIdx?] at hle ⊢
  cases hfind : s.findIdx? p with
  | none =>
    rw [toSize, Option.getD_none]
    omega
  | some i =>
    rw [hfind, Option.getD_some] at hle
    exact Nat.min_eq_left hle

section Find

variable [BEq α] {c : α}

theorem find_append (done todo : List α) :
    find c (done ++ todo) done.length = (todo.findIdx? (· == c)).map (done.length + ·) := by
  rw [find, List.drop_left]

variable [LawfulBEq α]

/-- The first one of the rest is found. -/
theorem find_append_cons {before : List α} (hbefore : c ∉ before) (done rest : List α) :
    find c (done ++ (before ++ c :: rest)) done.length = some (done.length + before.length) := by
  have hskip : before.findIdx? (· == c) = none := by
    rw [List.findIdx?_eq_none_iff]
    intro x hx
    rw [beq_eq_false_iff_ne]
    rintro rfl
    exact hbefore hx
  rw [find_append, List.findIdx?_append, hskip, List.findIdx?_cons, if_pos (BEq.rfl)]
  simp

theorem find_append_of_not_mem {todo : List α} (h : c ∉ todo) (done : List α) :
    find c (done ++ todo) done.length = none := by
  rw [find_append, Option.map_eq_none_iff, List.findIdx?_eq_none_iff]
  intro x hx
  rw [beq_eq_false_iff_ne]
  rintro rfl
  exact h hx

end Find

section Trim

variable [BEq α] {c : α} {s : List α}

theorem removePrefix_eq (hs : s.length < 0x10000000000000000) :
    removePrefix (min (toSize (findFirstNotOf c s)) s.length) s =
      .ok (s.dropWhile (· == c)) := by
  rw [findFirstNotOf, min_toSize _ hs, removePrefix, if_pos List.findIdx_le_length,
    List.dropWhile_eq_drop_findIdx_not]

/-- The count of characters behind the one that is found; `size - npos - 1` is the size. -/
theorem sizeSub_toSize (hs : s.length < 0x10000000000000000) :
    min (sizeSub (sizeSub s.length (toSize (findLastNotOf c s))) 1) s.length =
      s.reverse.findIdx (!· == c) := by
  have hlength : s.reverse.length = s.length := List.length_reverse
  have hle : s.reverse.findIdx (!· == c) ≤ s.length := hlength ▸ List.findIdx_le_length
  rw [findLastNotOf, List.findIdx_eq_getD_findIdx?] at *
  cases hfind : s.reverse.findIdx? (!· == c) with
  | none =>
    rw [Option.map_none, Option.getD_none, toSize, sizeSub, sizeSub, hlength]
    omega
  | some i =>
    have hlt : i < s.length := by
      obtain ⟨h, -⟩ := List.findIdx?_eq_some_iff_findIdx_eq.1 hfind
      rwa [hlength] at h
    rw [Option.map_some, Option.getD_some, toSize, sizeSub, sizeSub]
    omega

theorem removeSuffix_eq (hs : s.length < 0x10000000000000000) :
    removeSuffix (min (sizeSub (sizeSub s.length (toSize (findLastNotOf c s))) 1) s.length) s =
      .ok (s.reverse.dropWhile (· == c)).reverse := by
  rw [sizeSub_toSize hs, removeSuffix, List.dropWhile_eq_drop_findIdx_not, List.reverse_drop,
    List.reverse_reverse, List.length_reverse, if_pos]
  rw [← @List.length_reverse _ s]
  exact List.findIdx_le_length

end Trim

end Positions

end GameServer.Lib
