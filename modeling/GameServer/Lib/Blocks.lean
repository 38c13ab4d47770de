import Mathlib.Algebra.Ring.Nat
import GameServer.Lib.Exec

/-!
# Blocks of bytes in a memory of fixed size

A memory is a list of cells, a block is a list at an offset. `store` writes a block and stops with
a fault where the block does not lie inside the memory; `HasAt` says that a block stands at an
offset. What a store leaves alone follows from the offsets: `HasAt.store_of_disjoint`.

In a table whose columns have fixed widths the cells are disjoint blocks (`cell_disjoint`).

`countTo` is a loop over `0, 1, …, n - 1` that can stop; `countTo_rule` is its total-correctness
rule: a loop whose turns all return and carry an invariant on returns.
-/

namespace GameServer.Lib

universe u v

section Blocks

variable {α : Type u}

def store (mem : List α) (offset : Nat) (block : List α) : Except Halt (List α) :=
  if offset + block.length ≤ mem.length then
    .ok (mem.take offset ++ block ++ mem.drop (offset + block.length))
  else .error .fault

/-- The block stands in the memory at this offset. -/
def HasAt (mem : List α) (offset : Nat) (block : List α) : Prop :=
  ∀ i < block.length, mem[offset + i]? = block[i]?

variable {mem mem' block block' : List α} {offset offset' : Nat}

theorem exists_store (h : offset + block.length ≤ mem.length) :
    ∃ mem', store mem offset block = .ok mem' := ⟨_, if_pos h⟩

theorem store_ok (h : store mem offset block = .ok mem') : offset + block.length ≤ mem.length ∧
    mem' = mem.take offset ++ block ++ mem.drop (offset + block.length) := by
  unfold store at h
  split at h
  · next hle => exact ⟨hle, (Except.ok.inj h).symm⟩
  · cases h

theorem length_store (h : store mem offset block = .ok mem') : mem'.length = mem.length := by
  obtain ⟨hle, rfl⟩ := store_ok h
  simp only [List.length_append, List.length_take, List.length_drop]
  omega

/-- Which cell a store leaves where. -/
theorem getElem?_store (h : store mem offset block = .ok mem') (i : Nat) :
    mem'[i]? =
      if offset ≤ i ∧ i < offset + block.length then block[i - offset]? else mem[i]? := by
  obtain ⟨hle, rfl⟩ := store_ok h
  have htake : (mem.take offset).length = offset := by
    rw [List.length_take]
    omega
  rw [List.append_assoc, List.getElem?_append, htake]
  by_cases hlow : i < offset
  · rw [if_pos hlow, if_neg (by omega), List.getElem?_take_of_lt hlow]
  · rw [if_neg hlow, List.getElem?_append]
    by_cases hin : i < offset + block.length
    · rw [if_pos (by omega), if_pos (by omega)]
    · rw [if_neg (by omega), if_neg (by omega), List.getElem?_drop]
      congr 1
      omega

namespace HasAt

theorem nil : HasAt mem offset ([] : List α) := fun _ h => absurd h (Nat.not_lt_zero _)

theorem take (h : HasAt mem offset block) (n : Nat) : HasAt mem offset (block.take n) := by
  intro i hi
  rw [List.length_take] at hi
  rw [h i (by omega), List.getElem?_take_of_lt (by omega)]

/-- What was stored stands there. -/
theorem store_self (h : store mem offset block = .ok mem') : HasAt mem' offset block := by
  intro i hi
  rw [getElem?_store h, if_pos (by omega)]
  congr 1
  omega

/-- Two blocks next to each other are one. -/
theorem append (h : HasAt mem offset block) (h' : HasAt mem (offset + block.length) block') :
    HasAt mem offset (block ++ block') := by
  intro i hi
  rw [List.length_append] at hi
  rw [List.getElem?_append]
  by_cases hlow : i < block.length
  · rw [if_pos hlow]
    exact h i hlow
  · have hnext := h' (i - block.length) (by omega)
    rw [if_neg hlow, ← hnext]
    congr 1
    omega

/-- **The frame.** A block that the store does not touch still stands there. -/
theorem store_of_disjoint (hblock : HasAt mem offset block)
    (h : store mem offset' block' = .ok mem')
    (hdisjoint : offset + block.length ≤ offset' ∨ offset' + block'.length ≤ offset) :
    HasAt mem' offset block := by
  intro i hi
  rw [getElem?_store h, if_neg (by omega)]
  exact hblock i hi

/-- The cells from the offset on begin with the block. -/
theorem drop_eq (h : HasAt mem offset block) :
    (mem.drop offset).take block.length = block := by
  apply List.ext_getElem?
  intro i
  by_cases hi : i < block.length
  · rw [List.getElem?_take_of_lt hi, List.getElem?_drop]
    exact h i hi
  · rw [List.getElem?_eq_none, List.getElem?_eq_none (by omega)]
    rw [List.length_take]
    omega

theorem exists_drop_eq (h : HasAt mem offset block) :
    ∃ rest, mem.drop offset = block ++ rest := by
  refine ⟨(mem.drop offset).drop block.length, ?_⟩
  calc mem.drop offset
      = (mem.drop offset).take block.length ++ (mem.drop offset).drop block.length :=
        (List.take_append_drop _ _).symm
    _ = block ++ (mem.drop offset).drop block.length := by rw [h.drop_eq]

end HasAt

end Blocks

section Tables

variable {widths : List Nat} {i j k l : Nat}

/-- Where a column begins in its row. -/
def columnOffset (widths : List Nat) (i : Nat) : Nat := (widths.take i).sum

/-- Where the cell of column `i` begins in row `k`. -/
def cell (widths : List Nat) (k i : Nat) : Nat := widths.sum * k + columnOffset widths i

theorem columnOffset_succ (hi : i < widths.length) :
    columnOffset widths (i + 1) = columnOffset widths i + widths[i] := by
  rw [columnOffset, List.take_succ_eq_append_getElem hi, List.sum_append, List.sum_singleton]
  rfl

theorem columnOffset_mono (widths : List Nat) (hij : i ≤ j) :
    columnOffset widths i ≤ columnOffset widths j := by
  unfold columnOffset
  have htake : widths.take i = (widths.take j).take i := by
    rw [List.take_take, Nat.min_eq_left hij]
  calc (widths.take i).sum
      ≤ ((widths.take j).take i).sum + ((widths.take j).drop i).sum := by
        rw [htake]
        exact Nat.le_add_right _ _
    _ = (widths.take j).sum := by rw [← List.sum_append, List.take_append_drop]

theorem columnOffset_le (widths : List Nat) (i : Nat) : columnOffset widths i ≤ widths.sum := by
  have hle := columnOffset_mono widths (Nat.le_add_right i widths.length)
  have hall : columnOffset widths (i + widths.length) = widths.sum := by
    rw [columnOffset, List.take_of_length_le (Nat.le_add_left _ _)]
  rwa [hall] at hle

/-- A cell ends before its row does. -/
theorem cell_end_le (hi : i < widths.length) :
    cell widths k i + widths[i] ≤ widths.sum * (k + 1) := by
  have hle := columnOffset_le widths (i + 1)
  rw [columnOffset_succ hi] at hle
  rw [cell, Nat.mul_succ]
  omega

theorem cell_end_le_of_lt (hi : i < widths.length) (hkl : k < l) :
    cell widths k i + widths[i] ≤ widths.sum * l :=
  Nat.le_trans (cell_end_le hi) (Nat.mul_le_mul_left _ hkl)

/-- **Cells are disjoint.** -/
theorem cell_disjoint (hi : i < widths.length) (hj : j < widths.length) (h : i = j → k ≠ l) :
    cell widths k i + widths[i] ≤ cell widths l j ∨
      cell widths l j + widths[j] ≤ cell widths k i := by
  rcases Nat.lt_trichotomy k l with hkl | rfl | hlk
  · exact .inl (Nat.le_trans (cell_end_le_of_lt hi hkl) (Nat.le_add_right _ _))
  · rcases Nat.lt_trichotomy i j with hij | rfl | hji
    · have hle := columnOffset_mono widths (Nat.succ_le_of_lt hij)
      rw [Nat.succ_eq_add_one, columnOffset_succ hi] at hle
      left
      unfold cell
      omega
    · exact absurd rfl (h rfl)
    · have hle := columnOffset_mono widths (Nat.succ_le_of_lt hji)
      rw [Nat.succ_eq_add_one, columnOffset_succ hj] at hle
      right
      unfold cell
      omega
  · exact .inr (Nat.le_trans (cell_end_le_of_lt hj hlk) (Nat.le_add_right _ _))

end Tables

section Loops

variable {σ : Type u} {ε : Type v}

/-- `for i in [0, n)`. -/
def countTo (f : Nat → σ → Except ε σ) : Nat → σ → Except ε σ
  | 0, s => .ok s
  | n + 1, s => (countTo f n s).bind (f n)

/-- **The rule of the loop.** -/
theorem countTo_rule {f : Nat → σ → Except ε σ} {I : Nat → σ → Prop} {n : Nat} {s : σ} (h0 : I 0 s)
    (hstep : ∀ i < n, ∀ s, I i s → ∃ t, f i s = .ok t ∧ I (i + 1) t) :
    ∃ t, countTo f n s = .ok t ∧ I n t := by
  induction n with
  | zero => exact ⟨s, rfl, h0⟩
  | succ n ih =>
    obtain ⟨u, hu, hI⟩ := ih fun i hi => hstep i (Nat.lt_succ_of_lt hi)
    obtain ⟨t, ht, hI'⟩ := hstep n (Nat.lt_succ_self n) u hI
    refine ⟨t, ?_, hI'⟩
    rw [countTo, hu]
    exact ht

end Loops

end GameServer.Lib
