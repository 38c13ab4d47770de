import Mathlib.Data.List.Perm.Basic
import GameServer.Lib.Exec

/-!
# A free store

Blocks are allocated at fresh addresses, and `free` stops with a fault on an address whose block was
freed already or never was: a program that does not stop frees nothing twice.

`Ledger m held lost` is the account of the live blocks: those that somebody holds, each held once,
and those that were lost. Allocating adds to the blocks that are held, freeing takes one of them
away, and an address that is forgotten loses its block.
-/

namespace GameServer.Lib

universe u

structure FreeStore (β : Type u) where
  blocks : List (Option β)

namespace FreeStore

variable {β : Type u}

def empty : FreeStore β := ⟨[]⟩

/-- The live block at an address. -/
def read (m : FreeStore β) (a : Nat) : Option β := m.blocks[a]?.join

/-- The address of the next block. -/
def next (m : FreeStore β) : Nat := m.blocks.length

def allocate (m : FreeStore β) (b : β) : FreeStore β := ⟨m.blocks ++ [some b]⟩

def free (m : FreeStore β) (a : Nat) : Except Halt (FreeStore β) :=
  if (m.read a).isSome then .ok ⟨m.blocks.set a none⟩ else .error .fault

/-- How many blocks are live. -/
def live (m : FreeStore β) : Nat := m.blocks.countP Option.isSome

variable {m m' : FreeStore β} {a c : Nat} {b : β} {held held' : List Nat} {lost : Nat}

theorem read_eq_some : m.read a = some b ↔ m.blocks[a]? = some (some b) := by
  unfold read
  cases m.blocks[a]? with
  | none => simp
  | some b => simp

theorem lt_next_of_read (h : (m.read a).isSome) : a < m.next := by
  obtain ⟨b, hb⟩ := Option.isSome_iff_exists.1 h
  exact (List.getElem?_eq_some_iff.1 (read_eq_some.1 hb)).1

@[simp] theorem read_allocate_self (m : FreeStore β) (b : β) :
    (m.allocate b).read m.next = some b := by
  rw [read_eq_some]
  exact List.getElem?_concat_length

theorem read_allocate_of_lt (h : a < m.next) (b : β) : (m.allocate b).read a = m.read a := by
  unfold read allocate
  rw [List.getElem?_append_left h]

theorem read_allocate (h : (m.read a).isSome) (b : β) : (m.allocate b).read a = m.read a :=
  read_allocate_of_lt (lt_next_of_read h) b

@[simp] theorem live_allocate (m : FreeStore β) (b : β) : (m.allocate b).live = m.live + 1 := by
  simp [live, allocate, List.countP_append]

/-- A live block can be freed, and the others stay what they are. -/
theorem exists_free (h : (m.read a).isSome) : ∃ m', m.free a = .ok m' ∧ m'.live + 1 = m.live ∧
    ∀ c, c ≠ a → m'.read c = m.read c := by
  obtain ⟨b, hb⟩ := Option.isSome_iff_exists.1 h
  obtain ⟨hlt, hget⟩ := List.getElem?_eq_some_iff.1 (read_eq_some.1 hb)
  refine ⟨⟨m.blocks.set a none⟩, if_pos h, ?_, fun c hc => ?_⟩
  · have hpos : 0 < m.blocks.countP Option.isSome :=
      List.countP_pos_iff.2 ⟨_, List.getElem_mem hlt, by rw [hget]; rfl⟩
    unfold live
    rw [List.countP_set hlt, hget]
    simp
    omega
  · unfold read
    rw [List.getElem?_set_ne (Ne.symm hc)]

/-! ## The ledger -/

/-- The live blocks are held at these addresses, each by one, or lost. -/
structure Ledger (m : FreeStore β) (held : List Nat) (lost : Nat) : Prop where
  reads : ∀ a ∈ held, (m.read a).isSome
  nodup : held.Nodup
  live : m.live = held.length + lost

namespace Ledger

theorem empty : Ledger (FreeStore.empty : FreeStore β) [] 0 :=
  ⟨fun _ h => absurd h List.not_mem_nil, List.nodup_nil, rfl⟩

theorem perm (h : Ledger m held lost) (hp : held.Perm held') : Ledger m held' lost :=
  ⟨fun a ha => h.reads a (hp.mem_iff.2 ha), hp.nodup h.nodup, by rw [h.live, hp.length_eq]⟩

theorem allocate (h : Ledger m held lost) (b : β) :
    Ledger (m.allocate b) (m.next :: held) lost := by
  refine ⟨?_, ?_, ?_⟩
  · intro a ha
    rcases List.mem_cons.1 ha with rfl | ha
    · rw [read_allocate_self]
      rfl
    · rw [read_allocate (h.reads a ha)]
      exact h.reads a ha
  · refine List.nodup_cons.2 ⟨fun hmem => ?_, h.nodup⟩
    exact Nat.lt_irrefl _ (lt_next_of_read (h.reads _ hmem))
  · rw [live_allocate, h.live, List.length_cons]
    omega

/-- A block that is held can be freed. -/
theorem free (h : Ledger m (a :: held) lost) : ∃ m', m.free a = .ok m' ∧ Ledger m' held lost ∧
    ∀ c ∈ held, m'.read c = m.read c := by
  obtain ⟨hnot, hnodup⟩ := List.nodup_cons.1 h.nodup
  obtain ⟨m', hfree, hlive, hread⟩ := exists_free (h.reads a List.mem_cons_self)
  have hsame : ∀ c ∈ held, m'.read c = m.read c := fun c hc =>
    hread c fun hca => hnot (hca ▸ hc)
  refine ⟨m', hfree, ⟨fun c hc => ?_, hnodup, ?_⟩, hsame⟩
  · rw [hsame c hc]
    exact h.reads c (List.mem_cons_of_mem a hc)
  · have hcount := h.live
    rw [List.length_cons] at hcount
    omega

/-- Forgetting an address loses its block. -/
theorem forget (h : Ledger m (a :: held) lost) : Ledger m held (lost + 1) := by
  obtain ⟨-, hnodup⟩ := List.nodup_cons.1 h.nodup
  refine ⟨fun c hc => h.reads c (List.mem_cons_of_mem a hc), hnodup, ?_⟩
  rw [h.live, List.length_cons]
  omega

/-- The addresses that one owner holds, and those of the others. -/
theorem exists_others {α : Type*} (f : α → List Nat) {l : List α} {i : Nat} {x : α}
    (h : l[i]? = some x) : ∃ others, (l.flatMap f).Perm (f x ++ others) ∧
      ∀ y, ((l.set i y).flatMap f).Perm (f y ++ others) := by
  obtain ⟨hlt, rfl⟩ := List.getElem?_eq_some_iff.1 h
  refine ⟨(l.take i).flatMap f ++ (l.drop (i + 1)).flatMap f, ?_, fun y => ?_⟩
  · conv_lhs => rw [← List.take_append_drop i l, List.drop_eq_getElem_cons hlt]
    rw [List.flatMap_append, List.flatMap_cons]
    exact List.perm_append_comm_assoc _ _ _
  · rw [List.set_eq_take_append_cons_drop, if_pos hlt, List.flatMap_append, List.flatMap_cons]
    exact List.perm_append_comm_assoc _ _ _

end Ledger

/-! ## Pointers -/

/-- `delete`: on a null pointer it does nothing. -/
def delete (m : FreeStore β) : Option Nat → Except Halt (FreeStore β)
  | none => .ok m
  | some a => m.free a

theorem Ledger.delete {p : Option Nat} (h : Ledger m (p.toList ++ held) lost) :
    ∃ m', m.delete p = .ok m' ∧ Ledger m' held lost ∧ ∀ c ∈ held, m'.read c = m.read c := by
  cases p with
  | none => exact ⟨m, rfl, h, fun _ _ => rfl⟩
  | some a => exact h.free

/-- A pointer that is overwritten loses its block, if it had one. -/
theorem Ledger.overwrite {p : Option Nat} (h : Ledger m (p.toList ++ held) lost) :
    Ledger m held (lost + if p.isSome then 1 else 0) := by
  cases p with
  | none => exact h
  | some a => exact h.forget

/-! ## Freed addresses -/

/-- The block at the address was freed. -/
def Dead (m : FreeStore β) (a : Nat) : Prop := a < m.next ∧ m.read a = none

/-- What was freed in the one store is freed in the other. -/
def Later (m m' : FreeStore β) : Prop := ∀ a, m.Dead a → m'.Dead a

/-- Freeing twice is a fault. -/
theorem free_of_dead (h : m.Dead a) : m.free a = .error .fault := by
  unfold free
  rw [h.2]
  rfl

namespace Later

theorem refl (m : FreeStore β) : Later m m := fun _ h => h

theorem trans {m₁ m₂ m₃ : FreeStore β} (h₁ : Later m₁ m₂) (h₂ : Later m₂ m₃) : Later m₁ m₃ :=
  fun a h => h₂ a (h₁ a h)

/-- An address is not used again. -/
theorem allocate (m : FreeStore β) (b : β) : Later m (m.allocate b) := by
  rintro a ⟨hlt, hnone⟩
  refine ⟨?_, (read_allocate_of_lt hlt b).trans hnone⟩
  simp only [next, FreeStore.allocate, List.length_append] at hlt ⊢
  omega

end Later

theorem later_free (h : m.free a = .ok m') : Later m m' ∧ m'.Dead a := by
  unfold FreeStore.free at h
  split at h
  · next hsome =>
    cases h
    have hlt := lt_next_of_read hsome
    constructor
    · rintro c ⟨hc, hnone⟩
      have hca : a ≠ c := by
        rintro rfl
        rw [hnone] at hsome
        cases hsome
      refine ⟨by rwa [next, List.length_set], ?_⟩
      unfold read at hnone ⊢
      rwa [List.getElem?_set_ne hca]
    · refine ⟨by rwa [next, List.length_set], ?_⟩
      unfold read
      rw [List.getElem?_set_self hlt]
      rfl
  · cases h

theorem later_delete {p : Option Nat} (h : m.delete p = .ok m') :
    Later m m' ∧ ∀ a, p = some a → m'.Dead a := by
  cases p with
  | none =>
    cases h
    refine ⟨.refl m, fun a ha => ?_⟩
    cases ha
  | some a =>
    obtain ⟨hlater, hdead⟩ := later_free h
    refine ⟨hlater, fun c hc => ?_⟩
    cases hc
    exact hdead

end FreeStore

end GameServer.Lib
