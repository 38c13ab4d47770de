import GameServer.Lib.Exec

/-!
# Vectors whose elements are moved

What a move does to an object is a parameter (`Moves`): the object that is made or assigned to, and
what is left of the source. `emplaceBack` and `insertEnd` move the elements of a vector that grows,
and `removeIf` is `std::remove_if` followed by `erase`, for a predicate that gets its element by
reference, changes a state and may stop.

Where a move carries the whole object (`Moves.Whole`), `removeIf` is a filter: the predicate is
asked about each element, in order, and what it answers with false about stays (`removeIf_eq`).
-/

namespace GameServer.Lib

open Exec

universe u

structure Moves (κ : Type u) where
  /-- The object that the move constructor makes. -/
  construct : κ → κ
  /-- The target of an assignment from a moved object. -/
  assign : κ → κ → κ
  /-- What is left of the source. -/
  source : κ → κ

/-- A move carries the whole object. -/
structure Moves.Whole {κ : Type u} (m : Moves κ) : Prop where
  construct : ∀ right, m.construct right = right
  assign : ∀ target right, m.assign target right = right

structure MoveVector (κ : Type u) where
  elements : List κ
  capacity : Nat

namespace MoveVector

variable {κ : Type u} (m : Moves κ) (growth : Nat → Nat) (v : MoveVector κ)

/-- What is left of a vector that is moved from. -/
def stolen : MoveVector κ := ⟨[], 0⟩

/-- A full vector moves its elements to a new one, with the capacity that `growth` asks for. -/
def emplaceBack (right : κ) : MoveVector κ :=
  if v.elements.length < v.capacity then { v with elements := v.elements ++ [m.construct right] }
  else
    { elements := v.elements.map m.construct ++ [m.construct right]
      capacity := max (v.elements.length + 1) (growth v.capacity) }

/-- `insert` at the end, of elements that are moved from. -/
def insertEnd (elements : List κ) : MoveVector κ :=
  if v.elements.length + elements.length ≤ v.capacity then
    { v with elements := v.elements ++ elements.map m.construct }
  else
    { elements := v.elements.map m.construct ++ elements.map m.construct
      capacity := max (v.elements.length + elements.length) (growth v.capacity) }

variable {m growth v}

theorem emplaceBack_elements (h : m.Whole) (right : κ) :
    (v.emplaceBack m growth right).elements = v.elements ++ [right] := by
  have hid : m.construct = id := funext h.construct
  unfold emplaceBack
  split <;> simp [hid]

theorem insertEnd_elements (h : m.Whole) (elements : List κ) :
    (v.insertEnd m growth elements).elements = v.elements ++ elements := by
  have hid : m.construct = id := funext h.construct
  unfold insertEnd
  split <;> simp [hid]

/-- What a move leaves as it is, in the order of the vector. -/
theorem map_emplaceBack {β : Type u} {f : κ → β} (h : ∀ c, f (m.construct c) = f c) (right : κ) :
    (v.emplaceBack m growth right).elements.map f = v.elements.map f ++ [f right] := by
  have hcomp : f ∘ m.construct = f := funext h
  unfold emplaceBack
  split <;> simp [hcomp, h]

end MoveVector

section RemoveIf

variable {κ ε σ : Type u}

/-- `std::remove_if` and `erase`. The predicate gives its answer and the element after the call. The
holes are the elements already passed that later ones are assigned to, the first one first. -/
def removeIf (m : Moves κ) (pred : κ → EStateM ε σ (Bool × κ)) (holes : List κ) :
    List κ → EStateM ε σ (List κ)
  | [] => pure []
  | c :: cs => do
    let (answer, c) ← pred c
    if answer then removeIf m pred (holes ++ [c]) cs
    else
      match holes with
      | [] => do
        -- nothing was removed so far: the element stays where it is
        let kept ← removeIf m pred [] cs
        pure (c :: kept)
      | hole :: holes => do
        let kept ← removeIf m pred (holes ++ [m.source c]) cs
        pure (m.assign hole c :: kept)

/-- What the predicate answers with false about. -/
def keepUnless (pred : κ → EStateM ε σ (Bool × κ)) : List κ → EStateM ε σ (List κ)
  | [] => pure []
  | c :: cs => do
    let (answer, c) ← pred c
    let kept ← keepUnless pred cs
    pure (if answer then kept else c :: kept)

variable {m : Moves κ} {pred : κ → EStateM ε σ (Bool × κ)}

/-- **Removing is filtering.** -/
theorem removeIf_eq (h : m.Whole) (holes cs : List κ) :
    removeIf m pred holes cs = keepUnless pred cs := by
  induction cs generalizing holes with
  | nil => rfl
  | cons c cs ih =>
    unfold removeIf keepUnless
    apply bind_congr
    rintro ⟨answer, c⟩
    cases answer with
    | true =>
      simp only [if_true, ih, bind_pure]
    | false =>
      cases holes with
      | nil => simp only [Bool.false_eq_true, if_false, ih]
      | cons hole holes => simp only [Bool.false_eq_true, if_false, ih, h.assign]

/-- What each call of the predicate keeps, removing keeps, also where it stops. -/
theorem removeIf_keeps {R : σ → σ → Prop} (hR : ∀ s, R s s) (hT : ∀ s t u, R s t → R t u → R s u)
    (hpred : ∀ c, Keeps R (pred c)) (holes cs : List κ) :
    Keeps R (removeIf m pred holes cs) := by
  induction cs generalizing holes with
  | nil => exact .of_pure hR _
  | cons c cs ih =>
    refine .bind hT (hpred c) fun r => .ite (ih _) ?_
    cases holes with
    | nil => exact .bind hT (ih _) fun _ => .of_pure hR _
    | cons hole holes => exact .bind hT (ih _) fun _ => .of_pure hR _

end RemoveIf

end GameServer.Lib
