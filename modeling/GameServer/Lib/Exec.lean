import Mathlib.Data.List.Basic

/-!
# Programs over a state that can stop

`EStateM ε σ α` is a program that reads and writes a state `σ` and either returns or stops with
an `ε`; the state it stopped in is kept. `Halt` names the reasons a process has for stopping, `Stop`
adds exceptions.

* `bind_eq_ok` and its companions take a run that returned apart, statement by statement.
* `Keeps R x` is a two-state frame: whether `x` returns or stops, its first and last state are
  related by `R`. For a preorder `R` it is closed under the program constructs.
-/

namespace GameServer.Lib

universe u

/-- Why a run does not return. -/
inductive Halt where
  /-- `std::abort`, also from a failed `Assert`. -/
  | abort
  /-- Undefined behaviour: the language gives the program no meaning from here on. -/
  | fault
  /-- The recursion or the loop was cut off. -/
  | diverged
  deriving DecidableEq, Repr

/-- What a call stops with: the process ends, or an exception is thrown. -/
inductive Stop (ε : Type) where
  | halt (h : Halt)
  | exception (e : ε)
  deriving DecidableEq, Repr

variable {ε σ α β : Type u}

namespace Exec

/-! ## Runs that returned -/

theorem bind_eq_ok {x : EStateM ε σ α} {f : α → EStateM ε σ β} {s t : σ} {b : β} :
    (x >>= f) s = .ok b t ↔ ∃ a u, x s = .ok a u ∧ f a u = .ok b t := by
  change EStateM.bind x f s = .ok b t ↔ _
  unfold EStateM.bind
  cases x s <;> simp

@[simp] theorem pure_apply (a : α) (s : σ) : (pure a : EStateM ε σ α) s = .ok a s := rfl

/-- What follows a run that returned. -/
theorem bind_of_ok {x : EStateM ε σ α} {f : α → EStateM ε σ β} {s t : σ} {a : α}
    (h : x s = .ok a t) : (x >>= f) s = f a t := by
  change EStateM.bind x f s = _
  unfold EStateM.bind
  rw [h]

/-- Nothing follows a run that stopped. -/
theorem bind_of_error {x : EStateM ε σ α} {f : α → EStateM ε σ β} {s t : σ} {e : ε}
    (h : x s = .error e t) : (x >>= f) s = .error e t := by
  change EStateM.bind x f s = _
  unfold EStateM.bind
  rw [h]

theorem bind_eq_error {x : EStateM ε σ α} {f : α → EStateM ε σ β} {s t : σ} {e : ε} :
    (x >>= f) s = .error e t ↔
      x s = .error e t ∨ ∃ a u, x s = .ok a u ∧ f a u = .error e t := by
  cases hx : x s with
  | ok a u => simp [bind_of_ok hx]
  | error e' u => simp [bind_of_error hx]

@[simp] theorem get_bind (f : σ → EStateM ε σ β) (s : σ) : (get >>= f) s = f s s := rfl

@[simp] theorem modify_bind (g : σ → σ) (f : PUnit → EStateM ε σ β) (s : σ) :
    (modify g >>= f) s = f ⟨⟩ (g s) := rfl

/-! ## Two-state frames -/

def last : EStateM.Result ε σ α → σ
  | .ok _ s => s
  | .error _ s => s

/-- Every run of `x` relates its first state to its last. -/
def Keeps (R : σ → σ → Prop) (x : EStateM ε σ α) : Prop := ∀ s, R s (last (x s))

namespace Keeps

variable {R : σ → σ → Prop}

theorem ok {x : EStateM ε σ α} (h : Keeps R x) {s t : σ} {a : α} (hx : x s = .ok a t) :
    R s t := by
  have := h s
  rwa [hx] at this

theorem of_modify {f : σ → σ} (h : ∀ s, R s (f s)) :
    Keeps R (modify f : EStateM ε σ PUnit) := h

theorem of_pure (hR : ∀ s, R s s) (a : α) : Keeps R (pure a : EStateM ε σ α) := fun s => hR s

theorem of_get (hR : ∀ s, R s s) : Keeps R (get : EStateM ε σ σ) := fun s => hR s

theorem of_throw (hR : ∀ s, R s s) (e : ε) : Keeps R (throw e : EStateM ε σ α) := fun s => hR s

theorem bind (hT : ∀ s t u, R s t → R t u → R s u) {x : EStateM ε σ α}
    {f : α → EStateM ε σ β} (hx : Keeps R x) (hf : ∀ a, Keeps R (f a)) : Keeps R (x >>= f) := by
  intro s
  have h₁ := hx s
  cases hr : x s with
  | ok a t =>
    rw [bind_of_ok hr]
    rw [hr] at h₁
    exact hT _ _ _ h₁ (hf a t)
  | error e t =>
    rw [bind_of_error hr]
    rwa [hr] at h₁

theorem ite {c : Prop} [Decidable c] {x y : EStateM ε σ α} (hx : Keeps R x) (hy : Keeps R y) :
    Keeps R (if c then x else y) := by
  split
  · exact hx
  · exact hy

theorem forM_mem (hR : ∀ s, R s s) (hT : ∀ s t u, R s t → R t u → R s u) {l : List β}
    {f : β → EStateM ε σ PUnit} (hf : ∀ b ∈ l, Keeps R (f b)) : Keeps R (l.forM f) := by
  induction l with
  | nil => exact of_pure hR _
  | cons b l ih =>
    have hrest : Keeps R (l.forM f) := ih fun c hc => hf c (List.mem_cons_of_mem b hc)
    exact bind hT (hf b List.mem_cons_self) fun _ => hrest

theorem forM (hR : ∀ s, R s s) (hT : ∀ s t u, R s t → R t u → R s u) {l : List β}
    {f : β → EStateM ε σ PUnit} (hf : ∀ b, Keeps R (f b)) : Keeps R (l.forM f) :=
  forM_mem hR hT fun b _ => hf b

end Keeps

end Exec

end GameServer.Lib
