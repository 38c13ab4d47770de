import GameServer.Lib.Machine
import GameServer.Lib.Moves

/-!
# `AsyncCallbackProcessor`

The processor of an arbitrary `Callback` type: its moves and its `InvokeIfReady` are a
`CallbackType`. `InvokeIfReady` changes the callback it is called on, may change the world around
the processor, may add callbacks to the same processor, and may throw.

Registrations are numbered in the order of `AddCallback`, and the number goes where the callback is
moved to; `polls` lists the calls of `InvokeIfReady`. The code has neither.
-/

namespace GameServer.Util

open GameServer.Lib

/-- A call of `InvokeIfReady`: its result, the callback after it, the callbacks that were added to
the processor meanwhile, and the world. -/
structure Invoked (κ σ ε : Type) where
  outcome : Except (Stop ε) Bool
  self : κ
  added : List κ
  world : σ

structure CallbackType (κ σ ε : Type) where
  moves : Moves κ
  invokeIfReady : κ → σ → Invoked κ σ ε

structure Registration (κ : Type) where
  number : Nat
  callback : κ
  deriving DecidableEq, Repr

/-- A call of `InvokeIfReady`: what it returned, if it did. -/
structure Poll where
  number : Nat
  result : Option Bool
  deriving DecidableEq, Repr

/-- A processor and the world around it. -/
structure Processing (κ σ : Type) where
  /-- `_callbacks`. -/
  callbacks : MoveVector (Registration κ)
  world : σ
  registered : Nat
  polls : List Poll

section Code

variable {κ σ ε : Type} (T : CallbackType κ σ ε) (growth : Nat → Nat)

/-- Moving a registered callback. -/
def CallbackType.registrationMoves : Moves (Registration κ) where
  construct right := { right with callback := T.moves.construct right.callback }
  assign target right :=
    { right with callback := T.moves.assign target.callback right.callback }
  source right := { right with callback := T.moves.source right.callback }

def Processing.initial (world : σ) : Processing κ σ := ⟨.stolen, world, 0, []⟩

def addCallback (s : Processing κ σ) (callback : κ) : Processing κ σ :=
  { s with
    callbacks := s.callbacks.emplaceBack T.registrationMoves growth ⟨s.registered, callback⟩
    registered := s.registered + 1 }

/-- The predicate of `remove_if`. -/
def poll (c : Registration κ) :
    EStateM (Stop ε) (Processing κ σ) (Bool × Registration κ) := fun s =>
  let r := T.invokeIfReady c.callback s.world
  let s := r.added.foldl (addCallback T growth) s
  match r.outcome with
  | .ok done =>
    .ok (done, { c with callback := r.self })
      { s with world := r.world, polls := s.polls ++ [⟨c.number, some done⟩] }
  | .error e => .error e { s with world := r.world, polls := s.polls ++ [⟨c.number, none⟩] }

/-- `ProcessReadyCallbacks`. Where the pass is left by an exception, the vector it works on is
destroyed. -/
def processReadyCallbacks : EStateM (Stop ε) (Processing κ σ) Unit := do
  let s ← get
  if s.callbacks.elements.isEmpty then pure ()
  else
    modify fun s => { s with callbacks := .stolen }
    let kept ← removeIf T.registrationMoves (poll T growth) [] s.callbacks.elements
    modify fun s =>
      { s with callbacks := s.callbacks.insertEnd T.registrationMoves growth kept }

end Code

/-! ## Runs -/

/-- What happens at a processor; `elapse` is whatever changes the world outside of it. -/
inductive ProcessorEvent (κ σ : Type) where
  | addCallback (callback : κ)
  | processReadyCallbacks
  | elapse (world : σ)

/-- A pass that is left by an exception ends the run. -/
def callbackRuns {κ σ ε : Type} (T : CallbackType κ σ ε) (growth : Nat → Nat) :
    Machine (Processing κ σ) (ProcessorEvent κ σ) where
  init s := ∃ world, s = .initial world
  step s
    | .addCallback callback => some (addCallback T growth s callback)
    | .processReadyCallbacks =>
      match processReadyCallbacks T growth s with
      | .ok _ t => some t
      | .error _ _ => none
    | .elapse world => some { s with world }

/-! ## What a pass does to the callbacks -/

section Polling

variable {κ σ ε : Type} {T : CallbackType κ σ ε} {growth : Nat → Nat}

/-- Registrations numbered from `n` on. -/
def numbered (n : Nat) : List κ → List (Registration κ)
  | [] => []
  | c :: cs => ⟨n, c⟩ :: numbered (n + 1) cs

/-- `InvokeIfReady` is called on each callback in order: the callbacks after their calls with what
these returned, and what was added. -/
inductive Polled (T : CallbackType κ σ ε) : List (Registration κ) → σ →
    List (Registration κ × Bool) → List κ → σ → Prop
  | nil {w : σ} : Polled T [] w [] [] w
  | cons {c : Registration κ} {cs : List (Registration κ)} {w w' : σ} {done : Bool}
      {results : List (Registration κ × Bool)} {added : List κ}
      (h : (T.invokeIfReady c.callback w).outcome = .ok done)
      (rest : Polled T cs (T.invokeIfReady c.callback w).world results added w') :
      Polled T (c :: cs) w
        (({ c with callback := (T.invokeIfReady c.callback w).self }, done) :: results)
        ((T.invokeIfReady c.callback w).added ++ added) w'

/-- The calls, as they are listed. -/
def pollsOf (results : List (Registration κ × Bool)) : List Poll :=
  results.map fun r => ⟨r.1.number, some r.2⟩

/-- The callbacks that returned false. -/
def survivors (results : List (Registration κ × Bool)) : List (Registration κ) :=
  (results.filter fun r => !r.2).map Prod.fst

theorem Polled.numbers {cs : List (Registration κ)} {w w' : σ}
    {results : List (Registration κ × Bool)} {added : List κ}
    (h : Polled T cs w results added w') :
    results.map (fun r => r.1.number) = cs.map Registration.number := by
  induction h with
  | nil => rfl
  | cons h rest ih => simp [ih]

theorem numbers_numbered (n : Nat) (cs : List κ) :
    (numbered n cs).map Registration.number = List.range' n cs.length := by
  induction cs generalizing n with
  | nil => rfl
  | cons c cs ih => simp [numbered, ih, List.range'_succ]

theorem numbered_append (n : Nat) (cs ds : List κ) :
    numbered n (cs ++ ds) = numbered n cs ++ numbered (n + cs.length) ds := by
  induction cs generalizing n with
  | nil => rfl
  | cons c cs ih =>
    rw [List.cons_append, numbered, ih, numbered, List.cons_append, List.length_cons,
      Nat.add_comm cs.length, Nat.add_assoc]

/-! ### Adding -/

theorem addCallback_numbers (s : Processing κ σ) (callback : κ) :
    (addCallback T growth s callback).callbacks.elements.map Registration.number =
      s.callbacks.elements.map Registration.number ++ [s.registered] :=
  MoveVector.map_emplaceBack (fun _ => rfl) _

theorem foldl_addCallback_numbers (T : CallbackType κ σ ε) (growth : Nat → Nat)
    (s : Processing κ σ) (added : List κ) :
    (added.foldl (addCallback T growth) s).callbacks.elements.map Registration.number =
        s.callbacks.elements.map Registration.number ++
          List.range' s.registered added.length ∧
      (added.foldl (addCallback T growth) s).registered = s.registered + added.length ∧
      (added.foldl (addCallback T growth) s).world = s.world ∧
      (added.foldl (addCallback T growth) s).polls = s.polls := by
  induction added generalizing s with
  | nil => simp
  | cons c added ih =>
    obtain ⟨hnumbers, hregistered, hworld, hpolls⟩ := ih (addCallback T growth s c)
    refine ⟨?_, ?_, hworld, hpolls⟩
    · rw [List.foldl_cons, hnumbers, addCallback_numbers, List.length_cons, List.range'_succ,
        List.append_assoc]
      rfl
    · rw [List.foldl_cons, hregistered, List.length_cons]
      change s.registered + 1 + _ = _
      omega

end Polling

end GameServer.Util
