import GameServer.Lib.Exec

/-!
# Cursors over rows

A cursor that has been placed on a row shows it and moves on to the next. `visit` is the loop
`do … while` over it. `Stands s row rows` says that the cursor is on `row` and has `rows` before it,
and then the loop visits just these.
-/

namespace GameServer.Lib

universe u v

/-- How to show the row of a state, and how to move on; moving on reports whether there was a next
row. -/
structure Cursor (σ : Type u) (ρ : Type v) where
  fetch : σ → Except Halt ρ
  nextRow : σ → Except Halt (Bool × σ)

namespace Cursor

variable {σ : Type u} {ρ : Type v} (c : Cursor σ ρ)

/-- `do { fetch } while (nextRow)`, with the number of turns after which it is cut off. -/
def visit : Nat → σ → Except Halt (List ρ)
  | 0, _ => .error .diverged
  | fuel + 1, s =>
    match c.fetch s with
    | .error halt => .error halt
    | .ok row =>
      match c.nextRow s with
      | .error halt => .error halt
      | .ok (false, _) => .ok [row]
      | .ok (true, t) => (visit fuel t).map (row :: ·)

inductive Stands : σ → ρ → List ρ → Prop
  | last {s t : σ} {row : ρ} (hfetch : c.fetch s = .ok row) (hnext : c.nextRow s = .ok (false, t)) :
    Stands s row []
  | more {s t : σ} {row next : ρ} {rows : List ρ} (hfetch : c.fetch s = .ok row)
    (hnext : c.nextRow s = .ok (true, t)) (htail : Stands t next rows) :
    Stands s row (next :: rows)

variable {c} {s : σ} {row : ρ} {rows : List ρ}

/-- **The rule of the loop.** It ends, and its turns see the rows one after the other. -/
theorem Stands.visit_eq (h : c.Stands s row rows) (more : Nat) :
    c.visit (rows.length + 1 + more) s = .ok (row :: rows) := by
  induction h with
  | last hfetch hnext =>
    rw [List.length_nil, Nat.add_right_comm, visit, hfetch, hnext]
  | more hfetch hnext htail ih =>
    rw [List.length_cons, Nat.add_right_comm, visit, hfetch, hnext]
    dsimp only
    rw [Nat.add_right_comm, Nat.add_right_comm, ih]
    rfl

end Cursor

end GameServer.Lib
