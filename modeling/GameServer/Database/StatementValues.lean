import GameServer.Lib.Machine
import GameServer.Database.MySqlPreparedStatement

/-!
# What `SetValue` stores

`SetValue` dispatches on the type of the value, and its branches are those of the integers, of
`float`, `double` and `std::string`. A `bool`, a vector of bytes and `nullptr` compile and are
dropped. `values_stored_iff` says that after any calls the parameters are the values of the last
calls, exactly if each value has a branch or is what the parameter holds already.
-/

namespace GameServer.Database

open GameServer.Lib

/-- The alternatives that `SetValue` has a branch for. -/
def PreparedStatementData.HasBranch : PreparedStatementData → Prop
  | integer _ _ | float _ | double _ | string _ => True
  | bool _ | binary _ | null => False

abbrev SetValueCall : Type := Nat × PreparedStatementData

/-- The value of the last call for an index. -/
def lastValue (calls : List SetValueCall) (index : Nat) : Option PreparedStatementData :=
  (calls.reverse.find? fun call => call.1 == index).map Prod.snd

/-- A statement that is filled, and the calls so far. -/
structure Filling where
  stmt : PreparedStatement
  calls : List SetValueCall

/-- Calls of `SetValue` with indices below the number of parameters. -/
def filling (p : PreparedStatement) : Machine Filling SetValueCall where
  init s := s = ⟨p, []⟩
  step s call :=
    if call.1 < p.statementData.length then
      match s.stmt.setValue call.1 call.2 with
      | .ok stmt => some ⟨stmt, s.calls ++ [call]⟩
      | .error _ => none
    else none

namespace Filling

/-- Each parameter is the value of the last call for it, or as it was. -/
def Stored (p : PreparedStatement) (s : Filling) : Prop :=
  ∀ i, s.stmt.statementData[i]? =
    p.statementData[i]?.map fun original => (lastValue s.calls i).getD original

/-- The value has a branch, or the parameter holds it. -/
def Stores (s : Filling) (call : SetValueCall) : Prop :=
  call.2.HasBranch ∨ s.stmt.statementData[call.1]? = some call.2

end Filling

theorem lastValue_append (calls : List SetValueCall) (call : SetValueCall) (i : Nat) :
    lastValue (calls ++ [call]) i = if call.1 = i then some call.2 else lastValue calls i := by
  by_cases h : call.1 = i
  · simp [lastValue, h]
  · simp [lastValue, h, beq_eq_false_iff_ne.2 h]

namespace PreparedStatement

variable {p q : PreparedStatement} {index : Nat} {value : PreparedStatementData}

theorem setValue_of_hasBranch (hindex : index < p.statementData.length)
    (h : value.HasBranch) : p.setValue index value = .ok (p.emplace index value) := by
  unfold setValue
  rw [if_pos hindex]
  cases value <;> first | rfl | exact h.elim

theorem setValue_of_not_hasBranch (hindex : index < p.statementData.length)
    (h : ¬value.HasBranch) : p.setValue index value = .ok p := by
  unfold setValue
  rw [if_pos hindex]
  cases value <;> first | rfl | exact absurd trivial h

end PreparedStatement

namespace Filling

variable {p : PreparedStatement} {s t : Filling} {call : SetValueCall}

theorem Stored.length_eq (h : s.Stored p) :
    s.stmt.statementData.length = p.statementData.length := by
  have hle (i : Nat) : s.stmt.statementData.length ≤ i ↔ p.statementData.length ≤ i := by
    rw [← List.getElem?_eq_none_iff, h i, Option.map_eq_none_iff, List.getElem?_eq_none_iff]
  exact Nat.le_antisymm ((hle _).2 (Nat.le_refl _)) ((hle _).1 (Nat.le_refl _))

/-- One call: the value is stored, or the statement is left as it is. -/
theorem step_eq (h : s.Stored p) (ht : (filling p).step s call = some t) :
    call.1 < p.statementData.length ∧ t.calls = s.calls ++ [call] ∧
      (call.2.HasBranch ∧ t.stmt = s.stmt.emplace call.1 call.2 ∨
        ¬call.2.HasBranch ∧ t.stmt = s.stmt) := by
  simp only [filling] at ht
  split at ht
  · next hindex =>
    refine ⟨hindex, ?_⟩
    rw [← h.length_eq] at hindex
    by_cases hbranch : call.2.HasBranch
    · rw [PreparedStatement.setValue_of_hasBranch hindex hbranch] at ht
      cases ht
      exact ⟨rfl, .inl ⟨hbranch, rfl⟩⟩
    · rw [PreparedStatement.setValue_of_not_hasBranch hindex hbranch] at ht
      cases ht
      exact ⟨rfl, .inr ⟨hbranch, rfl⟩⟩
  · cases ht

/-- What the parameters should be after a call. -/
theorem stored_append_iff (h : s.Stored p) (stmt : PreparedStatement)
    (hindex : call.1 < p.statementData.length) :
    Stored p ⟨stmt, s.calls ++ [call]⟩ ↔ stmt.statementData =
      s.stmt.statementData.set call.1 call.2 := by
  have hexpected (i : Nat) : (s.stmt.statementData.set call.1 call.2)[i]? =
      p.statementData[i]?.map fun original =>
        (lastValue (s.calls ++ [call]) i).getD original := by
    rw [lastValue_append, List.getElem?_set]
    split
    · next heq =>
      subst heq
      rw [if_pos (h.length_eq ▸ hindex), List.getElem?_eq_getElem hindex]
      rfl
    · exact h i
  rw [List.ext_getElem?_iff]
  constructor
  · intro hstored i
    rw [hexpected i]
    exact hstored i
  · intro heq i
    rw [← hexpected i]
    exact heq i

/-- A call keeps the parameters as they should be exactly if it stores its value. -/
theorem stored_step_iff (h : s.Stored p) (ht : (filling p).step s call = some t) :
    t.Stored p ↔ s.Stores call := by
  obtain ⟨hindex, hcalls, hstmt⟩ := step_eq h ht
  have hshape : t = ⟨t.stmt, s.calls ++ [call]⟩ := by
    rw [← hcalls]
  rw [hshape, stored_append_iff h t.stmt hindex]
  rcases hstmt with ⟨hbranch, hstmt⟩ | ⟨hbranch, hstmt⟩
  · refine iff_of_true ?_ (.inl hbranch)
    rw [hstmt]
    rfl
  · rw [hstmt]
    have hlt : call.1 < s.stmt.statementData.length := h.length_eq ▸ hindex
    constructor
    · intro hset
      right
      rw [hset, List.getElem?_set_self hlt]
    · intro hstores
      have hheld := hstores.resolve_left hbranch
      obtain ⟨_, hheld⟩ := List.getElem?_eq_some_iff.1 hheld
      rw [← hheld, List.set_getElem_self]

end Filling

/-- **The values of the last calls.** In every state of a run of calls the parameters hold the
values of the last calls, and the others are as they were, exactly if the value of each call has a
branch or is what its parameter holds. -/
theorem values_stored_iff (p : PreparedStatement) (calls : List SetValueCall) :
    (filling p).Along (Filling.Stored p) ⟨p, []⟩ calls ↔
      (filling p).Meets Filling.Stores ⟨p, []⟩ calls := by
  refine Machine.along_iff_meets (I := Filling.Stored p) (fun _ h => h) ?_ ?_ ?_
  · intro s call t hs hc ht
    exact (Filling.stored_step_iff hs ht).2 hc
  · intro s call t hs hc ht hstored
    exact hc ((Filling.stored_step_iff hs ht).1 hstored)
  · intro i
    simp [lastValue]

/-- `SetValue` of `true`: the parameter stays `false`. -/
theorem bool_dropped : ¬∀ p s, (filling p).Reach s → s.Stored p := by
  intro h
  have hrun : (filling (.ofCapacity 0 1 (by decide))).run ⟨.ofCapacity 0 1 (by decide), []⟩
      [(0, .bool true)] = some ⟨.ofCapacity 0 1 (by decide), [(0, .bool true)]⟩ := rfl
  have hstored := h _ _ (Machine.reach_of_run rfl hrun) 0
  exact absurd hstored (by decide)

end GameServer.Database
