import GameServer.Lib.Positions
import GameServer.Util.StringTo
import GameServer.Database.MySqlPreparedStatement

/-!
# The text of a prepared statement with its parameters

`GetSqlString` goes over the parameters with a position in the text: the next `?` from there is
replaced in place, and the position moves behind what was put in. The loop reads the text behind the
position only, so it puts the parameters in for the `?` of the original text, whatever they look
like (`replaceParams_eq`), and `replace` throws exactly if there are more parameters than `?`
(`replaceParams_isOk_iff`).
-/

namespace GameServer.Database

open GameServer.Lib GameServer.Http GameServer.Util

/-- A `float` or `double` as a `bool`: only the two zeros are false. The bits without the sign. -/
def floatToBool (magnitude : Nat) : Bool := magnitude != 0

namespace PreparedStatementData

/-- `ToString(bool)`: `std::format` of a `uint8_t`. -/
def boolToString (value : Bool) : Bytes := decimalText 0 (if value then 1 else 0)

/-- `PreparedStatementData::ToString` of the value that is visited. It is an lvalue, for which the
template does not stand, as a reference type has no standard layout; the numbers are converted to
`bool`. A string is read up to its first zero byte. -/
def toString : PreparedStatementData → Bytes
  | bool value => boolToString value
  | integer _ value => boolToString (value.val != 0)
  | float bits => boolToString (floatToBool (bits.toNat % 0x80000000))
  | double bits => boolToString (floatToBool (bits.toNat % 0x8000000000000000))
  | string value => value.takeWhile (· != 0)
  | binary _ => bytes "BINARY"
  | null => bytes "NULL"

end PreparedStatementData

/-- The loop of `GetSqlString` over the texts of the parameters. -/
def replaceParams (sqlString : Bytes) (pos : Nat) : List Bytes → Except OutOfRange Bytes
  | [] => .ok sqlString
  | replaceStr :: rest =>
    let found := Positions.find 0x3f sqlString pos
    match Positions.replace sqlString found 1 replaceStr with
    | .error e => .error e
    | .ok sqlString => replaceParams sqlString (toSize found + replaceStr.length) rest

/-- `GetSqlString`. -/
def getSqlString (sqlString : Bytes) (pStmt : PreparedStatement) : Except OutOfRange Bytes :=
  replaceParams sqlString 0 (pStmt.statementData.map PreparedStatementData.toString)

/-- The text with the first `?` replaced by the first of the texts, the second one by the second, and
so on. -/
def substitute : Bytes → List Bytes → Bytes
  | [], _ => []
  | s, [] => s
  | c :: s, r :: rs => if c = 0x3f then r ++ substitute s rs else c :: substitute s (r :: rs)

/-! ## Substitution -/

@[simp] theorem substitute_nil (s : Bytes) : substitute s [] = s := by
  cases s <;> rfl

theorem substitute_append {before : Bytes} (hbefore : 0x3f ∉ before) (rest r : Bytes)
    (rs : List Bytes) :
    substitute (before ++ 0x3f :: rest) (r :: rs) = before ++ (r ++ substitute rest rs) := by
  induction before with
  | nil => rw [List.nil_append, List.nil_append, substitute, if_pos rfl]
  | cons c before ih =>
    obtain ⟨hc, hbefore⟩ := not_or.1 (mt List.mem_cons.2 hbefore)
    rw [List.cons_append, substitute, if_neg (Ne.symm hc), ih hbefore, List.cons_append]

/-- **What is substituted**: each text stands where a `?` was, between the same pieces. -/
theorem substitute_pieces {parts : List (Bytes × Bytes)} (hparts : ∀ part ∈ parts, 0x3f ∉ part.1)
    (rest : Bytes) :
    substitute ((parts.flatMap fun part => part.1 ++ [0x3f]) ++ rest) (parts.map Prod.snd) =
      (parts.flatMap fun part => part.1 ++ part.2) ++ rest := by
  induction parts with
  | nil => exact substitute_nil rest
  | cons part parts ih =>
    have hrest := ih fun part hpart => hparts part (List.mem_cons_of_mem _ hpart)
    simp only [List.flatMap_cons, List.map_cons, List.append_assoc, List.nil_append,
      List.cons_append] at hrest ⊢
    rw [substitute_append (hparts part List.mem_cons_self), hrest]

/-! ## The loop -/

/-- **The loop**, with `done` the text before the position. -/
theorem replaceParams_append (done todo : Bytes) {rs : List Bytes}
    (h : rs.length ≤ todo.count 0x3f) :
    replaceParams (done ++ todo) done.length rs = .ok (done ++ substitute todo rs) := by
  induction rs generalizing done todo with
  | nil => rw [substitute_nil, replaceParams]
  | cons r rs ih =>
    have hmem : 0x3f ∈ todo := by
      rw [← List.count_pos_iff]
      exact Nat.lt_of_lt_of_le (Nat.succ_pos _) h
    obtain ⟨before, rest, rfl, hbefore⟩ := List.eq_append_cons_of_mem hmem
    have hcount : rs.length ≤ rest.count 0x3f := by
      rw [List.count_append, List.count_cons_self, List.count_eq_zero.2 hbefore,
        List.length_cons] at h
      omega
    have hstep := ih (done ++ (before ++ r)) rest hcount
    rw [replaceParams, Positions.find_append_cons hbefore, ← List.length_append,
      ← List.append_assoc, Positions.replace_append]
    simp only [List.append_assoc, List.length_append, toSize, Nat.add_assoc] at hstep ⊢
    rw [hstep, substitute_append hbefore]

/-- Without a `?` left, the next parameter makes `replace` throw. -/
theorem replaceParams_throws (done todo : Bytes) {rs : List Bytes}
    (h : todo.count 0x3f < rs.length) :
    replaceParams (done ++ todo) done.length rs = .error {} := by
  induction rs generalizing done todo with
  | nil => cases h
  | cons r rs ih =>
    by_cases hmem : 0x3f ∈ todo
    · obtain ⟨before, rest, rfl, hbefore⟩ := List.eq_append_cons_of_mem hmem
      have hcount : rest.count 0x3f < rs.length := by
        rw [List.count_append, List.count_cons_self, List.count_eq_zero.2 hbefore,
          List.length_cons] at h
        omega
      have hstep := ih (done ++ (before ++ r)) rest hcount
      rw [replaceParams, Positions.find_append_cons hbefore, ← List.length_append,
        ← List.append_assoc, Positions.replace_append]
      simp only [List.append_assoc, List.length_append, toSize, Nat.add_assoc] at hstep ⊢
      exact hstep
    · rw [replaceParams, Positions.find_append_of_not_mem hmem]
      rfl

theorem replaceParams_eq {sqlString : Bytes} {rs : List Bytes}
    (h : rs.length ≤ sqlString.count 0x3f) :
    replaceParams sqlString 0 rs = .ok (substitute sqlString rs) :=
  replaceParams_append [] sqlString h

theorem replaceParams_isOk_iff (sqlString : Bytes) (rs : List Bytes) :
    (replaceParams sqlString 0 rs).isOk = true ↔ rs.length ≤ sqlString.count 0x3f := by
  constructor
  · intro hok
    refine Nat.not_lt.1 fun hlt => ?_
    rw [← List.nil_append sqlString, ← @List.length_nil UInt8,
      replaceParams_throws [] sqlString hlt] at hok
    cases hok
  · intro h
    rw [replaceParams_eq h]
    rfl

/-- **The text that is logged.** With no more parameters than `?`, each `?` of the text is replaced
by the text of its parameter. -/
theorem getSqlString_substitutes {sqlString : Bytes} {rs : List Bytes}
    (h : rs.length ≤ sqlString.count 0x3f) :
    replaceParams sqlString 0 rs = .ok (substitute sqlString rs) ∧
      ∀ pStmt : PreparedStatement, pStmt.statementData.map PreparedStatementData.toString = rs →
        getSqlString sqlString pStmt = .ok (substitute sqlString rs) := by
  refine ⟨replaceParams_eq h, ?_⟩
  rintro pStmt rfl
  exact replaceParams_eq h

/-- A parameter that is a `?` itself, and an empty one. -/
theorem getSqlString_substitutes_marks :
    replaceParams (bytes "f(?,?,?)") 0 [bytes "?", []] = .ok (bytes "f(?,,?)") :=
  (@getSqlString_substitutes (bytes "f(?,?,?)") [bytes "?", []] (by decide)).1

end GameServer.Database
