import Mathlib.Data.List.GetD
import GameServer.Database.QueryResult

/-!
# The values of a prepared result

The pointer of a column moves on only where its value is not NULL, so after some rows it stands in
the row with as many rows before it as the column has had values (`pointerAt`). The cells of the
buffer that the values of a result get are all different, and no later write touches one
(`construct_keeps`).

The invariant is `Progress`: how many rows are fetched and how many are read, for each column.
-/

namespace GameServer.Database

open GameServer.Lib GameServer.Http

namespace StmtResult

/-- The bytes of the row that each column has. -/
def widths (sizeOfMysqlTime : Nat) (result : StmtResult) : List Nat :=
  result.fields.map (sizeForType sizeOfMysqlTime)

/-- How many of the first `r` rows have a value in the column. -/
def valuesBefore (result : StmtResult) (r i : Nat) : Nat :=
  (result.fetches.take r).countP fun row => !(row i).isNull

/-- Where the column points to when the row `r` is fetched. -/
def pointerAt (sizeOfMysqlTime : Nat) (result : StmtResult) (r i : Nat) : Nat :=
  cell (result.widths sizeOfMysqlTime) (result.valuesBefore r i) i

/-- The bytes of a value: no more than fit, and no more than its length says. -/
def value (sizeOfMysqlTime : Nat) (result : StmtResult) (row : Nat → ColumnFetch) (i : Nat) :
    Bytes :=
  ((row i).bytes.take ((result.widths sizeOfMysqlTime).getD i 0)).take (row i).length

/-- The field of the row `r`. -/
def fieldAt (sizeOfMysqlTime : Nat) (result : StmtResult) (row : Nat → ColumnFetch) (r i : Nat) :
    ResultField where
  pointer := if (row i).isNull then none else some (result.pointerAt sizeOfMysqlTime r i)
  length := (row i).length % 0x100000000
  metadata := result.fields[i]?.map (initializeDatabaseFieldMetadata · true)

variable {t : Nat} {result : StmtResult} {row : Nat → ColumnFetch} {r r' i : Nat}

theorem valuesBefore_le (result : StmtResult) (r i : Nat) : result.valuesBefore r i ≤ r := by
  unfold valuesBefore
  calc _ ≤ (result.fetches.take r).length := List.countP_le_length
    _ ≤ r := by rw [List.length_take]; exact Nat.min_le_left _ _

theorem valuesBefore_succ (h : result.fetches[r]? = some row) :
    result.valuesBefore (r + 1) i = result.valuesBefore r i + if (row i).isNull then 0 else 1 := by
  unfold valuesBefore
  rw [List.take_add_one, h, List.countP_append]
  cases hnull : (row i).isNull <;> simp [hnull]

theorem valuesBefore_mono (result : StmtResult) (i : Nat) (h : r ≤ r') :
    result.valuesBefore r i ≤ result.valuesBefore r' i := by
  unfold valuesBefore
  have htake : result.fetches.take r = (result.fetches.take r').take r := by
    rw [List.take_take, Nat.min_eq_left h]
  rw [htake]
  exact (List.take_sublist _ _).countP_le

/-- A value moves the column on to the next row. -/
theorem valuesBefore_lt (h : result.fetches[r]? = some row) (hvalue : (row i).isNull = false)
    (hlt : r < r') : result.valuesBefore r i < result.valuesBefore r' i := by
  have hle := valuesBefore_mono result i (Nat.succ_le_of_lt hlt)
  rw [Nat.succ_eq_add_one, valuesBefore_succ h, hvalue] at hle
  exact hle

/-- The column moves on by a row where it has a value. -/
theorem pointerAt_succ (h : result.fetches[r]? = some row) : result.pointerAt t (r + 1) i =
    result.pointerAt t r i + if (row i).isNull then 0 else (result.widths t).sum := by
  unfold pointerAt cell
  rw [valuesBefore_succ h]
  split
  · rw [Nat.add_zero, Nat.add_zero]
  · rw [Nat.mul_succ]
    omega

theorem length_value_le (row : Nat → ColumnFetch) (hi : i < (result.widths t).length) :
    (result.value t row i).length ≤ (result.widths t)[i] := by
  simp only [value, List.length_take, List.getD_eq_getElem _ _ hi]
  omega

theorem length_value_le_length (t : Nat) (result : StmtResult) (row : Nat → ColumnFetch) (i : Nat) :
    (result.value t row i).length ≤ (row i).length := by
  simp only [value, List.length_take]
  omega

end StmtResult

/-! ## The binds -/

section Binds

/-- The offset of each buffer is that of its column, without overflow. -/
theorem bindBuffers_getElem? (binds : List ResultBind) (offset i : Nat)
    (h : offset + (binds.map ResultBind.bufferLength).sum < 0x100000000) :
    (PreparedResultSet.bindBuffers offset binds)[i]? = binds[i]?.map fun b =>
      { b with buffer := offset + columnOffset (binds.map ResultBind.bufferLength) i } := by
  induction binds generalizing offset i with
  | nil => rfl
  | cons b binds ih =>
    rw [List.map_cons, List.sum_cons] at h
    cases i with
    | zero => simp [PreparedResultSet.bindBuffers, columnOffset]
    | succ i =>
      have hmod : (offset + b.bufferLength) % 0x100000000 = offset + b.bufferLength :=
        Nat.mod_eq_of_lt (by omega)
      rw [PreparedResultSet.bindBuffers, List.getElem?_cons_succ, List.getElem?_cons_succ, hmod,
        ih _ _ (by omega)]
      simp only [columnOffset, List.map_cons, List.take_succ_cons, List.sum_cons, Nat.add_assoc]

theorem length_bindBuffers (binds : List ResultBind) (offset : Nat) :
    (PreparedResultSet.bindBuffers offset binds).length = binds.length := by
  induction binds generalizing offset with
  | nil => rfl
  | cons b binds ih => rw [PreparedResultSet.bindBuffers, List.length_cons, ih, List.length_cons]

end Binds

namespace StmtResult

def binds (sizeOfMysqlTime : Nat) (result : StmtResult) : List ResultBind :=
  PreparedResultSet.bindBuffers 0 (result.fields.map (PreparedResultSet.columnBind sizeOfMysqlTime))

variable {t : Nat} {result : StmtResult} {i : Nat}

@[simp] theorem length_widths : (result.widths t).length = result.fields.length :=
  List.length_map ..

@[simp] theorem length_binds : (result.binds t).length = result.fields.length := by
  rw [binds, length_bindBuffers, List.length_map]

theorem map_bufferLength_columnBind :
    (result.fields.map (PreparedResultSet.columnBind t)).map ResultBind.bufferLength =
      result.widths t := by
  rw [List.map_map]
  rfl

/-- The bind of a column: its buffer has the width of the column and begins at its offset. -/
theorem binds_getElem? (hsum : (result.widths t).sum < 0x100000000)
    (hi : i < result.fields.length) : ∃ b, (result.binds t)[i]? = some b ∧
      b.bufferLength = (result.widths t).getD i 0 ∧
      b.buffer = columnOffset (result.widths t) i := by
  have hwidths : (List.map ResultBind.bufferLength
      (result.fields.map (PreparedResultSet.columnBind t))) = result.widths t :=
    map_bufferLength_columnBind
  have hget := bindBuffers_getElem? (result.fields.map (PreparedResultSet.columnBind t)) 0 i
    (by rw [hwidths]; omega)
  rw [hwidths, List.getElem?_map, List.getElem?_eq_getElem hi] at hget
  refine ⟨_, hget, ?_, Nat.zero_add _⟩
  simp [widths, PreparedResultSet.columnBind, hi]

end StmtResult

/-! ## The loops -/

section Loops

variable {rowSize : Nat} {s : PreparedResultSet}

/-- The two loops over the columns of a row, each with its invariant. -/
theorem readRow_rule (row : Nat → ColumnFetch) {n : Nat} {I J : Nat → PreparedResultSet → Prop}
    (hlength : ∀ i u, I i u ∨ J i u → u.binds.length = n)
    (hfetch : ∀ i < n, ∀ u, I i u →
      ∃ v, PreparedResultSet.fetchColumn row i u = .ok v ∧ I (i + 1) v)
    (hfetched : ∀ u, I n u → J 0 u)
    (hread : ∀ i < n, ∀ u, J i u →
      ∃ v, PreparedResultSet.readColumn rowSize row i u = .ok v ∧ J (i + 1) v) (h : I 0 s) :
    ∃ v, PreparedResultSet.readRow rowSize row s =
      .ok { v with rowPosition := v.rowPosition + 1 } ∧ J n v := by
  obtain ⟨u, hu, hI⟩ := countTo_rule h hfetch
  obtain ⟨v, hv, hJ⟩ := countTo_rule (hfetched u hI) hread
  refine ⟨v, ?_, hJ⟩
  unfold PreparedResultSet.readRow
  rw [hlength 0 s (.inl h), hu]
  change (countTo _ u.binds.length u).bind _ = _
  rw [hlength n u (.inl hI), hv]
  rfl

/-- The loop over the rows: its turns end with the fetched rows, or with the counted ones. -/
theorem fetchRows_rule {numRows : Nat} {rows : List (Nat → ColumnFetch)}
    {I : Nat → PreparedResultSet → Prop}
    (hat : ∀ r s, I r s → s.rowCount = numRows ∧ s.rowPosition = r)
    (hturn : ∀ r s row, I r s → rows[r]? = some row → r < numRows →
      ∃ s', PreparedResultSet.readRow rowSize row s = .ok s' ∧ I (r + 1) s')
    {r : Nat} {fetches : List (Nat → ColumnFetch)} (hfetches : fetches = rows.drop r) (h : I r s)
    (hr : r ≤ min numRows rows.length) :
    ∃ s', PreparedResultSet.fetchRows rowSize fetches s = .ok s' ∧
      I (min numRows rows.length) s' := by
  have hdone : min numRows rows.length = r → I (min numRows rows.length) s := by
    rintro rfl
    exact h
  induction fetches generalizing r s with
  | nil =>
    have hlength := congrArg List.length hfetches
    rw [List.length_nil, List.length_drop] at hlength
    exact ⟨s, rfl, hdone (by omega)⟩
  | cons row fetches ih =>
    have hrow : rows[r]? = some row := by
      rw [← List.head?_drop, ← hfetches]
      rfl
    have hin : r < rows.length := (List.getElem?_eq_some_iff.1 hrow).1
    obtain ⟨hcount, hposition⟩ := hat r s h
    rw [PreparedResultSet.fetchRows, hcount, hposition]
    by_cases hlt : r < numRows
    · obtain ⟨u, hu, hnext⟩ := hturn r s row h hrow hlt
      rw [if_neg (by omega), hu]
      refine ih ?_ hnext (by omega) ?_
      · rw [← List.drop_drop, ← hfetches]
        rfl
      · intro heq
        rw [heq]
        exact hnext
    · rw [if_pos (by omega)]
      exact ⟨s, rfl, hdone (by omega)⟩

end Loops

/-- What the constructor starts the loop over the rows with. -/
def StmtResult.bound (t : Nat) (result : StmtResult) : PreparedResultSet where
  rowCount := result.numRows
  rowPosition := 0
  fieldMetadata := result.fields.map (initializeDatabaseFieldMetadata · true)
  rows := List.replicate (result.numRows * result.fields.length) .fresh
  binds := result.binds t
  pointers := (result.binds t).map ResultBind.buffer
  buffer := (List.range ((result.widths t).sum * result.numRows)).map result.garbage

theorem construct_eq {t : Nat} {result : StmtResult} (rowCount : Nat)
    (hmetadata : result.hasMetadata = true) (hstored : result.storeResult = 0)
    (hbound : result.bindFails = false) :
    PreparedResultSet.construct t rowCount result =
      (PreparedResultSet.fetchRows (result.widths t).sum result.fetches (result.bound t)).map
        fun s => { s with rowPosition := 0 } := by
  simp only [PreparedResultSet.construct, hmetadata, hstored, hbound, Bool.not_true,
    Bool.false_eq_true, if_false, ne_eq, not_true, StmtResult.map_bufferLength_columnBind]
  rfl

/-! ## The invariant -/

/-- In column `i` the values of the first `fetched i` rows stand in the buffer, and the fields of
the first `read i` rows are set. -/
structure Progress (t : Nat) (result : StmtResult) (fetched read : Nat → Nat)
    (s : PreparedResultSet) : Prop where
  rowCount : s.rowCount = result.numRows
  binds : s.binds = result.binds t
  fieldMetadata : s.fieldMetadata = result.fields.map (initializeDatabaseFieldMetadata · true)
  bufferLength : s.buffer.length = (result.widths t).sum * result.numRows
  rowsLength : s.rows.length = result.numRows * result.fields.length
  pointers : ∀ i < result.fields.length, s.pointers[i]? = some (result.pointerAt t (read i) i)
  fields : ∀ i < result.fields.length, ∀ r < read i, ∀ row, result.fetches[r]? = some row →
    s.rows[r * result.fields.length + i]? = some (result.fieldAt t row r i)
  values : ∀ i < result.fields.length, ∀ r < fetched i, ∀ row, result.fetches[r]? = some row →
    (row i).isNull = false → HasAt s.buffer (result.pointerAt t r i) (result.value t row i)

/-- How many rows are done in column `j` when the loop over the columns of row `r` is at `n`. -/
def stage (r n j : Nat) : Nat := if j < n then r + 1 else r

theorem lt_stage_iff {r r' n j : Nat} : r' < stage r n j ↔ r' < r ∨ r' = r ∧ j < n := by
  unfold stage
  split <;> omega

/-- A turn of the loop adds one row in one column. -/
theorem lt_stage_succ {r r' n j : Nat} (h : r' < stage r (n + 1) j) :
    r' < stage r n j ∨ r' = r ∧ j = n := by
  rw [lt_stage_iff] at h ⊢
  omega

theorem stage_zero (r : Nat) : stage r 0 = fun _ => r := funext fun _ => if_neg (Nat.not_lt_zero _)

@[simp] theorem stage_self (r n : Nat) : stage r n n = r := if_neg (Nat.lt_irrefl n)

@[simp] theorem stage_succ_self (r n : Nat) : stage r (n + 1) n = r + 1 :=
  if_pos (Nat.lt_succ_self n)

theorem stage_succ_of_ne {r n j : Nat} (h : j ≠ n) : stage r (n + 1) j = stage r n j := by
  have hiff : j < n + 1 ↔ j < n := by omega
  simp only [stage, hiff]

section Steps

variable {t : Nat} {result : StmtResult} {s : PreparedResultSet} {fetched read : Nat → Nat}
  {row row' : Nat → ColumnFetch} {r r' i j : Nat}

/-- A write inside the cell of one value touches no other value. -/
theorem hasAt_store_of_other {buffer buffer' block : Bytes} {offset : Nat}
    (hi : i < (result.widths t).length) (hj : j < (result.widths t).length)
    (hrow : result.fetches[r']? = some row') (hvalue : (row' j).isNull = false)
    (hother : j = i → r' < r) (hlow : result.pointerAt t r i ≤ offset)
    (hhigh : offset + block.length ≤ result.pointerAt t r i + (result.widths t)[i])
    (hstore : store buffer offset block = .ok buffer')
    (h : HasAt buffer (result.pointerAt t r' j) (result.value t row' j)) :
    HasAt buffer' (result.pointerAt t r' j) (result.value t row' j) := by
  have hcells := cell_disjoint (k := result.valuesBefore r' j) (l := result.valuesBefore r i) hj hi
    (by
      rintro rfl
      exact Nat.ne_of_lt (StmtResult.valuesBefore_lt hrow hvalue (hother rfl)))
  have hlength := StmtResult.length_value_le row' hj
  refine h.store_of_disjoint hstore ?_
  unfold StmtResult.pointerAt at *
  omega

/-- The cell that a column points to lies inside the buffer. -/
theorem pointerAt_end_le (hi : i < (result.widths t).length) (hr : r < result.numRows) :
    result.pointerAt t r i + (result.widths t)[i] ≤ (result.widths t).sum * result.numRows := by
  have hle := StmtResult.valuesBefore_le result r i
  exact cell_end_le_of_lt hi (Nat.lt_of_le_of_lt hle hr)

/-- One value more, where the values before stay. -/
theorem values_next {buffer buffer' : Bytes}
    (hvalues : ∀ j < result.fields.length, ∀ r' < stage r i j, ∀ row',
      result.fetches[r']? = some row' → (row' j).isNull = false →
        HasAt buffer (result.pointerAt t r' j) (result.value t row' j))
    (hrow : result.fetches[r]? = some row)
    (hown : (row i).isNull = false →
      HasAt buffer' (result.pointerAt t r i) (result.value t row i))
    (hothers : ∀ j < result.fields.length, ∀ r', (j = i → r' < r) → ∀ row',
      result.fetches[r']? = some row' → (row' j).isNull = false →
        HasAt buffer (result.pointerAt t r' j) (result.value t row' j) →
          HasAt buffer' (result.pointerAt t r' j) (result.value t row' j)) :
    ∀ j < result.fields.length, ∀ r' < stage r (i + 1) j, ∀ row',
      result.fetches[r']? = some row' → (row' j).isNull = false →
        HasAt buffer' (result.pointerAt t r' j) (result.value t row' j) := by
  intro j hj r' hr' row' hrow' hvalue
  rcases lt_stage_succ hr' with hold | ⟨rfl, rfl⟩
  · have hother : j = i → r' < r := by
      rintro rfl
      rwa [stage_self] at hold
    exact hothers j hj r' hother row' hrow' hvalue (hvalues j hj r' hold row' hrow' hvalue)
  · rw [hrow] at hrow'
    cases hrow'
    exact hown hvalue

theorem Progress.fetchColumn (hsum : (result.widths t).sum < 0x100000000)
    (h : Progress t result (stage r i) (stage r 0) s) (hi : i < result.fields.length)
    (hrow : result.fetches[r]? = some row) (hr : r < result.numRows) :
    ∃ s', PreparedResultSet.fetchColumn row i s = .ok s' ∧
      Progress t result (stage r (i + 1)) (stage r 0) s' ∧ s'.rowPosition = s.rowPosition := by
  obtain ⟨b, hb, hwidth, -⟩ := StmtResult.binds_getElem? hsum hi
  have hw : i < (result.widths t).length := by simpa using hi
  have hpointer : s.pointers[i]? = some (result.pointerAt t r i) := by
    rw [h.pointers i hi]
    simp [stage]
  rw [← h.binds] at hb
  simp only [PreparedResultSet.fetchColumn, hb, hpointer]
  by_cases hnull : (row i).isNull = true
  · rw [if_pos hnull]
    refine ⟨s, rfl, { h with values := ?_ }, rfl⟩
    refine values_next h.values hrow (fun hvalue => ?_) fun _ _ _ _ _ _ _ hold => hold
    rw [hnull] at hvalue
    cases hvalue
  · rw [if_neg hnull]
    have hlength : ((row i).bytes.take b.bufferLength).length ≤ (result.widths t)[i] := by
      rw [List.length_take, hwidth, List.getD_eq_getElem _ _ hw]
      exact Nat.min_le_left _ _
    have hend := pointerAt_end_le hw hr
    have hin : result.pointerAt t r i + ((row i).bytes.take b.bufferLength).length ≤
        s.buffer.length := by
      rw [h.bufferLength]
      omega
    obtain ⟨buffer', hstore⟩ := exists_store hin
    rw [hstore]
    refine ⟨_, rfl, { h with
      bufferLength := (length_store hstore).trans h.bufferLength, values := ?_ }, rfl⟩
    refine values_next h.values hrow (fun _ => ?_) fun j hj r' hother row' hrow' hvalue hold => ?_
    · unfold StmtResult.value
      rw [← hwidth]
      exact (HasAt.store_self hstore).take (row i).length
    · refine hasAt_store_of_other hw (by simpa using hj) hrow' hvalue hother (Nat.le_refl _) ?_
        hstore hold
      omega

/-- The field that the loop over the columns stores. -/
theorem setValue_setMetadata (t : Nat) (row : Nat → ColumnFetch) (r : Nat) (field : ResultField)
    (fieldMeta : QueryResultFieldMetadata)
    (hmeta : result.fields[i]?.map (initializeDatabaseFieldMetadata · true) = some fieldMeta) :
    (field.setMetadata fieldMeta).setValue
        (if (row i).isNull then none else some (result.pointerAt t r i)) (row i).length =
      result.fieldAt t row r i := by
  simp [ResultField.setMetadata, ResultField.setValue, StmtResult.fieldAt, hmeta]

theorem index_ne (hi : i < result.fields.length) (hj : j < result.fields.length)
    (h : j = i → r' ≠ r) : r * result.fields.length + i ≠ r' * result.fields.length + j := by
  intro heq
  have hrow : r = r' := by
    have hdiv := congrArg (· / result.fields.length) heq
    simpa [Nat.mul_comm _ result.fields.length, Nat.mul_add_div (Nat.zero_lt_of_lt hi),
      Nat.div_eq_of_lt hi, Nat.div_eq_of_lt hj] using hdiv
  subst hrow
  exact h (by omega) rfl

/-- The terminator stands behind the value of its own cell. -/
theorem Progress.terminate (h : Progress t result (stage r result.fields.length) (stage r i) s)
    (hi : i < result.fields.length) (hrow : result.fetches[r]? = some row)
    (hr : r < result.numRows) {b : ResultBind}
    (hwidth : b.bufferLength = (result.widths t).getD i 0) :
    ∃ buffer, PreparedResultSet.terminate b (result.pointerAt t r i) (row i).length s.buffer =
        .ok buffer ∧
      buffer.length = s.buffer.length ∧
      ∀ j < result.fields.length, ∀ r' < stage r result.fields.length j, ∀ row',
        result.fetches[r']? = some row' → (row' j).isNull = false →
          HasAt buffer (result.pointerAt t r' j) (result.value t row' j) := by
  have hw : i < (result.widths t).length := by simpa using hi
  unfold PreparedResultSet.terminate
  by_cases hplace : (b.isText && decide ((row i).length < b.bufferLength)) = true
  · rw [if_pos hplace]
    have hlt : (row i).length < (result.widths t)[i] := by
      rw [Bool.and_eq_true, decide_eq_true_iff, hwidth, List.getD_eq_getElem _ _ hw] at hplace
      exact hplace.2
    have hend := pointerAt_end_le hw hr
    have hin : result.pointerAt t r i + (row i).length + [(0 : UInt8)].length ≤
        s.buffer.length := by
      rw [h.bufferLength, List.length_singleton]
      omega
    obtain ⟨buffer, hstore⟩ := exists_store hin
    refine ⟨buffer, hstore, length_store hstore, ?_⟩
    intro j hj r' hr' row' hrow' hvalue
    have hold := h.values j hj r' hr' row' hrow' hvalue
    by_cases hown : j = i ∧ r' = r
    · obtain ⟨rfl, rfl⟩ := hown
      rw [hrow] at hrow'
      cases hrow'
      have hlength := StmtResult.length_value_le_length t result row j
      exact hold.store_of_disjoint hstore (.inl (by omega))
    · have hother : j = i → r' < r := by
        rintro rfl
        rw [lt_stage_iff] at hr'
        omega
      refine hasAt_store_of_other hw (by simpa using hj) hrow' hvalue hother (Nat.le_add_right _ _)
        ?_ hstore hold
      rw [List.length_singleton]
      omega
  · rw [if_neg hplace]
    exact ⟨s.buffer, rfl, rfl, h.values⟩

/-- The field is set, and all fields before stay. -/
theorem fields_set {rows : List ResultField} {field : ResultField}
    (hrows : ∀ j < result.fields.length, ∀ r' < stage r i j, ∀ row',
      result.fetches[r']? = some row' →
        rows[r' * result.fields.length + j]? = some (result.fieldAt t row' r' j))
    (hi : i < result.fields.length) (hrow : result.fetches[r]? = some row)
    (hlt : r * result.fields.length + i < rows.length)
    (hfield : field = result.fieldAt t row r i) :
    ∀ j < result.fields.length, ∀ r' < stage r (i + 1) j, ∀ row',
      result.fetches[r']? = some row' →
        (rows.set (r * result.fields.length + i) field)[r' * result.fields.length + j]? =
          some (result.fieldAt t row' r' j) := by
  intro j hj r' hr' row' hrow'
  by_cases hown : j = i ∧ r' = r
  · obtain ⟨rfl, rfl⟩ := hown
    rw [hrow] at hrow'
    cases hrow'
    rw [List.getElem?_set_self hlt, hfield]
  · have hold : r' < stage r i j := (lt_stage_succ hr').resolve_right fun h => hown ⟨h.2, h.1⟩
    have hne : j = i → r' ≠ r := fun hji heq => hown ⟨hji, heq⟩
    rw [List.getElem?_set_ne (index_ne hi hj hne)]
    exact hrows j hj r' hold row' hrow'

/-- The pointer of the column that is read moves on, the others stay. -/
theorem pointers_next {pointers pointers' : List Nat}
    (hpointers : ∀ j < result.fields.length,
      pointers[j]? = some (result.pointerAt t (stage r i j) j))
    (hown : pointers'[i]? = some (result.pointerAt t (r + 1) i))
    (hothers : ∀ j, j ≠ i → pointers'[j]? = pointers[j]?) :
    ∀ j < result.fields.length,
      pointers'[j]? = some (result.pointerAt t (stage r (i + 1) j) j) := by
  intro j hj
  by_cases hji : j = i
  · subst hji
    rw [stage_succ_self]
    exact hown
  · rw [stage_succ_of_ne hji, hothers j hji]
    exact hpointers j hj

theorem Progress.readColumn (hsum : (result.widths t).sum < 0x100000000)
    (h : Progress t result (stage r result.fields.length) (stage r i) s)
    (hposition : s.rowPosition = r) (hi : i < result.fields.length)
    (hrow : result.fetches[r]? = some row) (hr : r < result.numRows) :
    ∃ s', PreparedResultSet.readColumn (result.widths t).sum row i s = .ok s' ∧
      Progress t result (stage r result.fields.length) (stage r (i + 1)) s' ∧
        s'.rowPosition = s.rowPosition := by
  obtain ⟨b, hb, hwidth, -⟩ := StmtResult.binds_getElem? hsum hi
  have hpointer : s.pointers[i]? = some (result.pointerAt t r i) := by
    rw [h.pointers i hi]
    simp [stage]
  have hmeta : s.fieldMetadata[i]? =
      some (initializeDatabaseFieldMetadata result.fields[i] true) := by
    rw [h.fieldMetadata, List.getElem?_map, List.getElem?_eq_getElem hi]
    rfl
  have hlt : r * result.fields.length + i < s.rows.length := by
    rw [h.rowsLength]
    calc r * result.fields.length + i < (r + 1) * result.fields.length := by
          rw [Nat.succ_mul]
          omega
      _ ≤ result.numRows * result.fields.length := Nat.mul_le_mul_right _ hr
  have hlength : s.binds.length = result.fields.length := by
    rw [h.binds, StmtResult.length_binds]
  rw [← h.binds] at hb
  simp only [PreparedResultSet.readColumn, hposition, hlength, hb, hpointer, hmeta,
    List.getElem?_eq_getElem hlt]
  have hfield := setValue_setMetadata t row r
    s.rows[r * result.fields.length + i] (initializeDatabaseFieldMetadata result.fields[i] true)
    (by rw [List.getElem?_eq_getElem hi]; rfl)
  by_cases hnull : (row i).isNull = true
  · rw [hnull, if_pos rfl] at hfield
    rw [hnull]
    refine ⟨_, rfl, { h with rowsLength := ?_, pointers := ?_, fields := ?_ }, rfl⟩
    · rw [List.length_set]
      exact h.rowsLength
    · refine pointers_next h.pointers ?_ fun _ _ => rfl
      rw [StmtResult.pointerAt_succ hrow, if_pos hnull, Nat.add_zero]
      exact hpointer
    · exact fields_set h.fields hi hrow hlt hfield
  · rw [if_neg hnull] at hfield
    rw [Bool.eq_false_iff.2 hnull]
    obtain ⟨buffer, hterminate, hbuffer, hvalues⟩ := h.terminate hi hrow hr hwidth
    simp only [hterminate]
    refine ⟨_, rfl, { h with
      bufferLength := hbuffer.trans h.bufferLength
      rowsLength := ?_, pointers := ?_, fields := ?_, values := hvalues }, rfl⟩
    · rw [List.length_set]
      exact h.rowsLength
    · have hin : i < s.pointers.length := (List.getElem?_eq_some_iff.1 hpointer).1
      refine pointers_next h.pointers ?_ fun j hji => List.getElem?_set_ne (Ne.symm hji)
      rw [StmtResult.pointerAt_succ hrow, if_neg hnull]
      exact List.getElem?_set_self hin
    · exact fields_set h.fields hi hrow hlt hfield

/-- In the columns of the row, being done with all of them is being at the next row. -/
theorem Progress.congr {fetched' read' : Nat → Nat} (h : Progress t result fetched read s)
    (hfetched : ∀ j < result.fields.length, fetched' j = fetched j)
    (hread : ∀ j < result.fields.length, read' j = read j) :
    Progress t result fetched' read' s :=
  { h with
    pointers := fun j hj => hread j hj ▸ h.pointers j hj
    fields := fun j hj r hr => h.fields j hj r (hread j hj ▸ hr)
    values := fun j hj r hr => h.values j hj r (hfetched j hj ▸ hr) }

/-- A turn of the loop over the rows. -/
theorem Progress.readRow (hsum : (result.widths t).sum < 0x100000000)
    (h : Progress t result (fun _ => r) (fun _ => r) s) (hposition : s.rowPosition = r)
    (hrow : result.fetches[r]? = some row) (hr : r < result.numRows) :
    ∃ s', PreparedResultSet.readRow (result.widths t).sum row s = .ok s' ∧
      Progress t result (fun _ => r + 1) (fun _ => r + 1) s' ∧ s'.rowPosition = r + 1 := by
  obtain ⟨v, hv, hread, hsame⟩ := readRow_rule row (n := result.fields.length)
    (I := fun i u => Progress t result (stage r i) (stage r 0) u ∧ u.rowPosition = r)
    (J := fun i u => Progress t result (stage r result.fields.length) (stage r i) u ∧
      u.rowPosition = r)
    (by
      rintro i u (⟨hI, -⟩ | ⟨hJ, -⟩)
      · rw [hI.binds, StmtResult.length_binds]
      · rw [hJ.binds, StmtResult.length_binds])
    (fun i hi u hI => by
      obtain ⟨v, hv, hprogress, hsame⟩ := hI.1.fetchColumn hsum hi hrow hr
      exact ⟨v, hv, hprogress, hsame.trans hI.2⟩)
    (fun u hI => hI)
    (fun i hi u hJ => by
      obtain ⟨v, hv, hprogress, hsame⟩ := hJ.1.readColumn hsum hJ.2 hi hrow hr
      exact ⟨v, hv, hprogress, hsame.trans hJ.2⟩)
    ⟨stage_zero r ▸ h, hposition⟩
  have hnext : ∀ j < result.fields.length, r + 1 = stage r result.fields.length j :=
    fun j hj => (if_pos hj).symm
  have hdone : Progress t result (fun _ => r + 1) (fun _ => r + 1) v := hread.congr hnext hnext
  exact ⟨_, hv, { hdone with }, congrArg (· + 1) hsame⟩

end Steps

/-! ## The constructor -/

section Constructor

variable {t : Nat} {result : StmtResult} {s : PreparedResultSet}

theorem progress_bound (hsum : (result.widths t).sum < 0x100000000) :
    Progress t result (fun _ => 0) (fun _ => 0) (result.bound t) where
  rowCount := rfl
  binds := rfl
  fieldMetadata := rfl
  bufferLength := by simp [StmtResult.bound]
  rowsLength := List.length_replicate
  pointers := by
    intro i hi
    obtain ⟨b, hb, -, hoffset⟩ := StmtResult.binds_getElem? hsum hi
    simp [StmtResult.bound, hb, hoffset, StmtResult.pointerAt, StmtResult.valuesBefore, cell]
  fields := fun _ _ r hr => absurd hr (Nat.not_lt_zero r)
  values := fun _ _ r hr => absurd hr (Nat.not_lt_zero r)

theorem construct_progress (rowCount : Nat) (hmetadata : result.hasMetadata = true)
    (hstored : result.storeResult = 0) (hbound : result.bindFails = false)
    (hsum : (result.widths t).sum < 0x100000000) :
    ∃ s, PreparedResultSet.construct t rowCount result = .ok s ∧
      Progress t result (fun _ => min result.numRows result.fetches.length)
        (fun _ => min result.numRows result.fetches.length) s := by
  obtain ⟨s, hs, hprogress, -⟩ := fetchRows_rule
    (I := fun r s => Progress t result (fun _ => r) (fun _ => r) s ∧ s.rowPosition = r)
    (fun r s hI => ⟨hI.1.rowCount, hI.2⟩)
    (fun r s row hI hrow hr => hI.1.readRow hsum hI.2 hrow hr)
    (List.drop_zero (l := result.fetches)).symm ⟨progress_bound hsum, rfl⟩ (Nat.zero_le _)
  refine ⟨{ s with rowPosition := 0 }, ?_, { hprogress with }⟩
  rw [construct_eq rowCount hmetadata hstored hbound, hs]
  rfl

/-- **The values of a prepared result.** The constructor ends, so no write leaves the buffer, and
for every fetched row and every column the field is null where the value is NULL and otherwise
points to the bytes that were fetched for it. -/
theorem construct_keeps (sizeOfMysqlTime rowCount : Nat) (result : StmtResult)
    (hmetadata : result.hasMetadata = true) (hstored : result.storeResult = 0)
    (hbound : result.bindFails = false)
    (hsum : (result.widths sizeOfMysqlTime).sum < 0x100000000) :
    ∃ s, PreparedResultSet.construct sizeOfMysqlTime rowCount result = .ok s ∧
      s.buffer.length = (result.widths sizeOfMysqlTime).sum * result.numRows ∧
      ∀ r < result.numRows, ∀ row, result.fetches[r]? = some row →
        ∀ i < result.fields.length, ∃ field,
          s.rows[r * result.fields.length + i]? = some field ∧
          field.length = (row i).length % 0x100000000 ∧
          ((row i).isNull = true → field.pointer = none) ∧
          ((row i).isNull = false → ∃ pointer, field.pointer = some pointer ∧
            HasAt s.buffer pointer (result.value sizeOfMysqlTime row i)) := by
  obtain ⟨s, hs, hprogress⟩ := construct_progress rowCount hmetadata hstored hbound hsum
  refine ⟨s, hs, hprogress.bufferLength, ?_⟩
  intro r hr row hrow i hi
  have hin : r < result.fetches.length := (List.getElem?_eq_some_iff.1 hrow).1
  have hlt : r < min result.numRows result.fetches.length := by omega
  refine ⟨_, hprogress.fields i hi r hlt row hrow, rfl, fun hnull => if_pos hnull, ?_⟩
  intro hvalue
  refine ⟨_, ?_, hprogress.values i hi r hlt row hrow hvalue⟩
  exact if_neg (by simp [hvalue])

/-- Three rows with a text and a number, two of them with a NULL. -/
def threeRows : StmtResult where
  hasMetadata := true
  storeResult := 0
  numRows := 3
  fields := [⟨.varString, 4, 0⟩, ⟨.long, 11, unsignedFlag⟩]
  bindFails := false
  fetches :=
    [fun i => if i = 0 then ⟨false, 3, [98, 111, 98]⟩ else ⟨true, 0, []⟩,
      fun i => if i = 0 then ⟨true, 0, []⟩ else ⟨false, 4, [7, 0, 0, 0]⟩,
      fun i => if i = 0 then ⟨false, 4, [97, 110, 110, 97]⟩ else ⟨false, 4, [9, 0, 0, 0]⟩]
  garbage _ := 0xcd

theorem construct_keeps_threeRows :
    ∃ s, PreparedResultSet.construct 40 3 threeRows = .ok s ∧
      s.buffer.length = (threeRows.widths 40).sum * 3 ∧
      ∀ r < 3, ∀ row, threeRows.fetches[r]? = some row → ∀ i < 2, ∃ field,
        s.rows[r * 2 + i]? = some field ∧
        field.length = (row i).length % 0x100000000 ∧
        ((row i).isNull = true → field.pointer = none) ∧
        ((row i).isNull = false → ∃ pointer, field.pointer = some pointer ∧
          HasAt s.buffer pointer (threeRows.value 40 row i)) :=
  construct_keeps 40 3 threeRows rfl rfl rfl (by simp [StmtResult.widths, threeRows, sizeForType])

/-! ### Integer columns -/

/-- The size of the objects of an integer column. -/
def integerSize : DatabaseFieldType → Option Nat
  | .uInt8 | .int8 => some 1
  | .uInt16 | .int16 => some 2
  | .uInt32 | .int32 => some 4
  | .uInt64 | .int64 => some 8
  | .null | .float | .double | .decimal | .date | .binary => none

/-- The buffer of an integer column has the size of its type. -/
theorem sizeForType_of_integerSize {field : MySqlField} {n : Nat}
    (h : integerSize (mysqlTypeToFieldType field) = some n) : sizeForType t field = n := by
  unfold mysqlTypeToFieldType at h
  unfold sizeForType
  by_cases hsign : field.isUnsigned = true
  · cases htype : field.type <;> simp_all [integerSize]
  · cases htype : field.type <;> simp_all [integerSize]

theorem sizeForType_ofIntType {field : MySqlField} {ty : IntType}
    (h : mysqlTypeToFieldType field = .ofIntType ty) : sizeForType t field = ty.size := by
  apply sizeForType_of_integerSize
  rw [h]
  cases ty <;> rfl

/-- **The fields of an integer column** are those that `CheckType` is given for a binary value. -/
theorem construct_reads_integers (rowCount : Nat) (hmetadata : result.hasMetadata = true)
    (hstored : result.storeResult = 0) (hbound : result.bindFails = false)
    (hsum : (result.widths t).sum < 0x100000000) {i : Nat} (hi : i < result.fields.length)
    {ty : IntType} (htype : mysqlTypeToFieldType result.fields[i] = .ofIntType ty)
    (value : Nat → Option ty.Value)
    (hvalue : ∀ r row, result.fetches[r]? = some row → (row i).isNull = (value r).isNone ∧
      ∀ v, value r = some v → (row i).bytes = ty.toBytes v.val ∧ (row i).length = ty.size) :
    ∃ s, PreparedResultSet.construct t rowCount result = .ok s ∧
      ∀ r < result.numRows, ∀ row, result.fetches[r]? = some row → ∃ field length rest,
        s.rows[r * result.fields.length + i]? = some field ∧
        field.read s.buffer = Field.ofBinary ty (value r) length rest := by
  obtain ⟨s, hs, hprogress⟩ := construct_progress rowCount hmetadata hstored hbound hsum
  refine ⟨s, hs, ?_⟩
  intro r hr row hrow
  have hin : r < result.fetches.length := (List.getElem?_eq_some_iff.1 hrow).1
  have hlt : r < min result.numRows result.fetches.length := by omega
  have hmeta : result.fields[i]?.map (initializeDatabaseFieldMetadata · true) =
      some ⟨.ofIntType ty, true⟩ := by
    rw [List.getElem?_eq_getElem hi]
    exact congrArg (fun type => some (⟨type, true⟩ : QueryResultFieldMetadata)) htype
  obtain ⟨hnull, hbytes⟩ := hvalue r row hrow
  have hfield := hprogress.fields i hi r hlt row hrow
  cases hv : value r with
  | none =>
    rw [hv] at hnull
    refine ⟨_, (row i).length, [], hfield, ?_⟩
    simp [ResultField.read, StmtResult.fieldAt, hnull, hmeta, Field.ofBinary, Field.filled,
      Field.setValue, Field.setMetadata, Field.fresh]
  | some v =>
    rw [hv] at hnull
    obtain ⟨hbytes, hlength⟩ := hbytes v hv
    have hhas := hprogress.values i hi r hlt row hrow hnull
    have hwidth : (result.widths t).getD i 0 = ty.size := by
      rw [StmtResult.widths, List.getD_eq_getElem?_getD, List.getElem?_map,
        List.getElem?_eq_getElem hi]
      exact sizeForType_ofIntType htype
    have hwhole : result.value t row i = ty.toBytes v.val := by
      have htake : (ty.toBytes v.val).take ty.size = ty.toBytes v.val :=
        List.take_of_length_le (Nat.le_of_eq (IntType.length_toBytes ty v.val))
      rw [StmtResult.value, hwidth, hbytes, hlength, htake, htake]
    rw [hwhole] at hhas
    obtain ⟨rest, hrest⟩ := hhas.exists_drop_eq
    refine ⟨_, (row i).length, rest, hfield, ?_⟩
    simp [ResultField.read, StmtResult.fieldAt, hnull, hmeta, Field.ofBinary, Field.filled,
      Field.setValue, Field.setMetadata, Field.fresh, hrest]

end Constructor

end GameServer.Database
