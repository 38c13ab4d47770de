import Mathlib.Data.List.Forall2
import GameServer.Database.RowLoop
import GameServer.Database.ResultSet

/-!
# Two kinds of results, one cursor

For a query whose rows the server gives both as a text and as a prepared result, all four producers
hand over a null pointer if there are none and otherwise a result that stands on the first row, and
the loop over it sees every row once and in order (`producers_same_cursor`).

The text result is moved on to its first row by the producers, the prepared one stands on it after
the constructor.
-/

namespace GameServer.Database

open GameServer.Lib GameServer.Http

/-! ## The answers of the server -/

/-- A row as it comes with each kind of result. -/
structure ServerRow where
  text : List TextColumn
  binary : Nat → ColumnFetch

/-- What the server has for a query. A result has a column at least. -/
structure Table where
  fields : List MySqlField
  rows : List ServerRow
  columns : fields ≠ []
  widths : ∀ row ∈ rows, row.text.length = fields.length

namespace Table

/-- The result of the query as a text. -/
def textResult (table : Table) : TextResult where
  hasResult := true
  affectedRows := table.rows.length
  fields := table.fields
  rows := table.rows.map fun row => ⟨row.text, true⟩

/-- The result of the query as a prepared statement. -/
def stmtResult (table : Table) (garbage : Nat → UInt8) : StmtResult where
  hasMetadata := true
  storeResult := 0
  numRows := table.rows.length
  fields := table.fields
  bindFails := false
  fetches := table.rows.map ServerRow.binary
  garbage

/-- The field of a column of the text result. -/
def textField (field : MySqlField) (column : TextColumn) : Field :=
  (Field.fresh.setMetadata (initializeDatabaseFieldMetadata field false)).setValue column.value
    column.length

def textFields (table : Table) (row : ServerRow) : List Field :=
  List.zipWith textField table.fields row.text

end Table

/-- This is the field of column `i` of a row of the prepared result. -/
structure ShowsColumn (t : Nat) (result : StmtResult) (row : Nat → ColumnFetch) (i : Nat)
    (f : Field) : Prop where
  metadata : f.metadata = result.fields[i]?.map (initializeDatabaseFieldMetadata · true)
  isNull : f.isNull = (row i).isNull
  length : f.length = (row i).length % 0x100000000
  /-- The offset of a column has 32 bits. -/
  value : (result.widths t).sum < 0x100000000 → (row i).isNull = false →
    ∃ rest, f.value = some (result.value t row i ++ rest)

/-- These are the fields of a row of the prepared result. -/
structure ShowsRow (t : Nat) (result : StmtResult) (row : Nat → ColumnFetch)
    (fields : List Field) : Prop where
  length : fields.length = result.fields.length
  columns : ∀ (i : Nat) (f : Field), fields[i]? = some f → ShowsColumn t result row i f

/-! ## The text result -/

namespace ResultSet

open Table

variable {fields : List MySqlField}

/-- The fields have the metadata of their columns, whatever their values. -/
def Described (fields : List MySqlField) (row : List Field) : Prop :=
  row.length = fields.length ∧ ∀ (i : Nat) (f : Field), row[i]? = some f →
    f.metadata = fields[i]?.map (initializeDatabaseFieldMetadata · false)

theorem setValue_eq_textField {field : MySqlField} {column : TextColumn} {f : Field}
    (h : f.metadata = some (initializeDatabaseFieldMetadata field false)) :
    f.setValue column.value column.length = textField field column := by
  simp [Field.setValue, textField, Field.setMetadata, h]

theorem described_zipWith {columns : List TextColumn} (h : columns.length = fields.length) :
    Described fields (List.zipWith textField fields columns) := by
  constructor
  · rw [List.length_zipWith, h, Nat.min_self]
  · intro i f hf
    obtain ⟨field, column, hfield, -, rfl⟩ := List.getElem?_zipWith_eq_some.1 hf
    rw [hfield]
    rfl

/-- The loop over the columns reads the row, whatever was read before. -/
theorem countTo_setColumn (row : TextRow) (hwidth : row.columns.length = fields.length)
    {old : List Field} (hold : Described fields old) :
    countTo (setColumn row) fields.length old =
      .ok (List.zipWith textField fields row.columns) := by
  obtain ⟨read, hread, hdescribed, hset⟩ := countTo_rule (f := setColumn row) (n := fields.length)
    (I := fun n read => Described fields read ∧ ∀ i < n,
      read[i]? = (List.zipWith textField fields row.columns)[i]?)
    ⟨hold, fun i hi => absurd hi (Nat.not_lt_zero i)⟩
    fun i hi read hI => by
      obtain ⟨⟨hlength, hmeta⟩, hset⟩ := hI
      have hcolumn := List.getElem?_eq_getElem (hwidth ▸ hi : i < row.columns.length)
      have hfield := List.getElem?_eq_getElem (hlength ▸ hi : i < read.length)
      refine ⟨_, by rw [setColumn, hcolumn, hfield], ⟨?_, ?_⟩, ?_⟩
      · rw [List.length_set, hlength]
      · intro j f hf
        by_cases hji : j = i
        · subst hji
          rw [List.getElem?_set_self (hlength ▸ hi)] at hf
          cases hf
          have hkept := hmeta j _ hfield
          exact hkept
        · rw [List.getElem?_set_ne (Ne.symm hji)] at hf
          exact hmeta j f hf
      · intro j hj
        by_cases hji : j = i
        · subst hji
          have hfieldMeta := hmeta j _ hfield
          rw [List.getElem?_eq_getElem hi] at hfieldMeta
          rw [List.getElem?_set_self (hlength ▸ hi), setValue_eq_textField hfieldMeta,
            List.getElem?_zipWith, List.getElem?_eq_getElem hi, hcolumn]
        · rw [List.getElem?_set_ne (Ne.symm hji)]
          exact hset j (by omega)
  rw [hread]
  refine congrArg Except.ok (List.ext_getElem? fun i => ?_)
  by_cases hi : i < fields.length
  · exact hset i hi
  · have hlength := hdescribed.1
    rw [List.getElem?_eq_none (by omega),
      List.getElem?_eq_none (by rw [List.length_zipWith]; omega)]

/-- The result of the table, with these fields read and these rows left. -/
def reading (table : Table) (current : List Field) (rows : List ServerRow) : ResultSet where
  fieldMetadata := table.fields.map (initializeDatabaseFieldMetadata · false)
  rowCount := table.rows.length
  fieldCount := table.fields.length
  currentRow := some current
  result := some (rows.map fun row => ⟨row.text, true⟩)

variable {table : Table} {current : List Field} {row : ServerRow} {rows : List ServerRow}

theorem nextRow_reading (rows : List ServerRow) (hcurrent : Described table.fields current)
    (hwidth : row.text.length = table.fields.length) :
    nextRow (reading table current (row :: rows)) =
      .ok (true, reading table (table.textFields row) rows) := by
  have hread := countTo_setColumn ⟨row.text, true⟩ hwidth hcurrent
  simp only [nextRow, reading, List.map_cons, Bool.not_true, Bool.false_eq_true, if_false, hread]
  rfl

theorem nextRow_reading_nil :
    nextRow (reading table current []) = .ok (false, (reading table current []).cleanUp) := rfl

/-- A row that has been read has the others before it. -/
theorem stands_reading (hwidth : row.text.length = table.fields.length)
    (hwidths : ∀ r ∈ rows, r.text.length = table.fields.length) :
    cursor.Stands (reading table (table.textFields row) rows) (table.textFields row)
      (rows.map table.textFields) := by
  induction rows generalizing row with
  | nil => exact .last rfl nextRow_reading_nil
  | cons next rows ih =>
    have hnext := hwidths next List.mem_cons_self
    refine .more rfl (nextRow_reading rows (described_zipWith hwidth) hnext) ?_
    exact ih hnext fun r hr => hwidths r (List.mem_cons_of_mem _ hr)

theorem construct_textResult (table : Table) : construct table.rows.length table.textResult =
    reading table ((table.fields.map (initializeDatabaseFieldMetadata · false)).map
      Field.fresh.setMetadata) table.rows := rfl

theorem described_construct (fields : List MySqlField) :
    Described fields ((fields.map (initializeDatabaseFieldMetadata · false)).map
      Field.fresh.setMetadata) := by
  constructor
  · rw [List.length_map, List.length_map]
  · intro i f hf
    rw [List.map_map, List.getElem?_map] at hf
    obtain ⟨field, hfield, rfl⟩ := Option.map_eq_some_iff.1 hf
    rw [hfield]
    rfl

end ResultSet

/-! ## The prepared result -/

namespace PreparedResultSet

/-- The fields of row `k`. -/
def rowAt (s : PreparedResultSet) (k : Nat) : List Field :=
  ((s.rows.drop (k * s.binds.length)).take s.binds.length).map (·.read s.buffer)

variable {t : Nat} {result : StmtResult} {s : PreparedResultSet} {row : Nat → ColumnFetch}
  {k m : Nat}

theorem fetch_at (hrows : s.rows.length = s.rowCount * s.binds.length)
    (hcolumns : 0 < s.binds.length) (hk : k < s.rowCount) :
    fetch { s with rowPosition := k } = .ok (s.rowAt k) := by
  have hin : k * s.binds.length < s.rows.length := by
    rw [hrows]
    exact Nat.mul_lt_mul_of_pos_right hk hcolumns
  simp only [fetch, if_pos hk, if_pos hin]
  rfl

theorem nextRow_at : cursor.nextRow { s with rowPosition := k } =
    .ok (decide (k + 1 < s.rowCount), { s with rowPosition := k + 1 }) := rfl

/-- Row `k` has the `m` rows before it that come after it. -/
theorem stands_at (hrows : s.rows.length = s.rowCount * s.binds.length)
    (hcolumns : 0 < s.binds.length) (h : k + m + 1 = s.rowCount) :
    cursor.Stands { s with rowPosition := k } (s.rowAt k)
      ((List.range' (k + 1) m).map s.rowAt) := by
  have hfetch := fetch_at hrows hcolumns (show k < s.rowCount by omega)
  induction m generalizing k with
  | zero =>
    have hend : decide (k + 1 < s.rowCount) = false := decide_eq_false (by omega)
    exact .last hfetch (nextRow_at.trans (by rw [hend]))
  | succ m ih =>
    have hnext : decide (k + 1 < s.rowCount) = true := decide_eq_true (by omega)
    refine .more hfetch (nextRow_at.trans (by rw [hnext])) ?_
    exact ih (by omega) (fetch_at hrows hcolumns (by omega))

/-- The loop from the first row on. -/
theorem visit_eq (hrows : s.rows.length = s.rowCount * s.binds.length)
    (hcolumns : 0 < s.binds.length) (hposition : s.rowPosition = 0) (hpos : 0 < s.rowCount)
    (more : Nat) :
    cursor.visit (s.rowCount + more) s = .ok ((List.range s.rowCount).map s.rowAt) := by
  obtain ⟨m, hm⟩ : ∃ m, s.rowCount = m + 1 := ⟨s.rowCount - 1, by omega⟩
  have hfirst : { s with rowPosition := 0 } = s := by rw [← hposition]
  have hstands := stands_at (k := 0) (m := m) hrows hcolumns (by omega)
  rw [hfirst] at hstands
  have hvisit := hstands.visit_eq more
  rw [List.length_map, List.length_range'] at hvisit
  rw [hm, List.range_eq_range', List.range'_succ, List.map_cons]
  exact hvisit

/-- The fields of a loaded row. -/
theorem showsRow_rowAt {rowCount : Nat} (hmetadata : result.hasMetadata = true)
    (hstored : result.storeResult = 0) (hbound : result.bindFails = false)
    (hs : construct t rowCount result = .ok s)
    (h : Loading t result (fun _ => min result.numRows result.fetches.length) s)
    (hk : k < result.numRows) (hrow : result.fetches[k]? = some row) :
    ShowsRow t result row (s.rowAt k) := by
  have hlength : s.binds.length = result.fields.length := by
    rw [h.binds, StmtResult.length_binds]
  have hin : k < result.fetches.length := (List.getElem?_eq_some_iff.1 hrow).1
  have hlt : k < min result.numRows result.fetches.length := by omega
  constructor
  · have hle : (k + 1) * result.fields.length ≤ result.numRows * result.fields.length :=
      Nat.mul_le_mul_right _ hk
    rw [Nat.succ_mul] at hle
    rw [rowAt, List.length_map, List.length_take, List.length_drop, hlength, h.rowsLength]
    omega
  · intro i f hf
    rw [rowAt, List.getElem?_map, hlength] at hf
    obtain ⟨field, hfield, rfl⟩ := Option.map_eq_some_iff.1 hf
    have hi : i < result.fields.length := by
      by_contra hge
      rw [List.getElem?_take_eq_none (Nat.not_lt.1 hge)] at hfield
      cases hfield
    rw [List.getElem?_take_of_lt hi, List.getElem?_drop] at hfield
    obtain ⟨_, hget, hloaded⟩ := h.fields i hi k hlt row hrow
    rw [hfield] at hget
    cases hget
    refine ⟨hloaded.metadata, ?_, hloaded.length, ?_⟩
    · rw [← hloaded.isNone, Field.isNull, ResultField.read, Option.isNone_map]
    · intro hsum hvalue
      obtain ⟨s', hs', hprogress⟩ := construct_progress rowCount hmetadata hstored hbound hsum
      rw [hs] at hs'
      cases hs'
      have hat := hprogress.fields i hi k hlt row hrow
      rw [hfield] at hat
      cases hat
      obtain ⟨rest, hrest⟩ :=
        (hprogress.values i hi k hlt row hrow hvalue).exists_drop_eq
      exact ⟨rest, by simp [ResultField.read, StmtResult.fieldAt, hvalue, hrest]⟩

end PreparedResultSet

/-! ## The producers -/

section Producers

variable {table : Table} {sql : String}

theorem query_textResult (hsql : sql ≠ "") (hrows : table.rows ≠ []) :
    ResultSet.query sql (some table.textResult) =
      some (.construct table.rows.length table.textResult) := by
  have hlength : table.rows.length ≠ 0 := fun h => hrows (List.length_eq_zero_iff.1 h)
  simp [ResultSet.query, hsql, Table.textResult, hlength]

theorem query_textResult_nil (hrows : table.rows = []) :
    ResultSet.query sql (some table.textResult) = none := by
  simp [ResultSet.query, Table.textResult, hrows]

/-- What the producers of a text result hand over. -/
theorem checked_textResult (hsql : sql ≠ "") (hrows : table.rows ≠ []) :
    ∃ s, ResultSet.checked (ResultSet.query sql (some table.textResult)) = .ok (some s) ∧
      ∀ more, ResultSet.cursor.visit (table.rows.length + more) s =
        .ok (table.rows.map table.textFields) := by
  obtain ⟨row, rows, htable⟩ := List.exists_cons_of_ne_nil hrows
  have hwidths := table.widths
  rw [htable] at hwidths
  have hwidth := hwidths row List.mem_cons_self
  refine ⟨.reading table (table.textFields row) rows, ?_, fun more => ?_⟩
  · have hnext := ResultSet.nextRow_reading rows
      (ResultSet.described_construct table.fields) hwidth
    have hcount : (ResultSet.construct table.rows.length table.textResult).rowCount ≠ 0 :=
      fun h => hrows (List.length_eq_zero_iff.1 h)
    rw [query_textResult hsql hrows, ResultSet.checked, if_neg hcount,
      ResultSet.construct_textResult, htable, hnext]
    rfl
  · have hstands : ResultSet.cursor.Stands (.reading table (table.textFields row) rows)
        (table.textFields row) (rows.map table.textFields) :=
      ResultSet.stands_reading hwidth fun r hr => hwidths r (List.mem_cons_of_mem _ hr)
    have hvisit := hstands.visit_eq more
    rw [List.length_map] at hvisit
    rw [htable]
    exact hvisit

/-- What the producers of a prepared result hand over: with rows it stands on the first. -/
theorem checked_stmtResult (t rowCount : Nat) (garbage : Nat → UInt8) (hrows : table.rows ≠ []) :
    ∃ p, PreparedResultSet.query t rowCount (some (table.stmtResult garbage)) = .ok (some p) ∧
      PreparedResultSet.checked (some p) = some p ∧
      ∃ visited, (∀ more, PreparedResultSet.cursor.visit (table.rows.length + more) p =
          .ok visited) ∧
        List.Forall₂ (fun row => ShowsRow t (table.stmtResult garbage) row.binary) table.rows
          visited := by
  obtain ⟨p, hp, hposition, hloading⟩ :=
    construct_loading t rowCount (table.stmtResult garbage) rfl rfl rfl
  have hcount : p.rowCount = table.rows.length := hloading.rowCount
  have hlength : p.binds.length = table.fields.length := by
    rw [hloading.binds, StmtResult.length_binds]
    rfl
  have hcolumns : 0 < p.binds.length := by
    rw [hlength]
    exact List.length_pos_iff.2 table.columns
  have hpos : 0 < table.rows.length := List.length_pos_iff.2 hrows
  refine ⟨p, by rw [PreparedResultSet.query, hp]; rfl, if_neg (by omega),
    (List.range table.rows.length).map p.rowAt, fun more => ?_, ?_⟩
  · rw [← hcount]
    refine PreparedResultSet.visit_eq ?_ hcolumns hposition (by omega) more
    rw [hloading.rowsLength, hcount, hlength]
    rfl
  · refine List.forall₂_iff_get.2 ⟨by rw [List.length_map, List.length_range], ?_⟩
    intro k hk hk'
    have hrow : (table.stmtResult garbage).fetches[k]? = some (table.rows.get ⟨k, hk⟩).binary := by
      rw [Table.stmtResult, List.getElem?_map, List.getElem?_eq_getElem hk]
      rfl
    have hshows := PreparedResultSet.showsRow_rowAt rfl rfl rfl hp hloading hk hrow
    simpa using hshows

theorem checked_stmtResult_nil (t rowCount : Nat) (garbage : Nat → UInt8)
    (hrows : table.rows = []) :
    ∃ p, PreparedResultSet.query t rowCount (some (table.stmtResult garbage)) = .ok (some p) ∧
      PreparedResultSet.checked (some p) = none := by
  obtain ⟨p, hp, -, hloading⟩ :=
    construct_loading t rowCount (table.stmtResult garbage) rfl rfl rfl
  have hcount : p.rowCount = 0 := by
    rw [hloading.rowCount, Table.stmtResult, hrows]
    rfl
  exact ⟨p, by rw [PreparedResultSet.query, hp]; rfl, if_pos hcount⟩

end Producers

/-- **One cursor.** Without rows the four producers hand over a null pointer. With rows each kind of
result shows all of them, one after the other. -/
theorem producers_same_cursor (sizeOfMysqlTime rowCount : Nat) (garbage : Nat → UInt8)
    (sql : String) (hsql : sql ≠ "") (table : Table) :
    (table.rows = [] →
      ResultSet.syncQuery sql (some table.textResult) = .ok none ∧
      ResultSet.executeTask sql (some table.textResult) = .ok (false, none) ∧
      PreparedResultSet.syncQuery sizeOfMysqlTime rowCount (some (table.stmtResult garbage)) =
        .ok none ∧
      PreparedResultSet.executeTask sizeOfMysqlTime rowCount (some (table.stmtResult garbage)) =
        .ok (false, none)) ∧
    (table.rows ≠ [] → ∃ s p,
      ResultSet.syncQuery sql (some table.textResult) = .ok (some s) ∧
      ResultSet.executeTask sql (some table.textResult) = .ok (true, some s) ∧
      PreparedResultSet.syncQuery sizeOfMysqlTime rowCount (some (table.stmtResult garbage)) =
        .ok (some p) ∧
      PreparedResultSet.executeTask sizeOfMysqlTime rowCount (some (table.stmtResult garbage)) =
        .ok (true, some p) ∧
      (∀ more, ResultSet.cursor.visit (table.rows.length + more) s =
        .ok (table.rows.map table.textFields)) ∧
      ∃ visited, (∀ more, PreparedResultSet.cursor.visit (table.rows.length + more) p =
          .ok visited) ∧
        List.Forall₂ (fun row => ShowsRow sizeOfMysqlTime (table.stmtResult garbage) row.binary)
          table.rows visited) := by
  constructor
  · intro hrows
    have hquery : ResultSet.query sql (some table.textResult) = none := query_textResult_nil hrows
    obtain ⟨p, hp, hchecked⟩ := checked_stmtResult_nil sizeOfMysqlTime rowCount garbage hrows
    refine ⟨?_, ?_, ?_, ?_⟩
    · rw [ResultSet.syncQuery, hquery]
      rfl
    · rw [ResultSet.executeTask, hquery]
      rfl
    · rw [PreparedResultSet.syncQuery, hp]
      exact congrArg Except.ok hchecked
    · rw [PreparedResultSet.executeTask, hp]
      exact congrArg (fun r => Except.ok (r.isSome, r)) hchecked
  · intro hrows
    obtain ⟨s, hs, hvisit⟩ := checked_textResult hsql hrows
    obtain ⟨p, hp, hchecked, hvisited⟩ :=
      checked_stmtResult sizeOfMysqlTime rowCount garbage hrows
    refine ⟨s, p, hs, ?_, ?_, ?_, hvisit, hvisited⟩
    · rw [ResultSet.executeTask, hs]
      rfl
    · rw [PreparedResultSet.syncQuery, hp]
      exact congrArg Except.ok hchecked
    · rw [PreparedResultSet.executeTask, hp]
      exact congrArg (fun r => Except.ok (r.isSome, r)) hchecked

/-- A column with a number in one row and NULL in the next. -/
def twoRows : Table where
  fields := [⟨.long, 11, 0⟩]
  rows := [⟨[⟨some [55], 1⟩], fun _ => ⟨false, 4, [7, 0, 0, 0]⟩⟩,
    ⟨[⟨none, 0⟩], fun _ => ⟨true, 0, []⟩⟩]
  columns := List.cons_ne_nil _ _
  widths := by
    intro row hrow
    rcases List.mem_cons.1 hrow with rfl | hrow
    · rfl
    · rw [List.mem_singleton.1 hrow]
      rfl

theorem producers_same_cursor_twoRows : ∃ s p,
    ResultSet.syncQuery "SELECT" (some twoRows.textResult) = .ok (some s) ∧
    ResultSet.executeTask "SELECT" (some twoRows.textResult) = .ok (true, some s) ∧
    PreparedResultSet.syncQuery 40 0 (some (twoRows.stmtResult fun _ => 0)) = .ok (some p) ∧
    PreparedResultSet.executeTask 40 0 (some (twoRows.stmtResult fun _ => 0)) =
      .ok (true, some p) ∧
    (∀ more, ResultSet.cursor.visit (2 + more) s = .ok (twoRows.rows.map twoRows.textFields)) ∧
    ∃ visited, (∀ more, PreparedResultSet.cursor.visit (2 + more) p = .ok visited) ∧
      List.Forall₂ (fun row => ShowsRow 40 (twoRows.stmtResult fun _ => 0) row.binary)
        twoRows.rows visited :=
  (producers_same_cursor 40 0 (fun _ => 0) "SELECT" (by decide) twoRows).2
    (List.cons_ne_nil _ _)

end GameServer.Database
