import GameServer.Database.FieldConversion
import GameServer.Database.ResultCursor

/-!
# Rows as their readers see them

A reader asks an integer column for a number and a text column for a `const char *` or a
`std::string`, which both end at the first zero byte. A prepared result has to put that zero there
itself: the terminator stands behind each text that is shorter than its column, and no later value
is fetched over it (`construct_terminated`).

For one table the rows of a text result and those of a prepared one are read alike
(`results_read_alike`): what the columns hold, each text up to its first zero, and a NULL text as
the empty string. Only a NULL number is zero in the one and an access through a null pointer in the
other.
-/

namespace GameServer.Database

open GameServer.Lib GameServer.Http

/-! ## The getters of texts -/

/-- What `std::string` makes of a pointer: the characters before the first zero. -/
def untilZero (bytes : Bytes) : Except Halt Bytes :=
  if 0 ∈ bytes then .ok (bytes.takeWhile (· ≠ 0)) else .error .fault

namespace Field

/-- `GetCString`: the pointer, also as `operator const char *`. -/
def getCString (f : Field) : Except Halt (Option Bytes) :=
  match f.metadata with
  | none => .error .fault
  | some metadata => if metadata.fieldType ≠ .binary then .error .abort else .ok f.value

/-- `operator std::string`. -/
def getString (f : Field) : Except Halt Bytes := do
  match ← f.getCString with
  | none => .ok []
  | some str => untilZero str

end Field

theorem untilZero_append (text rest : Bytes) :
    untilZero (text ++ 0 :: rest) = .ok (text.takeWhile (· ≠ 0)) := by
  have htake : (text ++ 0 :: rest).takeWhile (· ≠ 0) = text.takeWhile (· ≠ 0) := by
    induction text with
    | nil => rfl
    | cons c text ih =>
      rw [List.cons_append, List.takeWhile_cons, List.takeWhile_cons, ih]
  unfold untilZero
  rw [if_pos (by simp), htake]

/-! ## Terminators -/

section Steps

variable {t : Nat} {result : StmtResult} {s s' : PreparedResultSet} {fetched read : Nat → Nat}
  {row row' : Nat → ColumnFetch} {r r' i j : Nat}

/-- A write inside the cell of one value touches no block in the cell of another one. -/
theorem hasAt_store_of_other_cell {buffer buffer' block block' : Bytes} {offset offset' : Nat}
    (hi : i < (result.widths t).length) (hj : j < (result.widths t).length)
    (hrow : result.fetches[r']? = some row') (hvalue : (row' j).isNull = false)
    (hother : j = i → r' < r) (hlow : result.pointerAt t r i ≤ offset)
    (hhigh : offset + block.length ≤ result.pointerAt t r i + (result.widths t)[i])
    (hlow' : result.pointerAt t r' j ≤ offset')
    (hhigh' : offset' + block'.length ≤ result.pointerAt t r' j + (result.widths t)[j])
    (hstore : store buffer offset block = .ok buffer') (h : HasAt buffer offset' block') :
    HasAt buffer' offset' block' := by
  have hcells := cell_disjoint (k := result.valuesBefore r' j) (l := result.valuesBefore r i) hj hi
    (by
      rintro rfl
      exact Nat.ne_of_lt (StmtResult.valuesBefore_lt hrow hvalue (hother rfl)))
  refine h.store_of_disjoint hstore ?_
  unfold StmtResult.pointerAt at *
  omega

/-- The texts of the first `read i` rows of column `i` have their terminators. -/
def Terminated (t : Nat) (result : StmtResult) (read : Nat → Nat) (buffer : Bytes) : Prop :=
  ∀ (i : Nat) (b : ResultBind), (result.binds t)[i]? = some b → b.isText = true →
    ∀ r < read i, ∀ row, result.fetches[r]? = some row → (row i).isNull = false →
      (row i).length < b.bufferLength →
        HasAt buffer (result.pointerAt t r i + (row i).length) [0]

/-- What a fetch writes. -/
theorem fetchColumn_store {b : ResultBind} {pointer : Nat}
    (hb : s.binds[i]? = some b) (hpointer : s.pointers[i]? = some pointer)
    (h : PreparedResultSet.fetchColumn row i s = .ok s') :
    s'.buffer = s.buffer ∨ ∃ block : Bytes, block.length ≤ b.bufferLength ∧
      store s.buffer pointer block = .ok s'.buffer := by
  simp only [PreparedResultSet.fetchColumn, hb, hpointer] at h
  split at h
  · cases h
    exact .inl rfl
  · cases hstore : store s.buffer pointer ((row i).bytes.take b.bufferLength) with
    | error e =>
      rw [hstore] at h
      cases h
    | ok buffer =>
      rw [hstore] at h
      cases h
      refine .inr ⟨_, ?_, hstore⟩
      rw [List.length_take]
      exact Nat.min_le_left _ _

/-- What reading a column writes. -/
theorem readColumn_store {rowSize pointer : Nat} {b : ResultBind}
    (hb : s.binds[i]? = some b) (hpointer : s.pointers[i]? = some pointer)
    (h : PreparedResultSet.readColumn rowSize row i s = .ok s') :
    (row i).isNull = true ∧ s'.buffer = s.buffer ∨ (row i).isNull = false ∧
      PreparedResultSet.terminate b pointer (row i).length s.buffer = .ok s'.buffer := by
  simp only [PreparedResultSet.readColumn, hb, hpointer] at h
  split at h
  · next hb' hpointer' hmeta hfield =>
    cases hb'
    cases hpointer'
    cases hnull : (row i).isNull with
    | true =>
      rw [hnull] at h
      cases h
      exact .inl ⟨rfl, rfl⟩
    | false =>
      rw [hnull] at h
      cases hterminate : PreparedResultSet.terminate b pointer (row i).length s.buffer with
      | error e =>
        simp only [hterminate] at h
        cases h
      | ok buffer =>
        simp only [hterminate] at h
        cases h
        exact .inr ⟨rfl, rfl⟩
  · cases h

theorem exists_width (hsum : (result.widths t).sum < 0x100000000) {b : ResultBind}
    (hb : (result.binds t)[i]? = some b) :
    ∃ hi : i < (result.widths t).length, b.bufferLength = (result.widths t)[i] := by
  have hi : i < result.fields.length := by
    have hlt := (List.getElem?_eq_some_iff.1 hb).1
    rwa [StmtResult.length_binds] at hlt
  obtain ⟨c, hc, hwidth, -⟩ := StmtResult.binds_getElem? hsum hi
  rw [hb] at hc
  cases hc
  have hw : i < (result.widths t).length := by rwa [StmtResult.length_widths]
  refine ⟨hw, ?_⟩
  rw [hwidth, List.getD_eq_getElem _ _ hw]

/-- A write for row `r` of a column leaves the terminators of the rows that are read. -/
theorem Terminated.store {buffer buffer' block : Bytes} {offset : Nat}
    (hsum : (result.widths t).sum < 0x100000000) (h : Terminated t result read buffer)
    (hread : read i ≤ r) (hi : i < (result.widths t).length)
    (hlow : result.pointerAt t r i ≤ offset)
    (hhigh : offset + block.length ≤ result.pointerAt t r i + (result.widths t)[i])
    (hstore : store buffer offset block = .ok buffer') : Terminated t result read buffer' := by
  intro j b hb htext r' hr' row' hrow' hvalue hshort
  obtain ⟨hj, hwidth⟩ := exists_width hsum hb
  have hother : j = i → r' < r := by
    rintro rfl
    omega
  refine hasAt_store_of_other_cell hi hj hrow' hvalue hother hlow hhigh (Nat.le_add_right _ _) ?_
    hstore (h j b hb htext r' hr' row' hrow' hvalue hshort)
  rw [List.length_singleton]
  omega

/-- Fetching a column of row `r` leaves the terminators of the rows before it. -/
theorem Terminated.fetchColumn (hsum : (result.widths t).sum < 0x100000000)
    (h : Terminated t result (stage r 0) s.buffer)
    (hprogress : Progress t result (stage r i) (stage r 0) s) (hi : i < result.fields.length)
    (hfetch : PreparedResultSet.fetchColumn row i s = .ok s') :
    Terminated t result (stage r 0) s'.buffer := by
  obtain ⟨b, hb, -⟩ := StmtResult.binds_getElem? hsum hi
  obtain ⟨hw, hwidth⟩ := exists_width hsum hb
  have hpointer : s.pointers[i]? = some (result.pointerAt t r i) := by
    rw [hprogress.pointers i hi]
    simp [stage]
  rw [← hprogress.binds] at hb
  rcases fetchColumn_store hb hpointer hfetch with hsame | ⟨block, hblock, hstore⟩
  · rw [hsame]
    exact h
  · refine h.store hsum ?_ hw (Nat.le_refl _) (by omega) hstore
    rw [stage_zero]

/-- Reading a column of row `r` adds its terminator. -/
theorem Terminated.readColumn (hsum : (result.widths t).sum < 0x100000000)
    (h : Terminated t result (stage r i) s.buffer)
    (hprogress : Progress t result (stage r result.fields.length) (stage r i) s)
    (hi : i < result.fields.length) (hrow : result.fetches[r]? = some row)
    (hread : PreparedResultSet.readColumn (result.widths t).sum row i s = .ok s') :
    Terminated t result (stage r (i + 1)) s'.buffer := by
  obtain ⟨b, hb, -⟩ := StmtResult.binds_getElem? hsum hi
  obtain ⟨hw, hwidth⟩ := exists_width hsum hb
  have hpointer : s.pointers[i]? = some (result.pointerAt t r i) := by
    rw [hprogress.pointers i hi]
    simp [stage]
  have hbind := hb
  rw [← hprogress.binds] at hb
  -- the terminators before, and perhaps the one of this column
  have hadd : ∀ {buffer : Bytes}, Terminated t result (stage r i) buffer →
      ((row i).isNull = false → b.isText = true → (row i).length < b.bufferLength →
        HasAt buffer (result.pointerAt t r i + (row i).length) [0]) →
      Terminated t result (stage r (i + 1)) buffer := by
    intro buffer hold hown j c hc htext r' hr' row' hrow' hvalue hshort
    rcases lt_stage_succ hr' with hbefore | ⟨rfl, rfl⟩
    · exact hold j c hc htext r' hbefore row' hrow' hvalue hshort
    · rw [hrow] at hrow'
      cases hrow'
      rw [hbind] at hc
      cases hc
      exact hown hvalue htext hshort
  rcases readColumn_store hb hpointer hread with ⟨hnull, hsame⟩ | ⟨hvalue, hterminate⟩
  · rw [hsame]
    refine hadd h fun hfalse => ?_
    rw [hnull] at hfalse
    cases hfalse
  · unfold PreparedResultSet.terminate at hterminate
    split at hterminate
    · next hplace =>
      have hshort : (row i).length < b.bufferLength := by
        rw [Bool.and_eq_true, decide_eq_true_iff] at hplace
        exact hplace.2
      refine hadd (h.store hsum ?_ hw (Nat.le_add_right _ _) ?_ hterminate) fun _ _ _ =>
        HasAt.store_self hterminate
      · rw [stage_self]
      · rw [List.length_singleton]
        omega
    · next hplace =>
      rw [← Except.ok.inj hterminate]
      refine hadd h fun _ htext hshort => absurd ?_ hplace
      rw [htext, decide_eq_true hshort]
      rfl

/-- A turn of the loop over the rows. -/
theorem readRow_terminated (hsum : (result.widths t).sum < 0x100000000)
    (hprogress : Progress t result (fun _ => r) (fun _ => r) s)
    (h : Terminated t result (fun _ => r) s.buffer) (hposition : s.rowPosition = r)
    (hrow : result.fetches[r]? = some row) (hr : r < result.numRows) :
    ∃ s', PreparedResultSet.readRow (result.widths t).sum row s = .ok s' ∧
      Progress t result (fun _ => r + 1) (fun _ => r + 1) s' ∧
      Terminated t result (fun _ => r + 1) s'.buffer ∧ s'.rowPosition = r + 1 := by
  obtain ⟨v, hv, hread, hterminated, hsame⟩ := readRow_rule row (n := result.fields.length)
    (I := fun i u => Progress t result (stage r i) (stage r 0) u ∧
      Terminated t result (stage r 0) u.buffer ∧ u.rowPosition = r)
    (J := fun i u => Progress t result (stage r result.fields.length) (stage r i) u ∧
      Terminated t result (stage r i) u.buffer ∧ u.rowPosition = r)
    (by
      rintro i u (⟨hI, -⟩ | ⟨hJ, -⟩)
      · rw [hI.binds, StmtResult.length_binds]
      · rw [hJ.binds, StmtResult.length_binds])
    (fun i hi u hI => by
      obtain ⟨v, hv, hprogress, hsame⟩ := hI.1.fetchColumn hsum hi hrow hr
      exact ⟨v, hv, hprogress, hI.2.1.fetchColumn hsum hI.1 hi hv, hsame.trans hI.2.2⟩)
    (fun u hI => hI)
    (fun i hi u hJ => by
      obtain ⟨v, hv, hprogress, hsame⟩ := hJ.1.readColumn hsum hJ.2.2 hi hrow hr
      exact ⟨v, hv, hprogress, hJ.2.1.readColumn hsum hJ.1 hi hrow hv, hsame.trans hJ.2.2⟩)
    ⟨stage_zero r ▸ hprogress, stage_zero r ▸ h, hposition⟩
  have hnext : ∀ j < result.fields.length, r + 1 = stage r result.fields.length j :=
    fun j hj => (if_pos hj).symm
  have hdone : Progress t result (fun _ => r + 1) (fun _ => r + 1) v := hread.congr hnext hnext
  refine ⟨_, hv, { hdone with }, ?_, congrArg (· + 1) hsame⟩
  intro j b hb htext r' hr' row' hrow' hvalue hshort
  have hj : j < result.fields.length := by
    obtain ⟨hj, -⟩ := exists_width hsum hb
    rwa [StmtResult.length_widths] at hj
  exact hterminated j b hb htext r' (hnext j hj ▸ hr') row' hrow' hvalue hshort

end Steps

/-- **Terminators.** In the result that the constructor leaves, a zero stands behind each text that
is shorter than its column. -/
theorem construct_terminated {t : Nat} {result : StmtResult} (rowCount : Nat)
    (hmetadata : result.hasMetadata = true) (hstored : result.storeResult = 0)
    (hbound : result.bindFails = false) (hsum : (result.widths t).sum < 0x100000000) :
    ∃ s, PreparedResultSet.construct t rowCount result = .ok s ∧
      Progress t result (fun _ => min result.numRows result.fetches.length)
        (fun _ => min result.numRows result.fetches.length) s ∧
      Terminated t result (fun _ => min result.numRows result.fetches.length) s.buffer := by
  obtain ⟨s, hs, hprogress, hterminated, -⟩ := fetchRows_rule
    (I := fun r s => Progress t result (fun _ => r) (fun _ => r) s ∧
      Terminated t result (fun _ => r) s.buffer ∧ s.rowPosition = r)
    (fun r s hI => ⟨hI.1.rowCount, hI.2.2⟩)
    (fun r s row hI hrow hr => readRow_terminated hsum hI.1 hI.2.1 hI.2.2 hrow hr)
    (List.drop_zero (l := result.fetches)).symm
    ⟨progress_bound hsum, fun _ _ _ _ r hr => absurd hr (Nat.not_lt_zero r), rfl⟩ (Nat.zero_le _)
  refine ⟨{ s with rowPosition := 0 }, ?_, { hprogress with }, hterminated⟩
  rw [construct_eq rowCount hmetadata hstored hbound, hs]
  rfl

/-! ## Typed rows -/

/-- What a column of a row holds. -/
inductive Cell where
  | integer (ty : IntType) (value : Option ty.Value)
  | text (value : Option Bytes)

/-- What a reader gets. -/
inductive CellValue where
  | integer (value : Int)
  | text (value : Bytes)
  deriving DecidableEq, Repr

namespace Cell

/-- The column is of this type, and wide enough. -/
def Fits (field : MySqlField) : Cell → Prop
  | integer ty _ => mysqlTypeToFieldType field = .ofIntType ty
  | text value => mysqlTypeToFieldType field = .binary ∧ field.maxLength + 1 < 0x100000000 ∧
    ∀ bytes, value = some bytes → bytes.length ≤ field.maxLength

/-- The cell as a column of a text result: the client library puts a zero behind each text. -/
def AsText (column : TextColumn) : Cell → Prop
  | integer _ none | text none => column.value = none ∧ column.length = 0
  | integer _ (some value) => ∃ (zeros : Fin 256) (rest : Bytes),
    column.value = some (Util.decimalText zeros value.val ++ rest) ∧
      column.length = (Util.decimalText zeros value.val).length
  | text (some bytes) => ∃ rest, column.value = some (bytes ++ 0 :: rest) ∧
    column.length = bytes.length

/-- The cell as it is fetched for a prepared result. -/
def AsFetch (fetch : ColumnFetch) : Cell → Prop
  | integer _ none | text none => fetch.isNull = true
  | integer ty (some value) => fetch.isNull = false ∧ fetch.bytes = ty.toBytes value.val ∧
    fetch.length = ty.size
  | text (some bytes) => fetch.isNull = false ∧ fetch.bytes = bytes ∧
    fetch.length = bytes.length

/-- A number for an integer column, a string for a text column. -/
def read (floating : FloatingCheck) (f : Field) : Cell → Except Halt CellValue
  | integer ty _ => (f.get floating ty).map .integer
  | text _ => f.getString.map .text

/-- What the cell is read as. -/
def shown (prepared : Bool) : Cell → Except Halt CellValue
  | integer _ none => if prepared then .error .fault else .ok (.integer 0)
  | integer _ (some value) => .ok (.integer value.val)
  | text none => .ok (.text [])
  | text (some bytes) => .ok (.text (bytes.takeWhile (· ≠ 0)))

end Cell

/-- The row comes with these cells, in both forms. -/
def HoldsCells (fields : List MySqlField) (row : ServerRow) (cells : List Cell) : Prop :=
  cells.length = fields.length ∧ ∀ (i : Nat) (field : MySqlField) (cell : Cell),
    fields[i]? = some field → cells[i]? = some cell → cell.Fits field ∧
      (∃ column, row.text[i]? = some column ∧ cell.AsText column) ∧ cell.AsFetch (row.binary i)

/-- What a reader gets from the fields of a row. -/
def readCells (floating : FloatingCheck) (cells : List Cell) (fields : List Field) :
    List (Except Halt CellValue) :=
  List.zipWith (fun cell f => cell.read floating f) cells fields

section Cells

variable {floating : FloatingCheck} {field : MySqlField} {cell : Cell}

/-- A value of the type of its column is read. -/
theorem get_of_checkType {ty : IntType} {v : ty.Value} {f : Field}
    (h : f.checkType floating ty = .ok (Field.castTo ty ty v.val)) :
    f.get floating ty = .ok v.val := by
  rw [Field.get, h, Field.castTo_of_inRange v.inRange]
  rfl

/-- **A field of a text result.** -/
theorem read_textField {column : TextColumn} (hfits : cell.Fits field)
    (hcolumn : cell.AsText column) :
    cell.read floating (Table.textField field column) = cell.shown false := by
  obtain ⟨value, length⟩ := column
  cases cell with
  | integer ty v =>
    have htype : initializeDatabaseFieldMetadata field false = ⟨.ofIntType ty, false⟩ :=
      congrArg (fun type => (⟨type, false⟩ : QueryResultFieldMetadata)) hfits
    cases v with
    | none =>
      obtain ⟨rfl, rfl⟩ := hcolumn
      have hfield : Table.textField field ⟨none, 0⟩ = Field.ofText ty none 0 [] := by
        rw [Table.textField, htype]
        rfl
      rw [Cell.read, hfield, Field.get, Field.checkType_text_null]
      rfl
    | some v =>
      obtain ⟨zeros, rest, rfl, rfl⟩ := hcolumn
      have hfield : Table.textField field ⟨some (Util.decimalText zeros v.val ++ rest),
          (Util.decimalText zeros v.val).length⟩ = Field.ofText ty (some v) zeros rest := by
        rw [Table.textField, htype]
        rfl
      have hget : (Field.ofText ty (some v) zeros rest).get floating ty = .ok v.val :=
        get_of_checkType (Field.checkType_field (.text zeros rest) v)
      rw [Cell.read, hfield, hget]
      rfl
  | text v =>
    have htype : initializeDatabaseFieldMetadata field false = ⟨.binary, false⟩ :=
      congrArg (fun type => (⟨type, false⟩ : QueryResultFieldMetadata)) hfits.1
    cases v with
    | none =>
      obtain ⟨rfl, rfl⟩ := hcolumn
      rw [Cell.read, Table.textField, htype]
      rfl
    | some text =>
      obtain ⟨rest, rfl, rfl⟩ := hcolumn
      have hstring : (Table.textField field ⟨some (text ++ 0 :: rest), text.length⟩).getString =
          untilZero (text ++ 0 :: rest) := by
        rw [Table.textField, htype]
        rfl
      rw [Cell.read, hstring, untilZero_append]
      rfl

/-- The bind of a column. -/
theorem exists_bind_of_field {t i : Nat} {result : StmtResult}
    (hsum : (result.widths t).sum < 0x100000000) (hfield : result.fields[i]? = some field) :
    ∃ b, (result.binds t)[i]? = some b ∧ b.bufferType = field.type ∧
      b.bufferLength = sizeForType t field := by
  have hget := bindBuffers_getElem? (result.fields.map (PreparedResultSet.columnBind t)) 0 i
    (by rw [StmtResult.map_bufferLength_columnBind]; omega)
  rw [List.getElem?_map, hfield] at hget
  exact ⟨_, hget, rfl, rfl⟩

theorem getD_widths {t i : Nat} {result : StmtResult} (hfield : result.fields[i]? = some field) :
    (result.widths t).getD i 0 = sizeForType t field := by
  rw [StmtResult.widths, List.getD_eq_getElem?_getD, List.getElem?_map, hfield]
  rfl

/-- A column that is read as a string is one that gets terminators, and has place for them. -/
theorem text_column {t : Nat} (htype : mysqlTypeToFieldType field = .binary) :
    (∀ b : ResultBind, b.bufferType = field.type → b.isText = true) ∧
      sizeForType t field = (field.maxLength + 1) % 0x100000000 := by
  have hmem : field.type ∈ [.tinyBlob, .mediumBlob, .longBlob, .blob, .string, .varString] := by
    unfold mysqlTypeToFieldType at htype
    cases hsign : field.isUnsigned <;> cases hfield : field.type <;> simp_all
  unfold sizeForType ResultBind.isText
  simp only [List.mem_cons, List.not_mem_nil, or_false] at hmem
  rcases hmem with hfield | hfield | hfield | hfield | hfield | hfield <;> rw [hfield] <;>
    exact ⟨fun b hb => by rw [hb], rfl⟩

/-- **A field of a prepared result.** -/
theorem read_fieldAt {t r i : Nat} {result : StmtResult} {row : Nat → ColumnFetch} {buffer : Bytes}
    (hsum : (result.widths t).sum < 0x100000000) (hfield : result.fields[i]? = some field)
    (hfits : cell.Fits field) (hfetch : cell.AsFetch (row i))
    (hvalue : (row i).isNull = false →
      HasAt buffer (result.pointerAt t r i) (result.value t row i))
    (hterminated : ∀ b, (result.binds t)[i]? = some b → b.isText = true →
      (row i).isNull = false → (row i).length < b.bufferLength →
        HasAt buffer (result.pointerAt t r i + (row i).length) [0]) :
    cell.read floating ((result.fieldAt t row r i).read buffer) = cell.shown true := by
  have hmeta : result.fields[i]?.map (initializeDatabaseFieldMetadata · true) =
      some ⟨mysqlTypeToFieldType field, true⟩ := by
    rw [hfield]
    rfl
  cases cell with
  | integer ty v =>
    have htype : mysqlTypeToFieldType field = .ofIntType ty := hfits
    cases v with
    | none =>
      have hnull : (row i).isNull = true := hfetch
      have hread : (result.fieldAt t row r i).read buffer =
          Field.ofBinary ty none (row i).length [] := by
        simp [ResultField.read, StmtResult.fieldAt, hnull, hmeta, htype, Field.ofBinary,
          Field.filled, Field.setValue, Field.setMetadata, Field.fresh]
      rw [Cell.read, hread, Field.get, Field.checkType_binary_null]
      rfl
    | some v =>
      obtain ⟨hnull, hbytes, hlength⟩ := hfetch
      have hhas := hvalue hnull
      have htake : (ty.toBytes v.val).take ty.size = ty.toBytes v.val :=
        List.take_of_length_le (Nat.le_of_eq (IntType.length_toBytes ty v.val))
      have hwhole : result.value t row i = ty.toBytes v.val := by
        rw [StmtResult.value, getD_widths hfield, sizeForType_ofIntType htype, hbytes, hlength,
          htake, htake]
      rw [hwhole] at hhas
      obtain ⟨rest, hrest⟩ := hhas.exists_drop_eq
      have hread : (result.fieldAt t row r i).read buffer =
          Field.ofBinary ty (some v) (row i).length rest := by
        simp [ResultField.read, StmtResult.fieldAt, hnull, hmeta, htype, hrest, Field.ofBinary,
          Field.filled, Field.setValue, Field.setMetadata, Field.fresh]
      have hget : (Field.ofBinary ty (some v) (row i).length rest).get floating ty = .ok v.val :=
        get_of_checkType (Field.checkType_field (.binary (row i).length rest) v)
      rw [Cell.read, hread, hget]
      rfl
  | text v =>
    obtain ⟨htype, hmax, hwide⟩ := hfits
    rw [htype] at hmeta
    cases v with
    | none =>
      have hnull : (row i).isNull = true := hfetch
      have hread : ((result.fieldAt t row r i).read buffer).getString = .ok [] := by
        simp [Field.getString, Field.getCString, ResultField.read, StmtResult.fieldAt, hnull, hmeta,
          Bind.bind, Except.bind]
      rw [Cell.read, hread]
      rfl
    | some bytes =>
      obtain ⟨hnull, hbytes, hlength⟩ := hfetch
      obtain ⟨b, hb, hbtype, hbwidth⟩ := exists_bind_of_field hsum hfield
      obtain ⟨htext, hsize⟩ := text_column (t := t) htype
      have hsize' : sizeForType t field = field.maxLength + 1 := hsize.trans (Nat.mod_eq_of_lt hmax)
      have hfit : bytes.length ≤ field.maxLength := hwide bytes rfl
      have htake : bytes.take (field.maxLength + 1) = bytes := List.take_of_length_le (by omega)
      have hwhole : result.value t row i = bytes := by
        rw [StmtResult.value, getD_widths hfield, hsize', hbytes, hlength, htake, List.take_length]
      have hhas := hvalue hnull
      have hzero := hterminated b hb (htext b hbtype) hnull (by omega)
      rw [hwhole] at hhas
      rw [hlength] at hzero
      obtain ⟨rest, hrest⟩ := (hhas.append hzero).exists_drop_eq
      rw [List.append_assoc] at hrest
      have hread : ((result.fieldAt t row r i).read buffer).getString =
          untilZero (bytes ++ 0 :: rest) := by
        simp [Field.getString, Field.getCString, ResultField.read, StmtResult.fieldAt, hnull, hmeta,
          hrest, Bind.bind, Except.bind]
      rw [Cell.read, hread, untilZero_append]
      rfl

end Cells

section Rows

variable {floating : FloatingCheck} {t : Nat} {table : Table} {row : ServerRow}
  {cells : List Cell}

theorem readCells_eq {fields : List Field} {prepared : Bool}
    (hlength : fields.length = cells.length)
    (h : ∀ (i : Nat) (cell : Cell) (f : Field), cells[i]? = some cell → fields[i]? = some f →
      cell.read floating f = cell.shown prepared) :
    readCells floating cells fields = cells.map (Cell.shown prepared) := by
  unfold readCells
  induction cells generalizing fields with
  | nil => rfl
  | cons cell cells ih =>
    cases fields with
    | nil => cases hlength
    | cons f fields =>
      rw [List.zipWith_cons_cons, List.map_cons, h 0 cell f rfl rfl,
        ih (Nat.succ.inj hlength) fun i => h (i + 1)]

theorem readCells_textFields (h : HoldsCells table.fields row cells) :
    readCells floating cells (table.textFields row) = cells.map (Cell.shown false) := by
  have htext : row.text.length ≥ table.fields.length := by
    by_contra hlt
    obtain ⟨cell, hcell⟩ : ∃ cell, cells[row.text.length]? = some cell :=
      ⟨_, List.getElem?_eq_getElem (by rw [h.1]; omega)⟩
    have hfield := List.getElem?_eq_getElem (Nat.lt_of_not_ge hlt)
    obtain ⟨-, ⟨column, hcolumn, -⟩, -⟩ := h.2 _ _ cell hfield hcell
    rw [List.getElem?_eq_none (Nat.le_refl _)] at hcolumn
    cases hcolumn
  apply readCells_eq
  · rw [Table.textFields, List.length_zipWith, h.1]
    exact Nat.min_eq_left htext
  · intro i cell f hcell hf
    obtain ⟨field, column, hfield, hcolumn, rfl⟩ := List.getElem?_zipWith_eq_some.1 hf
    obtain ⟨hfits, ⟨column', hcolumn', htext⟩, -⟩ := h.2 i field cell hfield hcell
    rw [hcolumn] at hcolumn'
    cases hcolumn'
    exact read_textField hfits htext

/-- The fields of a row. -/
theorem rowAt_getElem? {result : StmtResult} {s : PreparedResultSet} {n k i : Nat}
    {fetched : Nat → ColumnFetch} (h : Progress t result (fun _ => n) (fun _ => n) s)
    (hi : i < result.fields.length) (hk : k < n) (hrow : result.fetches[k]? = some fetched) :
    (s.rowAt k)[i]? = some ((result.fieldAt t fetched k i).read s.buffer) := by
  have hlength : s.binds.length = result.fields.length := by
    rw [h.binds, StmtResult.length_binds]
  rw [PreparedResultSet.rowAt, List.getElem?_map, hlength, List.getElem?_take_of_lt hi,
    List.getElem?_drop, h.fields i hi k hk fetched hrow]
  rfl

theorem readCells_rowAt {result : StmtResult} {s : PreparedResultSet} {n k : Nat}
    (hsum : (result.widths t).sum < 0x100000000)
    (h : Progress t result (fun _ => n) (fun _ => n) s)
    (hterminated : Terminated t result (fun _ => n) s.buffer) (hk : k < n)
    (hrow : result.fetches[k]? = some row.binary) (hcells : HoldsCells result.fields row cells) :
    readCells floating cells (s.rowAt k) = cells.map (Cell.shown true) := by
  have hlength : (s.rowAt k).length = cells.length := by
    have hbinds : s.binds.length = result.fields.length := by
      rw [h.binds, StmtResult.length_binds]
    rw [hcells.1]
    apply Nat.le_antisymm
    · rw [PreparedResultSet.rowAt, List.length_map, List.length_take, hbinds]
      exact Nat.min_le_left _ _
    · by_contra hlt
      have hget := rowAt_getElem? h (Nat.lt_of_not_ge hlt) hk hrow
      rw [List.getElem?_eq_none (Nat.le_refl _)] at hget
      cases hget
  apply readCells_eq hlength
  intro i cell f hcell hf
  have hi : i < result.fields.length := by
    rw [← hcells.1]
    exact (List.getElem?_eq_some_iff.1 hcell).1
  rw [rowAt_getElem? h hi hk hrow] at hf
  cases hf
  have hfield := List.getElem?_eq_getElem hi
  obtain ⟨hfits, -, hfetch⟩ := hcells.2 i _ cell hfield hcell
  exact read_fieldAt hsum hfield hfits hfetch (h.values i hi k hk _ hrow)
    fun b hb htext hnull hshort => hterminated i b hb htext k hk _ hrow hnull hshort

theorem zipWith_textFields {rows : List ServerRow} {all : List (List Cell)}
    (h : List.Forall₂ (HoldsCells table.fields) rows all) :
    List.zipWith (readCells floating) all (rows.map table.textFields) =
      all.map (List.map (Cell.shown false)) := by
  induction h with
  | nil => rfl
  | cons hrow _ ih =>
    rw [List.map_cons, List.zipWith_cons_cons, readCells_textFields hrow, ih, List.map_cons]

theorem zipWith_rowAt {result : StmtResult} {s : PreparedResultSet} {rows : List ServerRow}
    {all : List (List Cell)} (hsum : (result.widths t).sum < 0x100000000)
    (h : Progress t result (fun _ => rows.length) (fun _ => rows.length) s)
    (hterminated : Terminated t result (fun _ => rows.length) s.buffer)
    (hfetches : result.fetches = rows.map ServerRow.binary)
    (hcells : List.Forall₂ (HoldsCells result.fields) rows all) :
    List.zipWith (readCells floating) all ((List.range rows.length).map s.rowAt) =
      all.map (List.map (Cell.shown true)) := by
  have hlength := hcells.length_eq
  apply List.ext_getElem
  · rw [List.length_zipWith, List.length_map, List.length_range, List.length_map, hlength,
      Nat.min_self]
  · intro k hk hk'
    rw [List.length_map] at hk'
    have hrow : k < rows.length := by omega
    have hfetched : result.fetches[k]? = some (rows.get ⟨k, hrow⟩).binary := by
      rw [hfetches, List.getElem?_map, List.getElem?_eq_getElem hrow]
      rfl
    rw [List.getElem_zipWith, List.getElem_map, List.getElem_map, List.getElem_range]
    exact readCells_rowAt hsum h hterminated hrow hfetched (hcells.get hrow hk')

end Rows

/-- **Read alike.** A query whose rows hold these cells gives them to the readers of its text result
and of its prepared result: the loops over both see every row, and each column is read as what its
cell shows. -/
theorem results_read_alike (floating : FloatingCheck) (sizeOfMysqlTime rowCount : Nat)
    (garbage : Nat → UInt8) {sql : String} (hsql : sql ≠ "") {table : Table}
    {cells : List (List Cell)} (hcells : List.Forall₂ (HoldsCells table.fields) table.rows cells)
    (hrows : table.rows ≠ [])
    (hsum : ((table.stmtResult garbage).widths sizeOfMysqlTime).sum < 0x100000000) :
    ∃ s p rows rows',
      ResultSet.syncQuery sql (some table.textResult) = .ok (some s) ∧
      PreparedResultSet.syncQuery sizeOfMysqlTime rowCount (some (table.stmtResult garbage)) =
        .ok (some p) ∧
      (∀ more, ResultSet.cursor.visit (table.rows.length + more) s = .ok rows) ∧
      (∀ more, PreparedResultSet.cursor.visit (table.rows.length + more) p = .ok rows') ∧
      List.zipWith (readCells floating) cells rows = cells.map (List.map (Cell.shown false)) ∧
      List.zipWith (readCells floating) cells rows' = cells.map (List.map (Cell.shown true)) := by
  obtain ⟨s, hs, hvisit⟩ := checked_textResult hsql hrows
  obtain ⟨p, hp, hposition, hloading⟩ :=
    construct_loading sizeOfMysqlTime rowCount (table.stmtResult garbage) rfl rfl rfl
  obtain ⟨p', hp', hprogress, hterminated⟩ := construct_terminated rowCount rfl rfl rfl hsum
  rw [hp] at hp'
  cases hp'
  have hfetches : (table.stmtResult garbage).fetches = table.rows.map ServerRow.binary := rfl
  have hall : min (table.stmtResult garbage).numRows (table.stmtResult garbage).fetches.length =
      table.rows.length := by
    rw [hfetches, List.length_map]
    exact Nat.min_self _
  rw [hall] at hprogress hterminated
  have hpos : 0 < table.rows.length := List.length_pos_iff.2 hrows
  have hcount : p.rowCount = table.rows.length := hprogress.rowCount
  have hlength : p.binds.length = table.fields.length := by
    rw [hprogress.binds, StmtResult.length_binds]
    rfl
  refine ⟨s, p, table.rows.map table.textFields, (List.range table.rows.length).map p.rowAt, hs, ?_,
    hvisit, fun more => ?_, zipWith_textFields hcells,
    zipWith_rowAt hsum hprogress hterminated hfetches hcells⟩
  · have hchecked : PreparedResultSet.checked (some p) = some p := if_neg (by omega)
    rw [PreparedResultSet.syncQuery, PreparedResultSet.query, hp]
    exact congrArg Except.ok hchecked
  · rw [← hcount]
    refine PreparedResultSet.visit_eq ?_ ?_ hposition (by omega) more
    · rw [hprogress.rowsLength, hcount, hlength]
      rfl
    · rw [hlength]
      exact List.length_pos_iff.2 table.columns

/-- A number and a text, and a number and NULL. -/
def accounts : Table where
  fields := [⟨.long, 11, 0⟩, ⟨.varString, 4, 0⟩]
  rows := [
    ⟨[⟨some [55, 0], 1⟩, ⟨some [98, 111, 98, 0], 3⟩],
      fun i => if i = 0 then ⟨false, 4, [7, 0, 0, 0]⟩ else ⟨false, 3, [98, 111, 98]⟩⟩,
    ⟨[⟨some [57, 0], 1⟩, ⟨none, 0⟩],
      fun i => if i = 0 then ⟨false, 4, [9, 0, 0, 0]⟩ else ⟨true, 0, []⟩⟩]
  columns := List.cons_ne_nil _ _
  widths := by
    intro row hrow
    rcases List.mem_cons.1 hrow with rfl | hrow
    · rfl
    · rw [List.mem_singleton.1 hrow]
      rfl

def accountCells : List (List Cell) :=
  [[.integer .int32 (some ⟨7, by decide⟩), .text (some [98, 111, 98])],
    [.integer .int32 (some ⟨9, by decide⟩), .text none]]

theorem accounts_hold :
    List.Forall₂ (HoldsCells accounts.fields) accounts.rows accountCells := by
  refine .cons ⟨rfl, ?_⟩ (.cons ⟨rfl, ?_⟩ .nil)
  · rintro (_ | _ | i) field cell hfield hcell <;> cases hfield <;> cases hcell
    · exact ⟨rfl, ⟨_, rfl, 0, [0], by decide, by decide⟩, rfl, by decide, rfl⟩
    · refine ⟨⟨rfl, by decide, ?_⟩, ⟨_, rfl, [], rfl, rfl⟩, rfl, rfl, rfl⟩
      rintro _ ⟨⟩
      decide
  · rintro (_ | _ | i) field cell hfield hcell <;> cases hfield <;> cases hcell
    · exact ⟨rfl, ⟨_, rfl, 0, [0], by decide, by decide⟩, rfl, by decide, rfl⟩
    · refine ⟨⟨rfl, by decide, ?_⟩, ⟨_, rfl, rfl, rfl⟩, rfl⟩
      rintro _ ⟨⟩

theorem results_read_alike_accounts : ∃ s p rows rows',
    ResultSet.syncQuery "SELECT" (some accounts.textResult) = .ok (some s) ∧
    PreparedResultSet.syncQuery 40 0 (some (accounts.stmtResult fun _ => 0xcd)) = .ok (some p) ∧
    (∀ more, ResultSet.cursor.visit (2 + more) s = .ok rows) ∧
    (∀ more, PreparedResultSet.cursor.visit (2 + more) p = .ok rows') ∧
    List.zipWith (readCells fun _ _ _ _ => .ok (true, 0)) accountCells rows =
      accountCells.map (List.map (Cell.shown false)) ∧
    List.zipWith (readCells fun _ _ _ _ => .ok (true, 0)) accountCells rows' =
      accountCells.map (List.map (Cell.shown true)) :=
  results_read_alike (fun _ _ _ _ => .ok (true, 0)) 40 0 (fun _ => 0xcd) (by decide) accounts_hold
    (List.cons_ne_nil _ _) (by decide)

end GameServer.Database
