import GameServer.Database.ResultBuffer

/-!
# The rows of a prepared result

The constructor gives each row its fields, whatever the sizes of the columns are
(`construct_loading`). Its invariant is `Loading`. It says less of a field than `Progress` does, and
so the bytes of a row need not fit into the 32 bits of the offset: an offset that is too large is
taken from the front again, where the writes still stay inside the buffer.
-/

namespace GameServer.Database

open GameServer.Lib GameServer.Http

/-- What the constructor has set in the field of a column, but for where it points to. -/
structure LoadedField (result : StmtResult) (row : Nat → ColumnFetch) (i : Nat)
    (field : ResultField) : Prop where
  metadata : field.metadata = result.fields[i]?.map (initializeDatabaseFieldMetadata · true)
  isNone : field.pointer.isNone = (row i).isNull
  length : field.length = (row i).length % 0x100000000

/-- The pointer of a column has its place in the row that is next, and the fields of the first
`read i` rows are set. -/
structure Loading (t : Nat) (result : StmtResult) (read : Nat → Nat) (s : PreparedResultSet) :
    Prop where
  rowCount : s.rowCount = result.numRows
  binds : s.binds = result.binds t
  fieldMetadata : s.fieldMetadata = result.fields.map (initializeDatabaseFieldMetadata · true)
  bufferLength : s.buffer.length = (result.widths t).sum * result.numRows
  rowsLength : s.rows.length = result.numRows * result.fields.length
  pointers : ∀ (i : Nat) (b : ResultBind), (result.binds t)[i]? = some b →
    ∃ pointer, s.pointers[i]? = some pointer ∧
      pointer + b.bufferLength ≤ (result.widths t).sum * (read i + 1)
  fields : ∀ i < result.fields.length, ∀ r < read i, ∀ row, result.fetches[r]? = some row →
    ∃ field, s.rows[r * result.fields.length + i]? = some field ∧ LoadedField result row i field

section Steps

variable {t : Nat} {result : StmtResult} {s : PreparedResultSet} {row : Nat → ColumnFetch}
  {r i : Nat}

/-- A column has its place in the row, also where the offset has been narrowed. -/
theorem bindBuffers_end_le (binds : List ResultBind) (offset : Nat) {b : ResultBind}
    (h : (PreparedResultSet.bindBuffers offset binds)[i]? = some b) :
    b.buffer + b.bufferLength ≤ offset + (binds.map ResultBind.bufferLength).sum := by
  induction binds generalizing offset i with
  | nil => cases h
  | cons c binds ih =>
    rw [List.map_cons, List.sum_cons]
    cases i with
    | zero =>
      cases h
      dsimp only
      omega
    | succ i =>
      have htail := ih _ h
      have hmod := Nat.mod_le (offset + c.bufferLength) 0x100000000
      omega

theorem binds_end_le {b : ResultBind} (h : (result.binds t)[i]? = some b) :
    b.buffer + b.bufferLength ≤ (result.widths t).sum := by
  have hle := bindBuffers_end_le _ 0 h
  rw [StmtResult.map_bufferLength_columnBind, Nat.zero_add] at hle
  exact hle

theorem exists_bind (hi : i < result.fields.length) : ∃ b, (result.binds t)[i]? = some b :=
  ⟨_, List.getElem?_eq_getElem (StmtResult.length_binds.symm ▸ hi)⟩

/-- The place of a column in the row of the buffer that it is at. -/
theorem Loading.place {read : Nat → Nat} (h : Loading t result read s)
    (hr : read i < result.numRows)
    {b : ResultBind} (hb : (result.binds t)[i]? = some b) :
    ∃ pointer, s.pointers[i]? = some pointer ∧ pointer + b.bufferLength ≤ s.buffer.length := by
  obtain ⟨pointer, hpointer, hle⟩ := h.pointers i b hb
  refine ⟨pointer, hpointer, Nat.le_trans hle ?_⟩
  rw [h.bufferLength]
  exact Nat.mul_le_mul_left _ hr

theorem Loading.fetchColumn (h : Loading t result (fun _ => r) s)
    (hi : i < result.fields.length) (hr : r < result.numRows) :
    ∃ s', PreparedResultSet.fetchColumn row i s = .ok s' ∧
      Loading t result (fun _ => r) s' ∧ s'.rowPosition = s.rowPosition := by
  obtain ⟨b, hb⟩ := exists_bind (t := t) hi
  obtain ⟨pointer, hpointer, hle⟩ := h.place hr hb
  rw [← h.binds] at hb
  simp only [PreparedResultSet.fetchColumn, hb, hpointer]
  by_cases hnull : (row i).isNull = true
  · rw [if_pos hnull]
    exact ⟨s, rfl, h, rfl⟩
  · rw [if_neg hnull]
    have hin : pointer + ((row i).bytes.take b.bufferLength).length ≤ s.buffer.length := by
      rw [List.length_take]
      omega
    obtain ⟨buffer, hstore⟩ := exists_store hin
    rw [hstore]
    exact ⟨_, rfl, { h with bufferLength := (length_store hstore).trans h.bufferLength }, rfl⟩

/-- The terminator stands in the place of its column. -/
theorem exists_terminate {b : ResultBind} {pointer : Nat} {buffer : Bytes} (n : Nat)
    (h : pointer + b.bufferLength ≤ buffer.length) :
    ∃ buffer', PreparedResultSet.terminate b pointer n buffer = .ok buffer' ∧
      buffer'.length = buffer.length := by
  unfold PreparedResultSet.terminate
  by_cases hplace : (b.isText && decide (n < b.bufferLength)) = true
  · rw [if_pos hplace]
    rw [Bool.and_eq_true, decide_eq_true_iff] at hplace
    have hin : pointer + n + [(0 : UInt8)].length ≤ buffer.length := by
      rw [List.length_singleton]
      omega
    obtain ⟨buffer', hstore⟩ := exists_store hin
    exact ⟨buffer', hstore, length_store hstore⟩
  · rw [if_neg hplace]
    exact ⟨buffer, rfl, rfl⟩

/-- One field more is set. -/
theorem loaded_set {rows : List ResultField} {field : ResultField}
    (hrows : ∀ j < result.fields.length, ∀ r' < stage r i j, ∀ row',
      result.fetches[r']? = some row' → ∃ f, rows[r' * result.fields.length + j]? = some f ∧
        LoadedField result row' j f)
    (hi : i < result.fields.length) (hrow : result.fetches[r]? = some row)
    (hlt : r * result.fields.length + i < rows.length) (hfield : LoadedField result row i field) :
    ∀ j < result.fields.length, ∀ r' < stage r (i + 1) j, ∀ row',
      result.fetches[r']? = some row' →
        ∃ f, (rows.set (r * result.fields.length + i) field)[r' * result.fields.length + j]? =
          some f ∧ LoadedField result row' j f := by
  intro j hj r' hr' row' hrow'
  by_cases hown : j = i ∧ r' = r
  · obtain ⟨rfl, rfl⟩ := hown
    rw [hrow] at hrow'
    cases hrow'
    exact ⟨field, List.getElem?_set_self hlt, hfield⟩
  · have hold : r' < stage r i j := (lt_stage_succ hr').resolve_right fun h => hown ⟨h.2, h.1⟩
    have hne : j = i → r' ≠ r := fun hji heq => hown ⟨hji, heq⟩
    rw [List.getElem?_set_ne (index_ne hi hj hne)]
    exact hrows j hj r' hold row' hrow'

/-- The column that is read moves on by a row at most. -/
theorem place_next {pointers pointers' : List Nat}
    (hpointers : ∀ (j : Nat) (b : ResultBind), (result.binds t)[j]? = some b →
      ∃ pointer, pointers[j]? = some pointer ∧
        pointer + b.bufferLength ≤ (result.widths t).sum * (stage r i j + 1))
    {pointer : Nat} (hown : pointers[i]? = some pointer) {pointer' : Nat}
    (hown' : pointers'[i]? = some pointer') (hle : pointer' ≤ pointer + (result.widths t).sum)
    (hothers : ∀ j, j ≠ i → pointers'[j]? = pointers[j]?) (j : Nat) (b : ResultBind)
    (hb : (result.binds t)[j]? = some b) :
    ∃ pointer, pointers'[j]? = some pointer ∧
      pointer + b.bufferLength ≤ (result.widths t).sum * (stage r (i + 1) j + 1) := by
  obtain ⟨p, hp, hend⟩ := hpointers j b hb
  by_cases hji : j = i
  · subst hji
    rw [hown] at hp
    cases hp
    refine ⟨pointer', hown', ?_⟩
    rw [stage_self] at hend
    rw [stage_succ_self, Nat.mul_succ]
    omega
  · rw [stage_succ_of_ne hji, hothers j hji]
    exact ⟨p, hp, hend⟩

theorem Loading.readColumn (h : Loading t result (stage r i) s) (hposition : s.rowPosition = r)
    (hi : i < result.fields.length) (hrow : result.fetches[r]? = some row)
    (hr : r < result.numRows) :
    ∃ s', PreparedResultSet.readColumn (result.widths t).sum row i s = .ok s' ∧
      Loading t result (stage r (i + 1)) s' ∧ s'.rowPosition = s.rowPosition := by
  obtain ⟨b, hb⟩ := exists_bind (t := t) hi
  obtain ⟨pointer, hpointer, hle⟩ := h.place ((stage_self r i).symm ▸ hr) hb
  have hmeta : s.fieldMetadata[i]? =
      some (initializeDatabaseFieldMetadata result.fields[i] true) := by
    rw [h.fieldMetadata, List.getElem?_map, List.getElem?_eq_getElem hi]
    rfl
  have hlt : r * result.fields.length + i < s.rows.length := by
    rw [h.rowsLength]
    calc r * result.fields.length + i < (r + 1) * result.fields.length := by
          rw [Nat.succ_mul]
          omega
      _ ≤ result.numRows * result.fields.length := Nat.mul_le_mul_right _ hr
  have hlength : s.binds.length = result.fields.length := by
    rw [h.binds, StmtResult.length_binds]
  have hdescribed : some (initializeDatabaseFieldMetadata result.fields[i] true) =
      result.fields[i]?.map (initializeDatabaseFieldMetadata · true) := by
    rw [List.getElem?_eq_getElem hi]
    rfl
  rw [← h.binds] at hb
  simp only [PreparedResultSet.readColumn, hposition, hlength, hb, hpointer, hmeta,
    List.getElem?_eq_getElem hlt]
  by_cases hnull : (row i).isNull = true
  · rw [hnull]
    refine ⟨_, rfl, { h with rowsLength := ?_, pointers := ?_, fields := ?_ }, rfl⟩
    · rw [List.length_set]
      exact h.rowsLength
    · exact place_next h.pointers hpointer hpointer (Nat.le_add_right _ _) fun _ _ => rfl
    · exact loaded_set h.fields hi hrow hlt ⟨hdescribed, hnull.symm, rfl⟩
  · have hvalue := Bool.eq_false_iff.2 hnull
    rw [hvalue]
    obtain ⟨buffer, hterminate, hbuffer⟩ := exists_terminate (row i).length hle
    simp only [hterminate]
    refine ⟨_, rfl, { h with
      bufferLength := hbuffer.trans h.bufferLength
      rowsLength := ?_, pointers := ?_, fields := ?_ }, rfl⟩
    · rw [List.length_set]
      exact h.rowsLength
    · have hin : i < s.pointers.length := (List.getElem?_eq_some_iff.1 hpointer).1
      exact place_next h.pointers hpointer (List.getElem?_set_self hin) (Nat.le_refl _)
        fun j hji => List.getElem?_set_ne (Ne.symm hji)
    · exact loaded_set h.fields hi hrow hlt ⟨hdescribed, hvalue.symm, rfl⟩

theorem Loading.congr {read read' : Nat → Nat} (h : Loading t result read s)
    (hread : ∀ j < result.fields.length, read' j = read j) : Loading t result read' s :=
  { h with
    pointers := fun j b hb => by
      have hj : j < (result.binds t).length := (List.getElem?_eq_some_iff.1 hb).1
      rw [hread j (StmtResult.length_binds ▸ hj)]
      exact h.pointers j b hb
    fields := fun j hj r hr => h.fields j hj r (hread j hj ▸ hr) }

/-- A turn of the loop over the rows. -/
theorem Loading.readRow (h : Loading t result (fun _ => r) s) (hposition : s.rowPosition = r)
    (hrow : result.fetches[r]? = some row) (hr : r < result.numRows) :
    ∃ s', PreparedResultSet.readRow (result.widths t).sum row s = .ok s' ∧
      Loading t result (fun _ => r + 1) s' ∧ s'.rowPosition = r + 1 := by
  obtain ⟨v, hv, hread, hsame⟩ := readRow_rule row (n := result.fields.length)
    (I := fun _ u => Loading t result (fun _ => r) u ∧ u.rowPosition = r)
    (J := fun i u => Loading t result (stage r i) u ∧ u.rowPosition = r)
    (by
      rintro i u (⟨hI, -⟩ | ⟨hJ, -⟩)
      · rw [hI.binds, StmtResult.length_binds]
      · rw [hJ.binds, StmtResult.length_binds])
    (fun i hi u hI => by
      obtain ⟨v, hv, hloading, hsame⟩ := hI.1.fetchColumn hi hr
      exact ⟨v, hv, hloading, hsame.trans hI.2⟩)
    (fun u hI => ⟨(stage_zero r).symm ▸ hI.1, hI.2⟩)
    (fun i hi u hJ => by
      obtain ⟨v, hv, hloading, hsame⟩ := hJ.1.readColumn hJ.2 hi hrow hr
      exact ⟨v, hv, hloading, hsame.trans hJ.2⟩)
    ⟨h, hposition⟩
  have hdone : Loading t result (fun _ => r + 1) v := hread.congr fun j hj => (if_pos hj).symm
  exact ⟨_, hv, { hdone with }, congrArg (· + 1) hsame⟩

end Steps

theorem loading_bound (t : Nat) (result : StmtResult) :
    Loading t result (fun _ => 0) (result.bound t) where
  rowCount := rfl
  binds := rfl
  fieldMetadata := rfl
  bufferLength := by simp [StmtResult.bound]
  rowsLength := List.length_replicate
  pointers := by
    intro i b hb
    refine ⟨b.buffer, by rw [StmtResult.bound, List.getElem?_map, hb]; rfl, ?_⟩
    rw [Nat.zero_add, Nat.mul_one]
    exact binds_end_le hb
  fields := fun _ _ r hr => absurd hr (Nat.not_lt_zero r)

/-- **The rows of a prepared result.** The constructor ends with all rows that it was given, and
stands before the first. -/
theorem construct_loading (sizeOfMysqlTime rowCount : Nat) (result : StmtResult)
    (hmetadata : result.hasMetadata = true) (hstored : result.storeResult = 0)
    (hbound : result.bindFails = false) :
    ∃ s, PreparedResultSet.construct sizeOfMysqlTime rowCount result = .ok s ∧
      s.rowPosition = 0 ∧
      Loading sizeOfMysqlTime result (fun _ => min result.numRows result.fetches.length) s := by
  obtain ⟨s, hs, hloading, -⟩ := fetchRows_rule
    (I := fun r s => Loading sizeOfMysqlTime result (fun _ => r) s ∧ s.rowPosition = r)
    (fun r s hI => ⟨hI.1.rowCount, hI.2⟩)
    (fun r s row hI hrow hr => hI.1.readRow hI.2 hrow hr)
    (List.drop_zero (l := result.fetches)).symm ⟨loading_bound _ _, rfl⟩ (Nat.zero_le _)
  refine ⟨{ s with rowPosition := 0 }, ?_, rfl, { hloading with }⟩
  rw [construct_eq rowCount hmetadata hstored hbound, hs]
  rfl

end GameServer.Database
