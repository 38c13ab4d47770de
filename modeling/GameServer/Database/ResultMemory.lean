import GameServer.Lib.FreeStore
import GameServer.Lib.Machine

/-!
# The memory of prepared results

A `PreparedResultSet` owns the metadata of its query, its array of binds and the buffer of its rows.
The arrays of lengths and NULL flags are not its own: once the binds are accepted, the copy of them
in the client library's statement points to these arrays, and the next query of the statement or its
destructor releases them.

`Ownership` says what a run does to the blocks without their addresses. The code frees a block twice
exactly where `Ownership.Safe` fails (`Owns.exec_iff`): a result whose binds are refused is cleaned
up by its constructor and again by its destructor, and a query that fails to store or bind its
result leaves the arrays of an earlier one freed, but still in the statement.
-/

namespace GameServer.Database

open GameServer.Lib

/-! ## The code -/

inductive ResultBlock where
  | metadata | binds | isNull | length | data
  deriving DecidableEq, Repr

abbrev ResultStore := FreeStore ResultBlock

/-- What the client library answers to a query and the constructor of its result. -/
structure ResultOutcome where
  /-- Whether `mysql_stmt_result_metadata` gives a result. -/
  hasMetadata : Bool
  storeResult : Nat
  bindResult : Nat
  /-- Whether a `mysql_stmt_bind_result` that fails has copied the binds. -/
  bindCopies : Bool
  deriving DecidableEq, Repr

/-- What the code reads of a `MYSQL_STMT`. -/
structure StmtHandle where
  /-- `bind->length`, the array of lengths. -/
  bindLength : Option Nat
  /-- `bind->is_null`, the array of NULL flags. -/
  bindIsNull : Option Nat
  bindResultDone : Bool
  deriving DecidableEq, Repr

/-- The pointers of a `PreparedResultSet`. -/
structure ResultPointers where
  metadataResult : Option Nat
  /-- `_pBind`, with the buffer of its first column. -/
  bind : Option (Nat × Nat)
  deriving DecidableEq, Repr

/-- The constructor of a result and the destructor of a statement release the arrays that the binds
of an earlier result point to. -/
def StmtHandle.deleteArrays (m : ResultStore) (h : StmtHandle) : Except Halt ResultStore :=
  if h.bindResultDone then do
    let m ← m.delete h.bindLength
    m.delete h.bindIsNull
  else .ok m

namespace ResultPointers

/-- `CleanUp`; the pointer to the metadata stays. -/
def cleanUp (m : ResultStore) (r : ResultPointers) :
    Except Halt (ResultStore × ResultPointers) := do
  let m ← m.delete r.metadataResult
  match r.bind with
  | none => .ok (m, r)
  | some (bind, buffer) =>
    let m ← m.free buffer
    let m ← m.free bind
    .ok (m, { r with bind := none })

/-- The constructor from the allocation of the binds on. -/
def storeAndBind (m : ResultStore) (h : StmtHandle) (metadata : Nat) (o : ResultOutcome) :
    Except Halt (ResultStore × StmtHandle × ResultPointers) := do
  let bind := m.next
  let m := m.allocate .binds
  let isNull := m.next
  let m := m.allocate .isNull
  let length := m.next
  let m := m.allocate .length
  if o.storeResult ≠ 0 then
    let m ← m.free bind
    let m ← m.free isNull
    let m ← m.free length
    .ok (m, h, ⟨some metadata, none⟩)
  else
    let buffer := m.next
    let m := m.allocate .data
    if o.bindResult ≠ 0 then
      let h := if o.bindCopies then
        { h with bindLength := some length, bindIsNull := some isNull } else h
      let (m, r) ← cleanUp m ⟨some metadata, some (bind, buffer)⟩
      let m ← m.free isNull
      let m ← m.free length
      .ok (m, h, r)
    else .ok (m, ⟨some length, some isNull, true⟩, ⟨some metadata, some (bind, buffer)⟩)

/-- The constructor, for the metadata that `Query` has asked for. -/
def construct (m : ResultStore) (h : StmtHandle) (o : ResultOutcome) :
    Except Halt (ResultStore × StmtHandle × ResultPointers) :=
  if !o.hasMetadata then .ok (m, h, ⟨none, none⟩)
  else do
    let metadata := m.next
    let m ← h.deleteArrays (m.allocate .metadata)
    storeAndBind m h metadata o

end ResultPointers

/-- A statement, and the results of its queries, each until it is destroyed. -/
structure ResultMemory where
  store : ResultStore
  stmt : Option StmtHandle
  results : List (Option ResultPointers)

inductive ResultEvent where
  | query (o : ResultOutcome)
  /-- The last pointer to the result of this query goes away. -/
  | destroyResult (i : Nat)
  /-- The destructor of the statement. -/
  | close
  deriving DecidableEq, Repr

namespace ResultMemory

/-- A statement that was just prepared. -/
def fresh : ResultMemory := ⟨.empty, some ⟨none, none, false⟩, []⟩

/-- Using what was destroyed is a fault. -/
def exec (s : ResultMemory) : ResultEvent → Except Halt ResultMemory
  | .query o =>
    match s.stmt with
    | none => .error .fault
    | some h => (ResultPointers.construct s.store h o).map fun (store, h, r) =>
      ⟨store, some h, s.results ++ [some r]⟩
  | .destroyResult i =>
    match s.results[i]?.join with
    | none => .error .fault
    | some r => (r.cleanUp s.store).map fun (store, _) =>
      { s with store, results := s.results.set i none }
  | .close =>
    match s.stmt with
    | none => .error .fault
    | some h => (h.deleteArrays s.store).map fun store => { s with store, stmt := none }

end ResultMemory

def resultMemory : Machine ResultMemory ResultEvent where
  init s := s = .fresh
  step s e := (s.exec e).toOption

/-! ## Who owns what -/

/-- The statement and its results without addresses. -/
structure Ownership where
  /-- `bind_result_done`. -/
  done : Bool
  /-- The arrays that the statement points to are freed. -/
  dangling : Bool
  closed : Bool
  /-- Of each result that is not destroyed, whether its metadata is freed already. -/
  results : List (Option Bool)
  deriving DecidableEq, Repr

namespace Ownership

def fresh : Ownership := ⟨false, false, false, []⟩

def next (q : Ownership) : ResultEvent → Ownership
  | .query o =>
    if !o.hasMetadata then { q with results := q.results ++ [some false] }
    else if o.storeResult ≠ 0 then
      { q with dangling := q.done, results := q.results ++ [some false] }
    else if o.bindResult ≠ 0 then
      { q with dangling := q.done, results := q.results ++ [some true] }
    else { q with done := true, dangling := false, results := q.results ++ [some false] }
  | .destroyResult i => { q with results := q.results.set i none }
  | .close => { q with closed := true }

section Query

variable (q : Ownership) {o : ResultOutcome}

theorem next_noMetadata (hmetadata : o.hasMetadata = false) :
    q.next (.query o) = { q with results := q.results ++ [some false] } := by
  simp [next, hmetadata]

theorem next_storeFails (hmetadata : o.hasMetadata = true) (hstore : o.storeResult ≠ 0) :
    q.next (.query o) =
      { q with dangling := q.done, results := q.results ++ [some false] } := by
  simp [next, hmetadata, hstore]

theorem next_bindFails (hmetadata : o.hasMetadata = true) (hstore : o.storeResult = 0)
    (hbind : o.bindResult ≠ 0) :
    q.next (.query o) = { q with dangling := q.done, results := q.results ++ [some true] } := by
  simp [next, hmetadata, hstore, hbind]

theorem next_bound (hmetadata : o.hasMetadata = true) (hstore : o.storeResult = 0)
    (hbind : o.bindResult = 0) :
    q.next (.query o) =
      { q with done := true, dangling := false, results := q.results ++ [some false] } := by
  simp [next, hmetadata, hstore, hbind]

theorem exists_results_query (o : ResultOutcome) :
    ∃ freed, (q.next (.query o)).results = q.results ++ [some freed] := by
  simp only [next]
  split
  · exact ⟨_, rfl⟩
  · split
    · exact ⟨_, rfl⟩
    · split <;> exact ⟨_, rfl⟩

end Query

/-- The rules of the callers: no query of a statement that is closed, nothing destroyed twice. -/
def Legal (q : Ownership) : ResultEvent → Prop
  | .query _ | .close => q.closed = false
  | .destroyResult i => q.results[i]?.join ≠ none

/-- The event frees nothing that is freed already. -/
def Safe (q : Ownership) : ResultEvent → Prop
  | .query o => o.hasMetadata = true → q.dangling = false
  | .destroyResult i => q.results[i]?.join ≠ some true
  | .close => q.dangling = false

instance (q : Ownership) : DecidablePred q.Legal
  | .query _ | .close => inferInstanceAs (Decidable (_ = _))
  | .destroyResult _ => inferInstanceAs (Decidable (_ ≠ _))

instance (q : Ownership) : DecidablePred q.Safe
  | .query _ => inferInstanceAs (Decidable (_ → _))
  | .destroyResult _ => inferInstanceAs (Decidable (_ ≠ _))
  | .close => inferInstanceAs (Decidable (_ = _))

end Ownership

/-! ## The blocks of a statement and of a result -/

/-- The arrays that the statement points to, unless they are freed. -/
def StmtHandle.held (h : StmtHandle) (dangling : Bool) : List Nat :=
  if h.bindResultDone && !dangling then h.bindLength.toList ++ h.bindIsNull.toList else []

def ResultPointers.held (r : ResultPointers) (freed : Bool) : List Nat :=
  (if freed then [] else r.metadataResult.toList) ++
    match r.bind with
    | none => []
    | some (bind, buffer) => [buffer, bind]

section Blocks

variable {m : ResultStore} {h : StmtHandle} {r : ResultPointers} {held : List Nat} {lost a : Nat}

theorem deleteArrays_returns (hl : m.Ledger (h.held false ++ held) lost) :
    ∃ m', h.deleteArrays m = .ok m' ∧ m'.Ledger held lost ∧ m.Later m' ∧
      (h.bindResultDone = true → ∀ a, h.bindLength = some a → m'.Dead a) := by
  unfold StmtHandle.held at hl
  unfold StmtHandle.deleteArrays
  cases hdone : h.bindResultDone with
  | false =>
    rw [hdone] at hl
    exact ⟨m, rfl, hl, .refl m, fun hfalse => absurd hfalse Bool.false_ne_true⟩
  | true =>
    rw [hdone] at hl
    simp only [Bool.not_false, Bool.and_self, if_true, List.append_assoc] at hl
    obtain ⟨m₁, hlength, h₁, -⟩ := hl.delete
    obtain ⟨m₂, hisNull, h₂, -⟩ := h₁.delete
    obtain ⟨hlater₁, hdead₁⟩ := FreeStore.later_delete hlength
    obtain ⟨hlater₂, -⟩ := FreeStore.later_delete hisNull
    refine ⟨m₂, ?_, h₂, hlater₁.trans hlater₂, fun _ a ha => hlater₂ a (hdead₁ a ha)⟩
    rw [if_pos rfl, hlength]
    exact hisNull

theorem deleteArrays_fault (hdone : h.bindResultDone = true) (ha : h.bindLength = some a)
    (hdead : m.Dead a) : h.deleteArrays m = .error .fault := by
  unfold StmtHandle.deleteArrays
  rw [if_pos hdone, ha, FreeStore.delete, FreeStore.free_of_dead hdead]
  rfl

namespace ResultPointers

theorem cleanUp_returns (hl : m.Ledger (r.held false ++ held) lost) :
    ∃ m', r.cleanUp m = .ok (m', { r with bind := none }) ∧ m'.Ledger held lost ∧ m.Later m' ∧
      ∀ a, r.metadataResult = some a → m'.Dead a := by
  obtain ⟨metadataResult, binds⟩ := r
  unfold ResultPointers.held at hl
  rw [List.append_assoc] at hl
  obtain ⟨m₁, hmetadata, h₁, -⟩ := hl.delete
  obtain ⟨hlater₁, hdead₁⟩ := FreeStore.later_delete hmetadata
  unfold cleanUp
  simp only [hmetadata, Bind.bind, Except.bind]
  cases binds with
  | none => exact ⟨m₁, rfl, h₁, hlater₁, hdead₁⟩
  | some p =>
    obtain ⟨m₂, hbuffer, h₂, -⟩ := h₁.free
    obtain ⟨m₃, hbind, h₃, -⟩ := h₂.free
    have hlater₂ := (FreeStore.later_free hbuffer).1.trans (FreeStore.later_free hbind).1
    refine ⟨m₃, ?_, h₃, hlater₁.trans hlater₂, fun a ha => hlater₂ a (hdead₁ a ha)⟩
    simp only [hbuffer, hbind]

theorem cleanUp_fault (ha : r.metadataResult = some a) (hdead : m.Dead a) :
    r.cleanUp m = .error .fault := by
  unfold cleanUp
  rw [ha, FreeStore.delete, FreeStore.free_of_dead hdead]
  rfl

/-- The three arrays that every way through the function starts with. -/
theorem arrays_allocated (hl : m.Ledger held lost) :
    (((m.allocate .binds).allocate .isNull).allocate .length).Ledger
      (((m.allocate .binds).allocate .isNull).next :: (m.allocate .binds).next :: m.next :: held)
      lost ∧ m.Later (((m.allocate .binds).allocate .isNull).allocate .length) :=
  ⟨((hl.allocate .binds).allocate .isNull).allocate .length,
    ((FreeStore.Later.allocate _ _).trans (.allocate _ _)).trans (.allocate _ _)⟩

/-- A failed `mysql_stmt_store_result`. -/
theorem storeAndBind_storeFails (hl : m.Ledger (a :: held) lost) {o : ResultOutcome}
    (ho : o.storeResult ≠ 0) :
    ∃ m', storeAndBind m h a o = .ok (m', h, ⟨some a, none⟩) ∧ m'.Ledger (a :: held) lost ∧
      m.Later m' := by
  obtain ⟨hlength, hlater⟩ := arrays_allocated hl
  have hperm := (List.reverse_perm [m.next, (m.allocate .binds).next,
    ((m.allocate .binds).allocate .isNull).next]).append_right (a :: held)
  obtain ⟨m₁, hfree₁, h₁, -⟩ := (hlength.perm hperm).free
  obtain ⟨m₂, hfree₂, h₂, -⟩ := FreeStore.Ledger.free h₁
  obtain ⟨m₃, hfree₃, h₃, -⟩ := FreeStore.Ledger.free h₂
  refine ⟨m₃, ?_, h₃, ?_⟩
  · unfold storeAndBind
    rw [if_pos ho]
    simp only [hfree₁, hfree₂, hfree₃, Bind.bind, Except.bind]
  · exact hlater.trans (((FreeStore.later_free hfree₁).1.trans
      (FreeStore.later_free hfree₂).1).trans (FreeStore.later_free hfree₃).1)

/-- A failed `mysql_stmt_bind_result`: the metadata is freed, and the pointer to it stays. -/
theorem storeAndBind_bindFails (hl : m.Ledger (a :: held) lost) {o : ResultOutcome}
    (hstore : o.storeResult = 0) (hbind : o.bindResult ≠ 0) :
    ∃ m' h' length, storeAndBind m h a o = .ok (m', h', ⟨some a, none⟩) ∧ m'.Ledger held lost ∧
      m.Later m' ∧ m'.Dead a ∧ h'.bindResultDone = h.bindResultDone ∧
      (h'.bindLength = h.bindLength ∨ h'.bindLength = some length ∧ m'.Dead length) := by
  obtain ⟨hlength, hlater⟩ := arrays_allocated hl
  have hdata := hlength.allocate .data
  generalize hd : m.next = bind at hdata
  generalize hn : (m.allocate .binds).next = isNull at hdata
  generalize hlen : ((m.allocate .binds).allocate .isNull).next = length at hdata
  generalize hbuf : (((m.allocate .binds).allocate .isNull).allocate .length).next = buffer at hdata
  have hperm : (buffer :: length :: isNull :: bind :: a :: held).Perm
      ((⟨some a, some (bind, buffer)⟩ : ResultPointers).held false ++
        (isNull :: length :: held)) := by
    apply List.perm_iff_count.2
    intro x
    simp [ResultPointers.held, List.count_cons]
    omega
  obtain ⟨m₁, hclean, h₁, hlater₁, hdead⟩ := cleanUp_returns (hdata.perm hperm)
  obtain ⟨m₂, hfree₂, h₂, -⟩ := h₁.free
  obtain ⟨m₃, hfree₃, h₃, -⟩ := h₂.free
  have hlater₂ := FreeStore.later_free hfree₂
  have hlater₃ := FreeStore.later_free hfree₃
  refine ⟨m₃, if o.bindCopies then
      { h with bindLength := some length, bindIsNull := some isNull } else h,
    length, ?_, h₃, ?_, ?_, ?_, ?_⟩
  · unfold storeAndBind
    rw [if_neg (not_not_intro hstore), if_pos hbind]
    simp only [hd, hn, hlen, hbuf, hclean, hfree₂, hfree₃, Bind.bind, Except.bind]
  · exact (hlater.trans (.allocate _ _)).trans ((hlater₁.trans hlater₂.1).trans hlater₃.1)
  · exact hlater₃.1 a (hlater₂.1 a (hdead a rfl))
  · split <;> rfl
  · split
    · exact .inr ⟨rfl, hlater₃.2⟩
    · exact .inl rfl

/-- The binds are accepted: the statement points to the arrays. -/
theorem storeAndBind_returns (hl : m.Ledger (a :: held) lost) {o : ResultOutcome}
    (hstore : o.storeResult = 0) (hbind : o.bindResult = 0) :
    ∃ m' h' r, storeAndBind m h a o = .ok (m', h', r) ∧
      m'.Ledger (h'.held false ++ (r.held false ++ held)) lost ∧ m.Later m' ∧
      h'.bindResultDone = true ∧ h'.bindLength.isSome := by
  obtain ⟨hlength, hlater⟩ := arrays_allocated hl
  have hdata := hlength.allocate .data
  generalize hd : m.next = bind at hdata
  generalize hn : (m.allocate .binds).next = isNull at hdata
  generalize hlen : ((m.allocate .binds).allocate .isNull).next = length at hdata
  generalize hbuf : (((m.allocate .binds).allocate .isNull).allocate .length).next = buffer at hdata
  have hperm : (buffer :: length :: isNull :: bind :: a :: held).Perm
      ((⟨some length, some isNull, true⟩ : StmtHandle).held false ++
        ((⟨some a, some (bind, buffer)⟩ : ResultPointers).held false ++ held)) := by
    apply List.perm_iff_count.2
    intro x
    simp [StmtHandle.held, ResultPointers.held, List.count_cons]
    omega
  refine ⟨_, _, _, ?_, hdata.perm hperm, ?_, rfl, rfl⟩
  · unfold storeAndBind
    rw [if_neg (not_not_intro hstore), if_neg (not_not_intro hbind)]
    simp only [hd, hn, hlen, hbuf]
  · exact hlater.trans (.allocate _ _)

end ResultPointers

end Blocks

/-! ## Ownership is what the code does -/

abbrev ResultEntry := Option (ResultPointers × Bool)

def ResultEntry.held : ResultEntry → List Nat
  | none => []
  | some (r, freed) => r.held freed

/-- The statement points to arrays that are live, or to freed ones where that is recorded. -/
def StmtOwns (m : ResultStore) (q : Ownership) : Option StmtHandle → Prop
  | none => q.closed = true
  | some h => q.closed = false ∧ h.bindResultDone = q.done ∧
    (q.done = true → h.bindLength.isSome) ∧
    (q.dangling = true → q.done = true ∧ ∃ a, h.bindLength = some a ∧ m.Dead a)

def stmtHeld (q : Ownership) : Option StmtHandle → List Nat
  | none => []
  | some h => h.held q.dangling

/-- The live blocks are those of the statement and of its results. -/
structure Owns (s : ResultMemory) (q : Ownership) (entries : List ResultEntry) : Prop where
  results : s.results = entries.map (Option.map Prod.fst)
  statuses : q.results = entries.map (Option.map Prod.snd)
  ledger : s.store.Ledger (stmtHeld q s.stmt ++ entries.flatMap ResultEntry.held) 0
  stmt : StmtOwns s.store q s.stmt
  freed : ∀ r, some (r, true) ∈ entries → ∃ a, r.metadataResult = some a ∧ s.store.Dead a

namespace Owns

variable {s : ResultMemory} {q : Ownership} {entries : List ResultEntry}

theorem fresh : Owns .fresh .fresh [] :=
  ⟨rfl, rfl, .empty, ⟨rfl, rfl, fun h => absurd h Bool.false_ne_true,
    fun h => absurd h Bool.false_ne_true⟩, fun _ h => absurd h List.not_mem_nil⟩

/-- A result more. -/
theorem query_ok (h : Owns s q entries) {o : ResultOutcome} {m : ResultStore} {hd hd' : StmtHandle}
    {r : ResultPointers} {freed : Bool} {q' : Ownership} (hstmt : s.stmt = some hd)
    (hconstruct : ResultPointers.construct s.store hd o = .ok (m, hd', r))
    (hresults : q'.results = q.results ++ [some freed])
    (hledger : m.Ledger
      (hd'.held q'.dangling ++ (r.held freed ++ entries.flatMap ResultEntry.held)) 0)
    (howns : StmtOwns m q' (some hd')) (hlater : s.store.Later m)
    (hfreed : freed = true → ∃ a, r.metadataResult = some a ∧ m.Dead a) :
    ∃ t entries', s.exec (.query o) = .ok t ∧ Owns t q' entries' := by
  refine ⟨⟨m, some hd', s.results ++ [some r]⟩, entries ++ [some (r, freed)], ?_, ?_, ?_, ?_, howns,
    ?_⟩
  · rw [ResultMemory.exec, hstmt]
    simp only [hconstruct]
    rfl
  · rw [h.results, List.map_append]
    rfl
  · rw [hresults, h.statuses, List.map_append]
    rfl
  · apply hledger.perm
    rw [List.flatMap_append]
    simp only [stmtHeld, List.flatMap_singleton, ResultEntry.held]
    exact (List.perm_append_comm).append_left _
  · intro r' hr'
    rcases List.mem_append.1 hr' with hold | hnew
    · obtain ⟨a, ha, hdead⟩ := h.freed r' hold
      exact ⟨a, ha, hlater a hdead⟩
    · cases List.mem_singleton.1 hnew
      exact hfreed rfl

/-- Arrays that are freed are not counted. -/
theorem held_eq_nil {hd : StmtHandle} {done : Bool} (hdone : hd.bindResultDone = done) :
    hd.held done = [] := by
  unfold StmtHandle.held
  rw [hdone]
  cases done <;> rfl

theorem exists_stmt (h : Owns s q entries) (hlegal : q.closed = false) :
    ∃ hd, s.stmt = some hd ∧ hd.bindResultDone = q.done ∧ (q.done = true → hd.bindLength.isSome) ∧
      (q.dangling = true → q.done = true ∧ ∃ a, hd.bindLength = some a ∧ s.store.Dead a) := by
  have howns := h.stmt
  cases hstmt : s.stmt with
  | none =>
    rw [hstmt, StmtOwns, hlegal] at howns
    cases howns
  | some hd =>
    rw [hstmt] at howns
    exact ⟨hd, rfl, howns.2⟩

theorem query (h : Owns s q entries) (o : ResultOutcome) (hlegal : q.closed = false) :
    (q.Safe (.query o) → ∃ t entries', s.exec (.query o) = .ok t ∧
      Owns t (q.next (.query o)) entries') ∧
      (¬q.Safe (.query o) → s.exec (.query o) = .error .fault) := by
  obtain ⟨hd, hstmt, hdone, hlength, hdangling⟩ := h.exists_stmt hlegal
  have hledger := h.ledger
  rw [hstmt] at hledger
  by_cases hmetadata : o.hasMetadata = true
  · constructor
    · intro hsafe
      have hlive : q.dangling = false := hsafe hmetadata
      rw [stmtHeld, hlive] at hledger
      have hallocated := (hledger.allocate .metadata).perm List.perm_middle.symm
      obtain ⟨m₁, hdelete, h₁, hlater, hdead⟩ := deleteArrays_returns hallocated
      have hlater := (FreeStore.Later.allocate s.store .metadata).trans hlater
      have hunfold : ResultPointers.construct s.store hd o =
          ResultPointers.storeAndBind m₁ hd s.store.next o := by
        unfold ResultPointers.construct
        rw [hmetadata]
        simp only [Bool.not_true, Bool.false_eq_true, if_false, hdelete, Bind.bind, Except.bind]
      have harray : q.done = true → ∃ a, hd.bindLength = some a ∧ m₁.Dead a := by
        intro hq
        obtain ⟨a, ha⟩ := Option.isSome_iff_exists.1 (hlength hq)
        exact ⟨a, ha, hdead (hdone.trans hq) a ha⟩
      by_cases hstore : o.storeResult = 0
      · by_cases hbind : o.bindResult = 0
        · obtain ⟨m₂, hd', r, hrun, h₂, hlater₂, hdone', hlength'⟩ :=
            ResultPointers.storeAndBind_returns h₁ (h := hd) hstore hbind
          rw [q.next_bound hmetadata hstore hbind]
          refine h.query_ok hstmt (hunfold.trans hrun) rfl h₂ ?_ (hlater.trans hlater₂) ?_
          · exact ⟨hlegal, hdone', fun _ => hlength',
              fun hfalse => absurd hfalse Bool.false_ne_true⟩
          · exact fun hfalse => absurd hfalse Bool.false_ne_true
        · obtain ⟨m₂, hd', length, hrun, h₂, hlater₂, hdead₂, hdone', hlength'⟩ :=
            ResultPointers.storeAndBind_bindFails h₁ (h := hd) hstore hbind
          have harray' : q.done = true → ∃ a, hd'.bindLength = some a ∧ m₂.Dead a := by
            intro hq
            rcases hlength' with hsame | ⟨hnew, hdeadNew⟩
            · obtain ⟨a, ha, hdeadOld⟩ := harray hq
              exact ⟨a, hsame.trans ha, hlater₂ a hdeadOld⟩
            · exact ⟨length, hnew, hdeadNew⟩
          rw [q.next_bindFails hmetadata hstore hbind]
          refine h.query_ok hstmt (hunfold.trans hrun) rfl ?_ ?_ (hlater.trans hlater₂) ?_
          · rw [held_eq_nil (hdone'.trans hdone)]
            exact h₂
          · refine ⟨hlegal, hdone'.trans hdone, fun hq => ?_, fun hq => ⟨hq, harray' hq⟩⟩
            obtain ⟨a, ha, -⟩ := harray' hq
            rw [ha]
            rfl
          · exact fun _ => ⟨_, rfl, hdead₂⟩
      · obtain ⟨m₂, hrun, h₂, hlater₂⟩ := ResultPointers.storeAndBind_storeFails h₁ (h := hd) hstore
        rw [q.next_storeFails hmetadata hstore]
        refine h.query_ok hstmt (hunfold.trans hrun) rfl ?_ ?_ (hlater.trans hlater₂) ?_
        · rw [held_eq_nil hdone]
          exact h₂
        · refine ⟨hlegal, hdone, hlength, fun hq => ⟨hq, ?_⟩⟩
          obtain ⟨a, ha, hdeadOld⟩ := harray hq
          exact ⟨a, ha, hlater₂ a hdeadOld⟩
        · exact fun hfalse => absurd hfalse Bool.false_ne_true
    · intro hsafe
      have hdead : q.dangling = true := by
        by_contra hlive
        exact hsafe fun _ => eq_false_of_ne_true hlive
      obtain ⟨hq, a, ha, hdead⟩ := hdangling hdead
      rw [ResultMemory.exec, hstmt]
      simp only [ResultPointers.construct, hmetadata, Bool.not_true, Bool.false_eq_true, if_false]
      rw [deleteArrays_fault (hdone.trans hq) ha (FreeStore.Later.allocate _ _ a hdead)]
      rfl
  · have hnone := eq_false_of_ne_true hmetadata
    refine ⟨fun _ => ?_, fun hsafe => absurd (fun hsome => absurd hsome hmetadata) hsafe⟩
    have hconstruct : ResultPointers.construct s.store hd o = .ok (s.store, hd, ⟨none, none⟩) := by
      unfold ResultPointers.construct
      rw [hnone]
      rfl
    rw [q.next_noMetadata hnone]
    exact h.query_ok hstmt hconstruct rfl hledger ⟨hlegal, hdone, hlength, hdangling⟩ (.refl _)
      fun hfalse => absurd hfalse Bool.false_ne_true

theorem stmtOwns_later {m m' : ResultStore} {q q' : Ownership} {stmt : Option StmtHandle}
    (h : StmtOwns m q stmt) (hlater : m.Later m') (hdone : q'.done = q.done)
    (hdangling : q'.dangling = q.dangling) (hclosed : q'.closed = q.closed) :
    StmtOwns m' q' stmt := by
  cases stmt with
  | none => exact hclosed.trans h
  | some hd =>
    obtain ⟨hopen, hdone', hlength, hdead⟩ := h
    rw [StmtOwns, hdone, hdangling, hclosed]
    refine ⟨hopen, hdone', hlength, fun hq => ?_⟩
    obtain ⟨hq', a, ha, hdead⟩ := hdead hq
    exact ⟨hq', a, ha, hlater a hdead⟩

theorem mem_of_mem_set_none {i : Nat} {p : ResultPointers × Bool}
    (h : some p ∈ entries.set i none) : some p ∈ entries := by
  rcases List.mem_or_eq_of_mem_set h with hold | hnew
  · exact hold
  · cases hnew

theorem destroyResult (h : Owns s q entries) {i : Nat} (hlegal : q.results[i]?.join ≠ none) :
    (q.Safe (.destroyResult i) → ∃ t entries', s.exec (.destroyResult i) = .ok t ∧
      Owns t (q.next (.destroyResult i)) entries') ∧
      (¬q.Safe (.destroyResult i) → s.exec (.destroyResult i) = .error .fault) := by
  obtain ⟨r, freed, hget⟩ : ∃ r freed, entries[i]? = some (some (r, freed)) := by
    rw [h.statuses, List.getElem?_map] at hlegal
    cases hget : entries[i]? with
    | none => simp [hget] at hlegal
    | some entry =>
      cases entry with
      | none => simp [hget] at hlegal
      | some p => exact ⟨p.1, p.2, rfl⟩
  have hresult : s.results[i]?.join = some r := by
    rw [h.results, List.getElem?_map, hget]
    rfl
  have hstatus : q.results[i]?.join = some freed := by
    rw [h.statuses, List.getElem?_map, hget]
    rfl
  obtain ⟨hlt, hentry⟩ := List.getElem?_eq_some_iff.1 hget
  have hexec : s.exec (.destroyResult i) = (r.cleanUp s.store).map fun (store, _) =>
      { s with store, results := s.results.set i none } := by
    rw [ResultMemory.exec, hresult]
  rw [hexec, Ownership.Safe, hstatus]
  cases freed with
  | true =>
    refine ⟨fun hsafe => absurd rfl hsafe, fun _ => ?_⟩
    obtain ⟨a, ha, hdead⟩ := h.freed r (hentry ▸ List.getElem_mem hlt)
    rw [ResultPointers.cleanUp_fault ha hdead]
    rfl
  | false =>
    refine ⟨fun _ => ?_, fun hsafe => absurd (by simp) hsafe⟩
    obtain ⟨others, hbefore, hafter⟩ := FreeStore.Ledger.exists_others ResultEntry.held hget
    have hledger :=
      h.ledger.perm ((hbefore.append_left _).trans (List.perm_append_comm_assoc _ _ _))
    obtain ⟨m, hclean, hledger', hlater, -⟩ := ResultPointers.cleanUp_returns hledger
    rw [hclean]
    refine ⟨_, entries.set i none, rfl, ?_, ?_, ?_, ?_, ?_⟩
    · rw [h.results, List.map_set]
      rfl
    · rw [Ownership.next, h.statuses, List.map_set]
      rfl
    · exact hledger'.perm ((hafter none).symm.append_left _)
    · exact stmtOwns_later h.stmt hlater rfl rfl rfl
    · intro r' hr'
      obtain ⟨a, ha, hdead⟩ := h.freed r' (mem_of_mem_set_none hr')
      exact ⟨a, ha, hlater a hdead⟩

theorem close (h : Owns s q entries) (hlegal : q.closed = false) :
    (q.Safe .close → ∃ t entries', s.exec .close = .ok t ∧ Owns t (q.next .close) entries') ∧
      (¬q.Safe .close → s.exec .close = .error .fault) := by
  obtain ⟨hd, hstmt, hdone, -, hdangling⟩ := h.exists_stmt hlegal
  have hledger := h.ledger
  rw [hstmt, stmtHeld] at hledger
  have hexec : s.exec .close =
      (hd.deleteArrays s.store).map fun store => { s with store, stmt := none } := by
    rw [ResultMemory.exec, hstmt]
  rw [hexec, Ownership.Safe]
  constructor
  · intro hlive
    rw [hlive] at hledger
    obtain ⟨m, hdelete, hledger', hlater, -⟩ := deleteArrays_returns hledger
    rw [hdelete]
    refine ⟨_, entries, rfl, h.results, h.statuses, hledger', rfl, fun r hr => ?_⟩
    obtain ⟨a, ha, hdead⟩ := h.freed r hr
    exact ⟨a, ha, hlater a hdead⟩
  · intro hdead
    obtain ⟨hq, a, ha, hdead⟩ := hdangling (eq_true_of_ne_false hdead)
    rw [deleteArrays_fault (hdone.trans hq) ha hdead]
    rfl

/-- **One event.** It frees twice exactly where ownership says so. -/
theorem exec_iff (h : Owns s q entries) {e : ResultEvent} (hlegal : q.Legal e) :
    (q.Safe e → ∃ t entries', s.exec e = .ok t ∧ Owns t (q.next e) entries') ∧
      (¬q.Safe e → s.exec e = .error .fault) := by
  cases e with
  | query o => exact h.query o hlegal
  | destroyResult i => exact h.destroyResult hlegal
  | close => exact h.close hlegal

end Owns

/-! ## Runs -/

theorem resultMemory_step {s t : ResultMemory} {e : ResultEvent} :
    resultMemory.step s e = some t ↔ s.exec e = .ok t := by
  change (s.exec e).toOption = some t ↔ _
  cases s.exec e <;> simp [Except.toOption]

theorem resultMemory_step_fault {s : ResultMemory} {e : ResultEvent}
    (h : s.exec e = .error .fault) : resultMemory.step s e = none := by
  change (s.exec e).toOption = none
  rw [h]
  rfl

/-- The same events without addresses; none of them stops. -/
def ownership : Machine Ownership ResultEvent where
  init q := q = .fresh
  step q e := some (q.next e)

/-- The callers keep to the rules in each step. -/
abbrev Lawful (q : Ownership) (events : List ResultEvent) : Prop :=
  ownership.Permits Ownership.Legal q events

namespace Owns

variable {s t : ResultMemory} {q : Ownership} {entries : List ResultEntry}
  {events : List ResultEvent}

theorem run_iff (h : Owns s q entries) (hlawful : Lawful q events) :
    (∃ t, resultMemory.run s events = some t) ↔ ownership.Permits Ownership.Safe q events := by
  induction events generalizing s q entries with
  | nil => exact iff_of_true ⟨s, rfl⟩ trivial
  | cons e events ih =>
    obtain ⟨hlegal, hrest⟩ := hlawful
    by_cases hsafe : q.Safe e
    · obtain ⟨t, entries', hexec, howns⟩ := (h.exec_iff hlegal).1 hsafe
      rw [Machine.run_cons, resultMemory_step.2 hexec, Option.bind_some,
        ih howns (hrest _ rfl)]
      constructor
      · intro hevents
        refine ⟨hsafe, fun q' hq' => ?_⟩
        cases hq'
        exact hevents
      · exact fun hevents => hevents.2 _ rfl
    · rw [Machine.run_cons, resultMemory_step_fault ((h.exec_iff hlegal).2 hsafe)]
      refine iff_of_false ?_ fun hevents => hsafe hevents.1
      rintro ⟨t, ht⟩
      cases ht

theorem run (h : Owns s q entries) (hlawful : Lawful q events)
    (hrun : resultMemory.run s events = some t) :
    ∃ entries', Owns t (events.foldl Ownership.next q) entries' := by
  induction events generalizing s q entries with
  | nil =>
    cases hrun
    exact ⟨entries, h⟩
  | cons e events ih =>
    have hsafe : q.Safe e := ((h.run_iff hlawful).1 ⟨t, hrun⟩).1
    obtain ⟨hlegal, hrest⟩ := hlawful
    obtain ⟨u, entries', hexec, howns⟩ := (h.exec_iff hlegal).1 hsafe
    rw [Machine.run_cons, resultMemory_step.2 hexec] at hrun
    exact ih howns (hrest _ rfl) hrun

end Owns

/-- **Ownership is exact.** A run whose callers keep to the rules frees nothing twice exactly if no
event finds something left over by an earlier one. -/
theorem resultMemory_returns_iff {events : List ResultEvent} (hlawful : Lawful .fresh events) :
    (∃ t, resultMemory.run .fresh events = some t) ↔
      ownership.Permits Ownership.Safe .fresh events :=
  Owns.fresh.run_iff hlawful

/-- The second query fails to store its result, and the destructor of the statement comes to the
arrays of the first one again. -/
theorem resultMemory_returns_iff_secondFails :
    ¬∃ t, resultMemory.run .fresh
      [.query ⟨true, 0, 0, true⟩, .query ⟨true, 1, 0, true⟩, .close] = some t := by
  rw [resultMemory_returns_iff (by decide)]
  decide

/-! ## Whole lives -/

namespace Ownership

/-- The statement and all its results are destroyed. -/
def Finished (q : Ownership) : Prop := q.closed = true ∧ ∀ x ∈ q.results, x = none

/-- The binds are not refused, and a result is stored if another one was bound before. -/
def Faultless (q : Ownership) : ResultEvent → Prop
  | .query o => o.hasMetadata = true →
    (o.storeResult ≠ 0 → q.done = false) ∧ (o.storeResult = 0 → o.bindResult = 0)
  | .destroyResult _ | .close => True

instance (q : Ownership) : DecidablePred q.Faultless
  | .query _ => inferInstanceAs (Decidable (_ → _))
  | .destroyResult _ | .close => inferInstanceAs (Decidable True)

/-- Nothing is left over that its owner would free again. -/
def Sound (q : Ownership) : Prop := q.dangling = false ∧ some true ∉ q.results

/-- Something is left over, and its owner is still there. -/
def Doomed (q : Ownership) : Prop := q.closed = false ∧ q.dangling = true ∨ some true ∈ q.results

variable {q : Ownership} {e : ResultEvent}

theorem Sound.safe (h : q.Sound) (e : ResultEvent) : q.Safe e := by
  cases e with
  | query o => exact fun _ => h.1
  | close => exact h.1
  | destroyResult i =>
    intro htrue
    exact h.2 (List.mem_of_getElem? (Option.join_eq_some_iff.1 htrue))

theorem Sound.next (h : q.Sound) (hfaultless : q.Faultless e) : (q.next e).Sound := by
  cases e with
  | query o =>
    have hresults : some true ∉ q.results ++ [some false] := by simpa using h.2
    by_cases hmetadata : o.hasMetadata = true
    · obtain ⟨hstored, hbound⟩ := hfaultless hmetadata
      by_cases hstore : o.storeResult = 0
      · rw [q.next_bound hmetadata hstore (hbound hstore)]
        exact ⟨rfl, hresults⟩
      · rw [q.next_storeFails hmetadata hstore]
        exact ⟨hstored hstore, hresults⟩
    · rw [q.next_noMetadata (eq_false_of_ne_true hmetadata)]
      exact ⟨h.1, hresults⟩
  | destroyResult i =>
    refine ⟨h.1, fun htrue => ?_⟩
    rcases List.mem_or_eq_of_mem_set htrue with hold | hnew
    · exact h.2 hold
    · cases hnew
  | close => exact h

theorem doomed_of_not_faultless (hlegal : q.Legal e) (hfaulty : ¬q.Faultless e) :
    (q.next e).Doomed := by
  cases e with
  | destroyResult i => exact absurd trivial hfaulty
  | close => exact absurd trivial hfaulty
  | query o =>
    have hmetadata : o.hasMetadata = true := by
      by_contra hnone
      exact hfaulty fun hsome => absurd hsome hnone
    by_cases hstore : o.storeResult = 0
    · have hbind : o.bindResult ≠ 0 := fun hbind =>
        hfaulty fun _ => ⟨fun hne => absurd hstore hne, fun _ => hbind⟩
      rw [q.next_bindFails hmetadata hstore hbind]
      exact .inr (List.mem_append_right _ List.mem_cons_self)
    · have hdone : q.done = true := by
        by_contra hdone
        exact hfaulty fun _ =>
          ⟨fun _ => eq_false_of_ne_true hdone, fun hzero => absurd hzero hstore⟩
      rw [q.next_storeFails hmetadata hstore]
      exact .inl ⟨hlegal, hdone⟩

/-- What is left over stays until its owner comes to it. -/
theorem Doomed.next (h : q.Doomed) (hsafe : q.Safe e) : (q.next e).Doomed := by
  cases e with
  | query o =>
    rcases h with ⟨hopen, hdangling⟩ | htrue
    · have hnone : o.hasMetadata = false := by
        by_contra hsome
        have hlive := hsafe (eq_true_of_ne_false hsome)
        rw [hdangling] at hlive
        cases hlive
      rw [q.next_noMetadata hnone]
      exact .inl ⟨hopen, hdangling⟩
    · obtain ⟨freed, hresults⟩ := q.exists_results_query o
      refine .inr ?_
      rw [hresults]
      exact List.mem_append_left _ htrue
  | destroyResult i =>
    rcases h with hdangling | htrue
    · exact .inl hdangling
    · obtain ⟨j, hj⟩ := List.mem_iff_getElem?.1 htrue
      have hij : i ≠ j := by
        rintro rfl
        exact hsafe (Option.join_eq_some_iff.2 hj)
      refine .inr (List.mem_iff_getElem?.2 ⟨j, ?_⟩)
      exact (List.getElem?_set_ne hij).trans hj
  | close =>
    rcases h with ⟨-, hdangling⟩ | htrue
    · exact absurd (hdangling.symm.trans hsafe) Bool.noConfusion
    · exact .inr htrue

theorem Doomed.not_finished (h : q.Doomed) : ¬q.Finished := by
  rintro ⟨hclosed, hnone⟩
  rcases h with ⟨hopen, -⟩ | htrue
  · rw [hopen] at hclosed
    cases hclosed
  · cases hnone _ htrue

theorem Doomed.not_safe {events : List ResultEvent} (h : q.Doomed)
    (hfinished : (events.foldl Ownership.next q).Finished) : ¬ownership.Permits Safe q events := by
  induction events generalizing q with
  | nil => exact absurd hfinished h.not_finished
  | cons e events ih =>
    rintro ⟨hsafe, hrest⟩
    exact ih (h.next hsafe) hfinished (hrest _ rfl)

/-- In a whole life what is left over is found. -/
theorem Sound.safe_iff {events : List ResultEvent} (h : q.Sound) (hlawful : Lawful q events)
    (hfinished : (events.foldl Ownership.next q).Finished) :
    ownership.Permits Safe q events ↔ ownership.Permits Faultless q events := by
  induction events generalizing q with
  | nil => exact Iff.rfl
  | cons e events ih =>
    obtain ⟨hlegal, hrest⟩ := hlawful
    by_cases hfaultless : q.Faultless e
    · have hevents := ih (h.next hfaultless) (hrest _ rfl) hfinished
      constructor
      · rintro ⟨-, hsafe⟩
        refine ⟨hfaultless, fun q' hq' => ?_⟩
        cases hq'
        exact hevents.1 (hsafe _ rfl)
      · rintro ⟨-, hsafe⟩
        refine ⟨h.safe e, fun q' hq' => ?_⟩
        cases hq'
        exact hevents.2 (hsafe _ rfl)
    · refine iff_of_false ?_ fun hevents => hfaultless hevents.1
      rintro ⟨-, hsafe⟩
      exact (doomed_of_not_faultless hlegal hfaultless).not_safe hfinished (hsafe _ rfl)

end Ownership

/-- **Whole lives.** When in the end the statement and all its results are destroyed, nothing was
freed twice exactly if no binds were refused and no result failed to be stored after another one was
bound; and then no block is left. -/
theorem resultMemory_life {events : List ResultEvent} (hlawful : Lawful .fresh events)
    (hfinished : (events.foldl Ownership.next .fresh).Finished) :
    ((∃ t, resultMemory.run .fresh events = some t) ↔
      ownership.Permits Ownership.Faultless .fresh events) ∧
      ∀ t, resultMemory.run .fresh events = some t → t.store.live = 0 := by
  have hsound : Ownership.fresh.Sound := ⟨rfl, List.not_mem_nil⟩
  refine ⟨(Owns.fresh.run_iff hlawful).trans (hsound.safe_iff hlawful hfinished), fun t ht => ?_⟩
  obtain ⟨entries, howns⟩ := Owns.fresh.run hlawful ht
  have hstmt : t.stmt = none := by
    cases hstmt : t.stmt with
    | none => rfl
    | some hd =>
      have howned := howns.stmt
      rw [hstmt] at howned
      exact absurd (hfinished.1.symm.trans howned.1) Bool.noConfusion
  have hentries : entries.flatMap ResultEntry.held = [] := by
    apply List.flatMap_eq_nil_iff.2
    intro entry hentry
    have hnone := hfinished.2 (entry.map Prod.snd)
      (howns.statuses ▸ List.mem_map_of_mem hentry)
    cases entry with
    | none => rfl
    | some p => cases hnone
  have hledger := howns.ledger
  rw [hstmt, hentries] at hledger
  exact hledger.live

/-- The result outlives the statement. -/
theorem resultMemory_life_oneQuery :
    ∃ t, resultMemory.run .fresh [.query ⟨true, 0, 0, true⟩, .close, .destroyResult 0] = some t ∧
      t.store.live = 0 := by
  have hlawful : Lawful .fresh [.query ⟨true, 0, 0, true⟩, .close, .destroyResult 0] := by decide
  have hfinished : (List.foldl Ownership.next .fresh
      [.query ⟨true, 0, 0, true⟩, .close, .destroyResult 0]).Finished := ⟨rfl, by decide⟩
  obtain ⟨hreturns, hlive⟩ := resultMemory_life hlawful hfinished
  obtain ⟨t, ht⟩ := hreturns.2 (by decide)
  exact ⟨t, ht, hlive t ht⟩

end GameServer.Database
