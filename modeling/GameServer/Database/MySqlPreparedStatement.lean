import GameServer.Lib.Exec
import GameServer.Database.MySqlConnection
import GameServer.Database.MySqlTypeHack

/-!
# `MySqlPreparedStatement`: binding parameters

`BindParameters` visits the parameters of a statement with a position of eight bits and stores each
in the slot with its number: the flag of the slot is set, and its `MYSQL_BIND` gets a buffer with
the bytes of the parameter. `AssertValidIndex` ends the process on a position without a slot and
reports a slot that is assigned already.

The arrays `_paramAssignFlag` and `_pBind` have one length, `_paramCount`; they are one list of
slots here. `marks` counts how often a slot was assigned and `reported` how often one was assigned
already; the code has neither.

* `bindParameters_eq` is what `BindParameters` does to the slots.
* `bindParameters_isOk_iff` connects it to the condition of the connection's own model.
-/

namespace GameServer.Database

open GameServer.Lib

/-- The alternatives of `PreparedStatementData`; the eight integer types are one here. -/
inductive PreparedStatementData where
  | bool (value : Bool)
  | integer (t : IntType) (value : t.Value)
  /-- The bits of a `float`. -/
  | float (bits : UInt32)
  | double (bits : UInt64)
  | string (value : List UInt8)
  | binary (value : List UInt8)
  | null
  deriving DecidableEq, Repr

/-- `PreparedStatementBase` with its values. The number of values is a `uint8_t`. -/
structure PreparedStatement where
  preparedStatementIndex : Nat
  statementData : List PreparedStatementData
  capacity : statementData.length < 256
  deriving DecidableEq, Repr

namespace PreparedStatement

/-- The constructor: values of the first alternative. -/
def ofCapacity (preparedStatementIndex : Nat) (capacity : Nat) (h : capacity < 256) :
    PreparedStatement :=
  ⟨preparedStatementIndex, List.replicate capacity (.bool false), by rwa [List.length_replicate]⟩

/-- `_statementData[index].data.emplace`. -/
def emplace (p : PreparedStatement) (index : Nat) (value : PreparedStatementData) :
    PreparedStatement :=
  { p with
    statementData := p.statementData.set index value
    capacity := by rw [List.length_set]; exact p.capacity }

/-- `SetValue`, with its assertion; the argument `type` is not read. The chain of branches ends
with that for `std::string`. -/
def setValue (p : PreparedStatement) (index : Nat) (value : PreparedStatementData) :
    Except Halt PreparedStatement :=
  if index < p.statementData.length then
    match value with
    | .integer t value => .ok (p.emplace index (.integer t value))
    | .float bits => .ok (p.emplace index (.float bits))
    | .double bits => .ok (p.emplace index (.double bits))
    | .string value => .ok (p.emplace index (.string value))
    | .bool _ | .binary _ | .null => .ok p
  else .error .abort

/-- The values that a caller sets, one after the other. -/
def setValues (p : PreparedStatement) :
    List (Nat × PreparedStatementData) → Except Halt PreparedStatement
  | [] => .ok p
  | (index, value) :: values => (p.setValue index value).bind fun p => p.setValues values

/-- A call that returns has stored the value, or nothing. -/
theorem setValue_ok {p q : PreparedStatement} {index : Nat} {value : PreparedStatementData}
    (h : p.setValue index value = .ok q) : q = p.emplace index value ∨ q = p := by
  unfold setValue at h
  split at h
  · cases value with
    | bool _ | binary _ | null => exact .inr (Except.ok.inj h).symm
    | _ => exact .inl (Except.ok.inj h).symm
  · cases h

/-- Setting values does not change how many there are. -/
theorem setValues_ok {p q : PreparedStatement} {values : List (Nat × PreparedStatementData)}
    (h : p.setValues values = .ok q) :
    q.preparedStatementIndex = p.preparedStatementIndex ∧
      q.statementData.length = p.statementData.length := by
  induction values generalizing p with
  | nil =>
    cases h
    exact ⟨rfl, rfl⟩
  | cons value values ih =>
    rw [setValues] at h
    cases hset : p.setValue value.1 value.2 with
    | error e =>
      rw [hset] at h
      cases h
    | ok r =>
      rw [hset] at h
      obtain ⟨hindex, hlength⟩ := ih h
      rcases setValue_ok hset with rfl | rfl
      · exact ⟨hindex, hlength.trans List.length_set⟩
      · exact ⟨hindex, hlength⟩

end PreparedStatement

/-- What `SetParameter` and the client library use of a `MYSQL_BIND`. -/
structure MySqlBind where
  bufferType : EnumFieldTypes
  buffer : Option (List UInt8)
  bufferLength : Nat
  isNullValue : Bool
  length : Option Nat
  isUnsigned : Bool
  deriving DecidableEq, Repr

namespace MySqlBind

/-- As `memset` leaves it. -/
def zero : MySqlBind := ⟨.decimal, none, 0, false, none, false⟩

/-- `std::is_signed_v` of the type that is deduced for a forwarding reference: an lvalue deduces a
reference type, which is no arithmetic type. -/
def isSignedV (lvalue : Bool) (signed : Bool) : Bool := !lvalue && signed

/-- `SetParameter(uint8_t, T &&)`. -/
def setObject (b : MySqlBind) (bufferType : EnumFieldTypes) (lvalue signed : Bool)
    (value : List UInt8) : MySqlBind :=
  { b with
    bufferType
    buffer := some value
    bufferLength := 0
    isNullValue := false
    length := none
    isUnsigned := isSignedV lvalue signed }

/-- `SetParameter(uint8_t, const std::string &)` and the one for a vector of bytes. -/
def setBytes (b : MySqlBind) (bufferType : EnumFieldTypes) (value : List UInt8) : MySqlBind :=
  { b with
    bufferType
    buffer := some value
    bufferLength := value.length % 0x100000000
    isNullValue := false
    length := some (value.length % 0x100000000) }

/-- `SetParameter(uint8_t, std::nullptr_t)`. -/
def setNull (b : MySqlBind) : MySqlBind :=
  { b with bufferType := .null, buffer := none, bufferLength := 0, isNullValue := true,
           length := none }

/-- The overload that the visitor selects: it passes an lvalue, and the one for `bool` goes on with
an rvalue of `uint8_t`. -/
def setParameter (b : MySqlBind) : PreparedStatementData → MySqlBind
  | .bool value =>
    b.setObject (mysqlType .uint8) false IntType.uint8.signed
      (IntType.uint8.toBytes (if value then 1 else 0))
  | .integer t value => b.setObject (mysqlType t) true t.signed (t.toBytes value.val)
  | .float bits => b.setObject .float true true (IntType.uint32.toBytes bits.toNat)
  | .double bits => b.setObject .double true true (IntType.uint64.toBytes bits.toNat)
  | .string value => b.setBytes .varString value
  | .binary value => b.setBytes .blob value
  | .null => b.setNull

end MySqlBind

structure ParameterSlot where
  assigned : Bool
  bind : MySqlBind
  marks : Nat
  deriving DecidableEq, Repr

namespace ParameterSlot

/-- As the constructor and `ClearParameters` leave the flag. -/
def fresh : ParameterSlot := ⟨false, .zero, 0⟩

def assign (slot : ParameterSlot) (data : PreparedStatementData) : ParameterSlot :=
  ⟨true, slot.bind.setParameter data, slot.marks + 1⟩

end ParameterSlot

structure ParameterSlots where
  slots : List ParameterSlot
  reported : Nat
  deriving DecidableEq, Repr

namespace ParameterSlots

/-- The constructor, for the number of parameters that the client library tells. -/
def ofParamCount (paramCount : Nat) : ParameterSlots := ⟨List.replicate paramCount .fresh, 0⟩

def paramCount (b : ParameterSlots) : Nat := b.slots.length

def assertValidIndex (b : ParameterSlots) (index : Nat) : Except Halt ParameterSlots :=
  match b.slots[index]? with
  | none => .error .abort
  | some slot => .ok (if slot.assigned then { b with reported := b.reported + 1 } else b)

def setParameter (b : ParameterSlots) (index : Nat) (data : PreparedStatementData) :
    Except Halt ParameterSlots :=
  (b.assertValidIndex index).map fun b =>
    { b with slots := b.slots.modify index fun slot => slot.assign data }

/-- The loop of `BindParameters`; the position is a `uint8_t`. -/
def bindFrom (b : ParameterSlots) (pos : Nat) :
    List PreparedStatementData → Except Halt ParameterSlots
  | [] => .ok b
  | data :: parameters =>
    (b.setParameter pos data).bind fun b => b.bindFrom ((pos + 1) % 256) parameters

def bindParameters (b : ParameterSlots) (pStmt : PreparedStatement) : Except Halt ParameterSlots :=
  b.bindFrom 0 pStmt.statementData

def clearParameters (b : ParameterSlots) : ParameterSlots :=
  { b with
    slots := b.slots.map fun slot =>
      { slot with assigned := false, bind := { slot.bind with length := none, buffer := none } } }

/-! ## What binding does -/

theorem setParameter_append (before : List ParameterSlot) (slot : ParameterSlot)
    (after : List ParameterSlot) (reported : Nat) (data : PreparedStatementData) :
    setParameter ⟨before ++ slot :: after, reported⟩ before.length data =
      .ok ⟨before ++ slot.assign data :: after, reported + if slot.assigned then 1 else 0⟩ := by
  have hslot : (before ++ slot :: after)[before.length]? = some slot := by simp
  have hmodify : (before ++ slot :: after).modify before.length (fun slot => slot.assign data) =
      before ++ slot.assign data :: after := by
    rw [List.modify_eq_take_cons_drop (by simp)]
    simp
  unfold setParameter assertValidIndex
  rw [hslot]
  cases hassigned : slot.assigned <;> simp [hassigned, Except.map, hmodify]

/-- The slots at the positions of the parameters are assigned, each once. -/
theorem bindFrom_append (before here after : List ParameterSlot) (reported : Nat)
    (parameters : List PreparedStatementData) (hhere : here.length = parameters.length)
    (hpos : before.length + parameters.length < 256) :
    bindFrom ⟨before ++ (here ++ after), reported⟩ before.length parameters =
      .ok ⟨before ++ (List.zipWith ParameterSlot.assign here parameters ++ after),
        reported + here.countP ParameterSlot.assigned⟩ := by
  induction parameters generalizing before here reported with
  | nil =>
    rw [List.length_nil, List.length_eq_zero_iff] at hhere
    subst hhere
    rfl
  | cons data parameters ih =>
    cases here with
    | nil => cases hhere
    | cons slot here =>
      rw [List.length_cons] at hpos
      have hnext : (before.length + 1) % 256 = (before ++ [slot.assign data]).length := by
        rw [List.length_append, List.length_singleton]
        omega
      have hsplit : before ++ slot.assign data :: (here ++ after) =
          (before ++ [slot.assign data]) ++ (here ++ after) := by simp
      rw [bindFrom, List.cons_append, setParameter_append]
      simp only [Except.bind]
      rw [hnext, hsplit, ih _ here _ (Nat.succ.inj hhere)]
      · simp [List.countP_cons]
        omega
      · rw [List.length_append, List.length_singleton]
        omega

/-- A parameter without a slot ends the process. -/
theorem bindFrom_abort (b : ParameterSlots) (pos : Nat) (parameters : List PreparedStatementData)
    (hcount : b.paramCount < pos + parameters.length) (hpos : pos + parameters.length < 256)
    (hle : pos ≤ b.paramCount) : bindFrom b pos parameters = .error .abort := by
  induction parameters generalizing b pos with
  | nil =>
    rw [List.length_nil] at hcount
    omega
  | cons data parameters ih =>
    rw [List.length_cons] at hcount hpos
    unfold bindFrom setParameter assertValidIndex
    cases hslot : b.slots[pos]? with
    | none => rfl
    | some slot =>
      have hlt : pos < b.slots.length := (List.getElem?_eq_some_iff.1 hslot).1
      have hnext : (pos + 1) % 256 = pos + 1 := Nat.mod_eq_of_lt (by omega)
      have hsame : ∀ b' : ParameterSlots, b'.slots = b.slots → ParameterSlots.paramCount
          { b' with slots := b'.slots.modify pos fun slot => slot.assign data } = b.paramCount := by
        intro b' hb'
        rw [paramCount, List.length_modify, hb', paramCount]
      simp only [Except.map, Except.bind, hnext]
      have hreported := hsame (if slot.assigned then { b with reported := b.reported + 1 } else b)
        (by split <;> rfl)
      apply ih
      · rw [hreported]
        omega
      · omega
      · rw [hreported]
        exact hlt

/-- **`BindParameters`** assigns the slots at the front, as many as there are parameters. -/
theorem bindParameters_eq (b : ParameterSlots) (pStmt : PreparedStatement)
    (h : pStmt.statementData.length ≤ b.paramCount) :
    b.bindParameters pStmt = .ok
      ⟨List.zipWith ParameterSlot.assign (b.slots.take pStmt.statementData.length)
          pStmt.statementData ++ b.slots.drop pStmt.statementData.length,
        b.reported +
          (b.slots.take pStmt.statementData.length).countP ParameterSlot.assigned⟩ := by
  have htake : (b.slots.take pStmt.statementData.length).length = pStmt.statementData.length :=
    List.length_take_of_le h
  have hbind := bindFrom_append [] _ (b.slots.drop pStmt.statementData.length) b.reported
    pStmt.statementData htake (by simpa using pStmt.capacity)
  rw [List.take_append_drop] at hbind
  exact hbind

/-- It returns where the connection's own model of it returns. -/
theorem bindParameters_isOk_iff (stmt : MySqlPreparedStatement) (pStmt : PreparedStatement)
    (p : PreparedStatementBase) (hp : p.statementData.length = pStmt.statementData.length)
    (w : World) :
    (∃ b, (ofParamCount stmt.paramCount).bindParameters pStmt = .ok b) ↔
      Database.bindParameters stmt p w = .ok ⟨⟩ w := by
  have hcount : (ofParamCount stmt.paramCount).paramCount = stmt.paramCount :=
    List.length_replicate
  unfold Database.bindParameters
  rw [hp]
  by_cases h : pStmt.statementData.length ≤ stmt.paramCount
  · rw [if_pos h]
    exact iff_of_true ⟨_, bindParameters_eq _ pStmt (hcount.symm ▸ h)⟩ rfl
  · rw [if_neg h]
    refine iff_of_false ?_ nofun
    rintro ⟨b, hb⟩
    rw [bindParameters, bindFrom_abort] at hb
    · cases hb
    · rw [hcount]
      omega
    · simpa using pStmt.capacity
    · exact Nat.zero_le _

end ParameterSlots

end GameServer.Database
