import GameServer.Database.MySqlPreparedStatement

/-!
# What a bound parameter denotes

The sign flag of a slot is taken from `std::is_signed_v` of a deduced type. The visitor passes an
lvalue, so that this is a reference type and the flag is never set: the client library reads every
integer parameter as a signed one. That is the parameter itself, unless it is of an unsigned type
and has its top bit set (`bindParameters_denotes_iff`).
-/

namespace GameServer.Database

open GameServer.Lib

/-- The number that an integer parameter stands for. -/
def PreparedStatementData.integerValue : PreparedStatementData → Option Int
  | bool value => some (if value then 1 else 0)
  | integer _ value => some value.val
  | float _ | double _ | string _ | binary _ | null => none

/-- A parameter of an unsigned type that the signed type of its width has, or any other one. -/
def PreparedStatementData.TopBitClear : PreparedStatementData → Prop
  | integer t value => t.signed = false → value.val < (t.modulus / 2 : Nat)
  | bool _ | float _ | double _ | string _ | binary _ | null => True

/-- The integer that the client library reads: an object of the type that the type of the buffer and
the flag say. -/
def MySqlBind.denoted (b : MySqlBind) : Option Int :=
  match boundType b.bufferType b.isUnsigned, b.buffer with
  | some t, some bytes => if bytes.length = t.size then some (t.ofBytes bytes) else none
  | _, _ => none

/-- The slot at the position of each integer parameter denotes the parameter. -/
def Denotes (b : ParameterSlots) (parameters : List PreparedStatementData) : Prop :=
  ∀ (i : Nat) (data : PreparedStatementData) (v : Int), parameters[i]? = some data →
    data.integerValue = some v →
      ∃ slot, b.slots[i]? = some slot ∧ slot.bind.denoted = some v

section Slots

variable (b : MySqlBind)

/-- An object that is bound without the flag is read as one of the signed type of its width. -/
theorem denoted_setObject (t : IntType) (v : Int) (lvalue signed : Bool)
    (hflag : MySqlBind.isSignedV lvalue signed = false) :
    ∃ s : IntType, s.bits = t.bits ∧ s.signed = true ∧
      (b.setObject (mysqlType t) lvalue signed (t.toBytes v)).denoted = some (s.wrap v) := by
  obtain ⟨s, hs, hbits, hsigned⟩ := boundType_mysqlType t false
  refine ⟨s, hbits, hsigned, ?_⟩
  have hsize : (t.toBytes v).length = s.size := by
    rw [IntType.length_toBytes, IntType.size, IntType.size, hbits]
  simp only [MySqlBind.denoted, MySqlBind.setObject, hflag, hs]
  rw [if_pos hsize, IntType.ofBytes_toBytes hbits.symm]

/-- The signed type of the same width has a value of an unsigned type with a clear top bit. -/
theorem inRange_signed_iff {s t : IntType} (hbits : s.bits = t.bits) (hsigned : s.signed = true)
    (v : t.Value) :
    s.InRange v.val ↔ (t.signed = false → v.val < (t.modulus / 2 : Nat)) := by
  have hv := v.inRange
  have hmodulus : s.modulus = t.modulus := congrArg (2 ^ ·) hbits
  simp only [IntType.InRange, IntType.least, IntType.bound, hsigned, hmodulus, if_true] at hv ⊢
  by_cases htop : t.signed = true
  · simp only [htop, if_true] at hv
    refine iff_of_true hv fun hfalse => ?_
    rw [htop] at hfalse
    cases hfalse
  · simp only [htop, Bool.false_eq_true, if_false] at hv
    constructor
    · intro h _
      exact h.2
    · intro h
      exact ⟨by omega, h (eq_false_of_ne_true htop)⟩

/-- **One slot.** It denotes its integer parameter exactly if the top bit means nothing else. -/
theorem denoted_setParameter_iff {data : PreparedStatementData} {v : Int}
    (hv : data.integerValue = some v) :
    (b.setParameter data).denoted = some v ↔ data.TopBitClear := by
  cases data with
  | bool value =>
    cases hv
    cases value <;> exact iff_of_true rfl trivial
  | integer t value =>
    cases hv
    obtain ⟨s, hbits, hsigned, hdenoted⟩ := denoted_setObject b t value.val true
      t.signed rfl
    rw [MySqlBind.setParameter, hdenoted, Option.some.injEq, IntType.wrap_eq_self_iff]
    exact inRange_signed_iff hbits hsigned value
  | float bits | double bits => cases hv
  | string value | binary value => cases hv
  | null => cases hv

end Slots

/-- What stands in the slot of a parameter after binding. -/
theorem getElem?_assigned (b : ParameterSlots) {values : List PreparedStatementData}
    (h : values.length ≤ b.paramCount) {i : Nat} {data : PreparedStatementData}
    (hdata : values[i]? = some data) : ∃ slot,
      (List.zipWith ParameterSlot.assign (b.slots.take values.length) values ++
        b.slots.drop values.length)[i]? = some (ParameterSlot.assign slot data) := by
  have hlt : i < values.length := (List.getElem?_eq_some_iff.1 hdata).1
  have hin : i < b.slots.length := Nat.lt_of_lt_of_le hlt h
  refine ⟨b.slots[i], ?_⟩
  rw [List.getElem?_append_left]
  · rw [List.getElem?_zipWith, hdata, List.getElem?_take_of_lt hlt, List.getElem?_eq_getElem hin]
  · rw [List.length_zipWith, List.length_take]
    unfold ParameterSlots.paramCount at h
    omega

/-- **Every slot denotes its parameter**, for every statement that has a slot for each parameter,
exactly if no parameter of an unsigned type has its top bit set. -/
theorem bindParameters_denotes_iff (b : ParameterSlots) (pStmt : PreparedStatement)
    (h : pStmt.statementData.length ≤ b.paramCount) :
    ∃ c, b.bindParameters pStmt = .ok c ∧ (Denotes c pStmt.statementData ↔
      ∀ data ∈ pStmt.statementData, data.TopBitClear) := by
  refine ⟨_, ParameterSlots.bindParameters_eq b pStmt h, ?_⟩
  constructor
  · intro hdenotes data hmem
    obtain ⟨i, hdata⟩ := List.mem_iff_getElem?.1 hmem
    cases hvalue : data.integerValue with
    | none => cases data <;> trivial
    | some v =>
      obtain ⟨slot, hassigned⟩ := getElem?_assigned b h hdata
      obtain ⟨slot', hslot', hdenoted⟩ := hdenotes i data v hdata hvalue
      rw [hassigned, Option.some.injEq] at hslot'
      subst hslot'
      exact (denoted_setParameter_iff slot.bind hvalue).1 hdenoted
  · intro hclear i data v hdata hvalue
    obtain ⟨slot, hassigned⟩ := getElem?_assigned b h hdata
    refine ⟨_, hassigned, ?_⟩
    exact (denoted_setParameter_iff slot.bind hvalue).2 (hclear data (List.mem_of_getElem? hdata))

/-- A statement with two parameters, one of them a `uint64_t` below 2^63. -/
theorem bindParameters_denotes_pair :
    let pStmt : PreparedStatement :=
      ⟨0, [.integer .uint64 ⟨0x7fffffffffffffff, by decide⟩, .bool true], by decide⟩
    ∃ c, (ParameterSlots.ofParamCount 2).bindParameters pStmt = .ok c ∧
      (Denotes c pStmt.statementData ↔ ∀ data ∈ pStmt.statementData, data.TopBitClear) := by
  exact bindParameters_denotes_iff (.ofParamCount 2) _ (by decide)

/-- The `uint8_t` 200 is read as -56. -/
theorem unsigned_read_as_signed : ¬∀ (b : ParameterSlots) (pStmt : PreparedStatement),
    pStmt.statementData.length ≤ b.paramCount →
      ∃ c, b.bindParameters pStmt = .ok c ∧ Denotes c pStmt.statementData := by
  intro h
  obtain ⟨c, hc, hdenotes⟩ := h (.ofParamCount 1)
    ⟨0, [.integer .uint8 ⟨200, by decide⟩], by decide⟩ (by decide)
  rw [ParameterSlots.bindParameters_eq _ _ (by decide), Except.ok.injEq] at hc
  subst hc
  obtain ⟨slot, hslot, hdenoted⟩ := hdenotes 0 _ 200 rfl rfl
  rw [← Option.some.inj hslot] at hdenoted
  revert hdenoted
  decide

end GameServer.Database
