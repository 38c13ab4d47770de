import GameServer.Lib.FreeStore
import GameServer.Lib.Machine
import GameServer.Database.MySqlPreparedStatement

/-!
# The memory of a prepared statement

`SetParameter` puts the bytes of a parameter into a block of its own, `new char[length]`, and the
overloads for strings and byte vectors make a second one for the length, `new unsigned long`.
Binding a slot again, `ClearParameters` and the destructor release them.

The template for objects sets the pointer to the length to null without releasing it. Nothing is
freed twice (`stmtMemory_sound`), and what a statement leaves behind is counted by the objects that
are bound over a slot with a length (`destroy_live`). The connection clears the parameters after
each execution and leaves nothing behind (`executions_clean`), but every length is then released by
`delete[]`, which the language leaves undefined for a block that `new unsigned long` made; here it
is taken as a free, and `mismatched` counts these.

`overwritten` counts the lengths that are lost; neither counter is in the code.
-/

namespace GameServer.Database

open GameServer.Lib

/-! ## The code -/

inductive Block where
  /-- `new char[length]`, with the bytes that are copied there. -/
  | chars (bytes : List UInt8)
  /-- `new unsigned long(value)`. -/
  | ulong (value : Nat)
  deriving DecidableEq, Repr

abbrev Heap := FreeStore Block

/-- A `MYSQL_BIND` with its pointers, and the flag of its slot. -/
structure BoundParameter where
  assigned : Bool
  bufferType : EnumFieldTypes
  buffer : Option Nat
  bufferLength : Nat
  isNullValue : Bool
  length : Option Nat
  isUnsigned : Bool
  deriving DecidableEq, Repr

namespace BoundParameter

/-- As `memset` leaves it. -/
def zero : BoundParameter := ⟨false, .decimal, none, 0, false, none, false⟩

/-- `SetParameter(uint8_t, T &&)`; the pointer to the length is overwritten. -/
def setObject (m : Heap) (p : BoundParameter) (bufferType : EnumFieldTypes)
    (lvalue signed : Bool) (value : List UInt8) : Except Halt (Heap × BoundParameter) := do
  let m ← m.delete p.buffer
  .ok (m.allocate (.chars value),
    { assigned := true
      bufferType
      buffer := some m.next
      bufferLength := 0
      isNullValue := false
      length := none
      isUnsigned := MySqlBind.isSignedV lvalue signed })

/-- `SetParameter(uint8_t, const std::string &)` and the one for a vector of bytes. The length is
cast to a `uint32_t`, and as many bytes are copied. -/
def setBytes (m : Heap) (p : BoundParameter) (bufferType : EnumFieldTypes)
    (value : List UInt8) : Except Halt (Heap × BoundParameter) := do
  let length := value.length % 0x100000000
  let m ← m.delete p.buffer
  let buffer := m.next
  let m := m.allocate (.chars (value.take length))
  let m ← m.delete p.length
  .ok (m.allocate (.ulong length),
    { p with
      assigned := true
      bufferType
      buffer := some buffer
      bufferLength := length
      isNullValue := false
      length := some m.next })

/-- `SetParameter(uint8_t, std::nullptr_t)`. -/
def setNull (m : Heap) (p : BoundParameter) : Except Halt (Heap × BoundParameter) := do
  let m ← m.delete p.buffer
  let m ← m.delete p.length
  .ok (m,
    { p with
      assigned := true, bufferType := .null, buffer := none, bufferLength := 0,
      isNullValue := true, length := none })

/-- The overload that the visitor selects. -/
def setParameter (m : Heap) (p : BoundParameter) :
    PreparedStatementData → Except Halt (Heap × BoundParameter)
  | .bool value =>
    p.setObject m (mysqlType .uint8) false IntType.uint8.signed
      (IntType.uint8.toBytes (if value then 1 else 0))
  | .integer t value => p.setObject m (mysqlType t) true t.signed (t.toBytes value.val)
  | .float bits => p.setObject m .float true true (IntType.uint32.toBytes bits.toNat)
  | .double bits => p.setObject m .double true true (IntType.uint64.toBytes bits.toNat)
  | .string value => p.setBytes m .varString value
  | .binary value => p.setBytes m .blob value
  | .null => p.setNull m

/-- The loop body of `ClearParameters`. -/
def clear (m : Heap) (p : BoundParameter) : Except Halt (Heap × BoundParameter) := do
  let m ← m.delete p.length
  let m ← m.delete p.buffer
  .ok (m, { p with assigned := false, buffer := none, length := none })

end BoundParameter

/-- The parameters that the template for objects binds. -/
def PreparedStatementData.isObject : PreparedStatementData → Bool
  | .bool _ | .integer _ _ | .float _ | .double _ => true
  | .string _ | .binary _ | .null => false

/-- The parameters that get a block for their length. -/
def PreparedStatementData.hasLength : PreparedStatementData → Bool
  | .string _ | .binary _ => true
  | .bool _ | .integer _ _ | .float _ | .double _ | .null => false

/-- The lengths that binding `data` to the slot loses. -/
def BoundParameter.loses (p : BoundParameter) (data : PreparedStatementData) : Nat :=
  if data.isObject && p.length.isSome then 1 else 0

/-- The lengths of these slots. -/
def lengthCount (params : List BoundParameter) : Nat := params.countP fun p => p.length.isSome

structure StmtMemory where
  store : Heap
  params : List BoundParameter
  reported : Nat
  overwritten : Nat
  mismatched : Nat

namespace StmtMemory

/-- The constructor, for the number of parameters that the client library tells. -/
def ofParamCount (paramCount : Nat) : StmtMemory :=
  ⟨.empty, List.replicate paramCount .zero, 0, 0, 0⟩

/-- `SetParameter`, which starts with `AssertValidIndex`. -/
def setParameter (s : StmtMemory) (index : Nat) (data : PreparedStatementData) :
    Except Halt StmtMemory :=
  match s.params[index]? with
  | none => .error .abort
  | some p => (p.setParameter s.store data).map fun (store, p') =>
    { s with
      store
      params := s.params.set index p'
      reported := s.reported + if p.assigned then 1 else 0
      overwritten := s.overwritten + p.loses data }

/-- The loop of `BindParameters`; the position is a `uint8_t`. -/
def bindFrom (s : StmtMemory) (pos : Nat) : List PreparedStatementData → Except Halt StmtMemory
  | [] => .ok s
  | data :: parameters =>
    (s.setParameter pos data).bind fun s => s.bindFrom ((pos + 1) % 256) parameters

def bindParameters (s : StmtMemory) (pStmt : PreparedStatement) : Except Halt StmtMemory :=
  s.bindFrom 0 pStmt.statementData

/-- The loop of `ClearParameters`. -/
def clearAll (m : Heap) : List BoundParameter → Except Halt (Heap × List BoundParameter)
  | [] => .ok (m, [])
  | p :: params => do
    let (m, p) ← p.clear m
    let (m, params) ← clearAll m params
    .ok (m, p :: params)

def clearParameters (s : StmtMemory) : Except Halt StmtMemory :=
  (clearAll s.store s.params).map fun (store, params) =>
    { s with store, params, mismatched := s.mismatched + lengthCount s.params }

end StmtMemory

inductive StmtCall where
  | bind (pStmt : PreparedStatement)
  /-- `ClearParameters`, also from the destructor. -/
  | clear

def StmtMemory.call (s : StmtMemory) : StmtCall → Except Halt StmtMemory
  | .bind pStmt => s.bindParameters pStmt
  | .clear => s.clearParameters

/-- The calls on a statement with this number of parameters. -/
def stmtMemory (paramCount : Nat) : Machine StmtMemory StmtCall where
  init s := s = .ofParamCount paramCount
  step s c := (s.call c).toOption

/-! ## One slot -/

namespace BoundParameter

/-- The blocks that the slot holds. -/
def pointers (p : BoundParameter) : List Nat := p.buffer.toList ++ p.length.toList

end BoundParameter

/-- The bytes that `new char[length]` got. -/
def Block.bytes : Block → Option (List UInt8)
  | .chars bytes => some bytes
  | .ulong _ => none

def Block.value : Block → Option Nat
  | .chars _ => none
  | .ulong value => some value

namespace BoundParameter

/-- What the client library sees. -/
def view (m : Heap) (p : BoundParameter) : MySqlBind where
  bufferType := p.bufferType
  buffer := p.buffer.bind fun a => (m.read a).bind Block.bytes
  bufferLength := p.bufferLength
  isNullValue := p.isNullValue
  length := p.length.bind fun a => (m.read a).bind Block.value
  isUnsigned := p.isUnsigned

/-- The view depends on the blocks of the slot only. -/
theorem view_congr {m m' : Heap} {p : BoundParameter}
    (h : ∀ a ∈ p.pointers, m'.read a = m.read a) : p.view m' = p.view m := by
  have hbuffer : ∀ a, p.buffer = some a → m'.read a = m.read a := by
    intro a ha
    apply h
    simp [pointers, ha]
  have hlength : ∀ a, p.length = some a → m'.read a = m.read a := by
    intro a ha
    apply h
    simp [pointers, ha]
  unfold view
  congr 1
  · cases hb : p.buffer with
    | none => rfl
    | some a => simp only [Option.bind_some, hbuffer a hb]
  · cases hl : p.length with
    | none => rfl
    | some a => simp only [Option.bind_some, hlength a hl]

end BoundParameter

/-- The bytes of the buffer that were copied there. -/
def MySqlBind.stored (b : MySqlBind) : MySqlBind :=
  { b with
    buffer := match b.length with
      | none => b.buffer
      | some length => b.buffer.map (List.take length) }

/-- A call on a slot returns: the slot then has `P` and shows `b`, `lost` blocks are lost, and the
blocks of the other slots are as they were. -/
def Returns (m : Heap) (held : List Nat) (r : Except Halt (Heap × BoundParameter))
    (P : BoundParameter → Prop) (b : MySqlBind) (lost : Nat) : Prop :=
  ∃ m' p', r = .ok (m', p') ∧ m'.Ledger (p'.pointers ++ held) lost ∧ P p' ∧ p'.view m' = b ∧
    ∀ a ∈ held, m'.read a = m.read a

namespace BoundParameter

/-- Assigned, and with a block for the length or without. -/
def Assigned (hasLength : Bool) (p : BoundParameter) : Prop :=
  p.assigned = true ∧ p.length.isSome = hasLength

/-- As `ClearParameters` leaves it. -/
def Cleared (p : BoundParameter) : Prop := p.assigned = false ∧ p.buffer = none ∧ p.length = none

variable {m : Heap} {p : BoundParameter} {held : List Nat} {lost : Nat} {b : MySqlBind}

theorem pointers_append (p : BoundParameter) (held : List Nat) :
    p.pointers ++ held = p.buffer.toList ++ (p.length.toList ++ held) :=
  List.append_assoc _ _ _

theorem setObject_returns (h : m.Ledger (p.pointers ++ held) lost) (b : MySqlBind)
    (bufferType : EnumFieldTypes) (lvalue signed : Bool) (value : List UInt8) :
    Returns m held (p.setObject m bufferType lvalue signed value) (Assigned false)
      (b.setObject bufferType lvalue signed value).stored
      (lost + if p.length.isSome then 1 else 0) := by
  rw [pointers_append] at h
  obtain ⟨m₁, hdelete, h₁, hread⟩ := h.delete
  have h₂ := h₁.overwrite
  have h₃ := h₂.allocate (.chars value)
  refine ⟨_, _, by unfold setObject; rw [hdelete]; rfl, h₃, ⟨rfl, rfl⟩, ?_, ?_⟩
  · simp [view, MySqlBind.stored, MySqlBind.setObject, Block.bytes]
  · intro a ha
    rw [FreeStore.read_allocate (h₂.reads a ha)]
    exact hread a (List.mem_append_right _ ha)

theorem setNull_returns (h : m.Ledger (p.pointers ++ held) lost) (hb : p.view m = b.stored) :
    Returns m held (p.setNull m) (Assigned false) b.setNull.stored lost := by
  rw [pointers_append] at h
  obtain ⟨m₁, hbuffer, h₁, hread₁⟩ := h.delete
  obtain ⟨m₂, hlength, h₂, hread₂⟩ := h₁.delete
  refine ⟨_, _, by unfold setNull; rw [hbuffer]; simp only [bind, Except.bind]; rw [hlength],
    h₂, ⟨rfl, rfl⟩, ?_, ?_⟩
  · have hunsigned : p.isUnsigned = b.isUnsigned := congrArg MySqlBind.isUnsigned hb
    simp [view, MySqlBind.stored, MySqlBind.setNull, hunsigned]
  · intro a ha
    rw [hread₂ a ha]
    exact hread₁ a (List.mem_append_right _ ha)

theorem setBytes_returns (h : m.Ledger (p.pointers ++ held) lost) (hb : p.view m = b.stored)
    (bufferType : EnumFieldTypes) (value : List UInt8) :
    Returns m held (p.setBytes m bufferType value) (Assigned true)
      (b.setBytes bufferType value).stored lost := by
  rw [pointers_append] at h
  obtain ⟨m₁, hbuffer, h₁, hread₁⟩ := h.delete
  have h₂ := h₁.allocate (.chars (value.take (value.length % 0x100000000)))
  have hread₂ := fun a ha => FreeStore.read_allocate (h₁.reads a ha)
    (.chars (value.take (value.length % 0x100000000)))
  obtain ⟨m₃, hlength, h₃, hread₃⟩ := (h₂.perm List.perm_middle.symm).delete
  have h₄ := h₃.allocate (.ulong (value.length % 0x100000000))
  have hread₄ := fun a ha => FreeStore.read_allocate (h₃.reads a ha)
    (.ulong (value.length % 0x100000000))
  refine ⟨_, _, by unfold setBytes; rw [hbuffer]; simp only [bind, Except.bind]; rw [hlength],
    h₄.perm (List.Perm.swap _ _ _), ⟨rfl, rfl⟩, ?_, ?_⟩
  · have hunsigned : p.isUnsigned = b.isUnsigned := congrArg MySqlBind.isUnsigned hb
    have hchars := (hread₄ m₁.next List.mem_cons_self).trans (hread₃ m₁.next List.mem_cons_self)
    rw [FreeStore.read_allocate_self] at hchars
    simp [view, MySqlBind.stored, MySqlBind.setBytes, hunsigned, hchars, Block.bytes, Block.value]
  · intro a ha
    rw [hread₄ a (List.mem_cons_of_mem _ ha), hread₃ a (List.mem_cons_of_mem _ ha),
      hread₂ a (List.mem_append_right _ ha)]
    exact hread₁ a (List.mem_append_right _ ha)

/-- **`SetParameter`** frees what the slot held, or loses its length. -/
theorem setParameter_returns (h : m.Ledger (p.pointers ++ held) lost) (hb : p.view m = b.stored)
    (data : PreparedStatementData) :
    Returns m held (p.setParameter m data) (Assigned data.hasLength) (b.setParameter data).stored
      (lost + p.loses data) := by
  cases data with
  | bool value => exact setObject_returns h b _ _ _ _
  | integer t value => exact setObject_returns h b _ _ _ _
  | float bits => exact setObject_returns h b _ _ _ _
  | double bits => exact setObject_returns h b _ _ _ _
  | string value => exact setBytes_returns h hb _ _
  | binary value => exact setBytes_returns h hb _ _
  | null => exact setNull_returns h hb

theorem clear_returns (h : m.Ledger (p.pointers ++ held) lost) (hb : p.view m = b.stored) :
    Returns m held (p.clear m) Cleared { b with length := none, buffer := none } lost := by
  rw [pointers_append] at h
  obtain ⟨m₁, hlength, h₁, hread₁⟩ := (h.perm (List.perm_append_comm_assoc _ _ _)).delete
  obtain ⟨m₂, hbuffer, h₂, hread₂⟩ := h₁.delete
  refine ⟨_, _, by unfold clear; rw [hlength]; simp only [bind, Except.bind]; rw [hbuffer],
    h₂, ⟨rfl, rfl, rfl⟩, ?_, ?_⟩
  · have htype : p.bufferType = b.bufferType := congrArg MySqlBind.bufferType hb
    have hcount : p.bufferLength = b.bufferLength := congrArg MySqlBind.bufferLength hb
    have hnull : p.isNullValue = b.isNullValue := congrArg MySqlBind.isNullValue hb
    have hunsigned : p.isUnsigned = b.isUnsigned := congrArg MySqlBind.isUnsigned hb
    simp [view, htype, hcount, hnull, hunsigned]
  · intro a ha
    rw [hread₂ a ha]
    exact hread₁ a (List.mem_append_right _ ha)

end BoundParameter

/-! ## The statement -/

/-- The blocks of these slots. -/
def heldBy (params : List BoundParameter) : List Nat := params.flatMap BoundParameter.pointers

/-- The flags of the slots, with what the client library sees of them. -/
def StmtMemory.view (s : StmtMemory) : List (Bool × MySqlBind) :=
  s.params.map fun p => (p.assigned, p.view s.store)

def ParameterSlots.stored (b : ParameterSlots) : List (Bool × MySqlBind) :=
  b.slots.map fun slot => (slot.assigned, slot.bind.stored)

/-- The live blocks are those of the slots and the lost ones, and the slots show those of `b`. -/
structure StmtMemory.Refines (s : StmtMemory) (b : ParameterSlots) : Prop where
  ledger : s.store.Ledger (heldBy s.params) s.overwritten
  view : s.view = b.stored
  reported : s.reported = b.reported

/-- Both calls return and the states are related, or both end the process. -/
def Corresponds : Except Halt StmtMemory → Except Halt ParameterSlots → Prop
  | .ok s, .ok b => s.Refines b
  | .error e, .error e' => e = .abort ∧ e' = .abort
  | _, _ => False

theorem Corresponds.bind {x : Except Halt StmtMemory} {y : Except Halt ParameterSlots}
    {f : StmtMemory → Except Halt StmtMemory} {g : ParameterSlots → Except Halt ParameterSlots}
    (h : Corresponds x y) (hf : ∀ s b, s.Refines b → Corresponds (f s) (g b)) :
    Corresponds (x.bind f) (y.bind g) := by
  cases x with
  | error e =>
    cases y with
    | error e' => exact h
    | ok b => exact h.elim
  | ok s =>
    cases y with
    | error e' => exact h.elim
    | ok b => exact hf s b h

theorem heldBy_cleared {params : List BoundParameter} (h : ∀ p ∈ params, p.Cleared) :
    heldBy params = [] := by
  apply List.flatMap_eq_nil_iff.2
  intro p hp
  rw [BoundParameter.pointers, (h p hp).2.1, (h p hp).2.2]
  rfl

/-- The views of the slots whose blocks stayed as they were. -/
theorem map_view_congr {m m' : Heap} {params : List BoundParameter}
    (h : ∀ a ∈ heldBy params, m'.read a = m.read a) :
    params.map (fun p => (p.assigned, p.view m')) = params.map fun p => (p.assigned, p.view m) := by
  apply List.map_congr_left
  intro p hp
  rw [BoundParameter.view_congr fun a ha => h a (List.mem_flatMap.2 ⟨p, hp, ha⟩)]

namespace StmtMemory

variable {s : StmtMemory} {b : ParameterSlots}

theorem Refines.length_eq (h : s.Refines b) : s.params.length = b.slots.length := by
  have hlength := congrArg List.length h.view
  simpa only [StmtMemory.view, ParameterSlots.stored, List.length_map] using hlength

theorem ofParamCount_refines (paramCount : Nat) :
    (ofParamCount paramCount).Refines (.ofParamCount paramCount) := by
  have hheld : heldBy (List.replicate paramCount .zero) = [] := by
    apply heldBy_cleared
    intro p hp
    rw [(List.mem_replicate.1 hp).2]
    exact ⟨rfl, rfl, rfl⟩
  refine ⟨?_, ?_, rfl⟩
  · rw [ofParamCount, hheld]
    exact .empty
  · simp only [view, ofParamCount, ParameterSlots.stored, ParameterSlots.ofParamCount,
      List.map_replicate]
    rfl

/-- A slot with the slot that it shows, and those before and after it. -/
theorem Refines.exists_slot (h : s.Refines b) {index : Nat} (hlt : index < s.params.length) :
    ∃ before p after before' slot after', s.params = before ++ p :: after ∧
      b.slots = before' ++ slot :: after' ∧ before.length = index ∧ before'.length = index ∧
      slot.assigned = p.assigned ∧ p.view s.store = slot.bind.stored ∧
      before'.map (fun slot => (slot.assigned, slot.bind.stored)) =
        before.map (fun p => (p.assigned, p.view s.store)) ∧
      after'.map (fun slot => (slot.assigned, slot.bind.stored)) =
        after.map fun p => (p.assigned, p.view s.store) := by
  obtain ⟨before, p, after, hparams, hindex⟩ :
      ∃ before p after, s.params = before ++ p :: after ∧ before.length = index := by
    refine ⟨s.params.take index, s.params[index], s.params.drop (index + 1), ?_, ?_⟩
    · rw [← List.drop_eq_getElem_cons hlt, List.take_append_drop]
    · exact List.length_take_of_le (Nat.le_of_lt hlt)
  have hview := h.view
  rw [StmtMemory.view, ParameterSlots.stored, hparams, List.map_append, List.map_cons] at hview
  obtain ⟨before', rest, hslots, hbefore, hrest⟩ := List.map_eq_append_iff.1 hview.symm
  obtain ⟨slot, after', rfl, hslot, hafter⟩ := List.map_eq_cons_iff.1 hrest
  obtain ⟨hassigned, hbind⟩ := Prod.mk.inj hslot
  have hlength : before'.length = before.length := by
    have hmap := congrArg List.length hbefore
    rwa [List.length_map, List.length_map] at hmap
  exact ⟨before, p, after, before', slot, after', hparams, hslots, hindex, hlength.trans hindex,
    hassigned, hbind.symm, hbefore, hafter⟩

/-- **One parameter.** -/
theorem setParameter_step (h : s.Refines b) {index : Nat} {p : BoundParameter}
    (hget : s.params[index]? = some p) (data : PreparedStatementData) :
    ∃ m' p' b', s.setParameter index data = .ok
        { s with
          store := m'
          params := s.params.set index p'
          reported := s.reported + if p.assigned then 1 else 0
          overwritten := s.overwritten + p.loses data } ∧
      b.setParameter index data = .ok b' ∧ p'.Assigned data.hasLength ∧
      StmtMemory.Refines
        { s with
          store := m'
          params := s.params.set index p'
          reported := s.reported + if p.assigned then 1 else 0
          overwritten := s.overwritten + p.loses data } b' := by
  obtain ⟨before, p₀, after, before', slot, after', hparams, hslots, hindex, hindex', hassigned,
    hbind, hbefore, hafter⟩ := h.exists_slot (List.getElem?_eq_some_iff.1 hget).1
  obtain rfl : p₀ = p := by simpa [hparams, ← hindex] using hget
  have hledger : s.store.Ledger (p₀.pointers ++ (heldBy before ++ heldBy after)) s.overwritten := by
    apply h.ledger.perm
    rw [hparams, heldBy, List.flatMap_append, List.flatMap_cons]
    exact List.perm_append_comm_assoc _ _ _
  obtain ⟨m', p', hset, hledger', hassigned', hview', hread⟩ :=
    BoundParameter.setParameter_returns hledger hbind data
  have hafterSet : s.params.set index p' = before ++ p' :: after := by simp [hparams, ← hindex]
  have hb : b = ⟨before' ++ slot :: after', b.reported⟩ := by rw [← hslots]
  refine ⟨m', p', _, by rw [setParameter, hget]; simp only [hset]; rfl,
    by rw [hb, ← hindex', ParameterSlots.setParameter_append], hassigned', ?_, ?_, ?_⟩
  · apply hledger'.perm
    simp only [hafterSet, heldBy, List.flatMap_append, List.flatMap_cons]
    exact List.perm_append_comm_assoc _ _ _
  · simp only [view, ParameterSlots.stored, hafterSet, List.map_append, List.map_cons, hbefore,
      hafter]
    rw [map_view_congr fun a ha => hread a (List.mem_append_left _ ha),
      map_view_congr fun a ha => hread a (List.mem_append_right _ ha), hassigned'.1, hview']
    rfl
  · simp only [hassigned]
    exact congrArg (· + _) h.reported

theorem setParameter_corresponds (h : s.Refines b) (index : Nat) (data : PreparedStatementData) :
    Corresponds (s.setParameter index data) (b.setParameter index data) := by
  cases hget : s.params[index]? with
  | some p =>
    obtain ⟨m', p', b', hs, hb, -, hrefines⟩ := setParameter_step h hget data
    rw [hs, hb]
    exact hrefines
  | none =>
    have hslots : b.slots[index]? = none :=
      List.getElem?_eq_none (h.length_eq ▸ List.getElem?_eq_none_iff.1 hget)
    rw [setParameter, hget, ParameterSlots.setParameter, ParameterSlots.assertValidIndex, hslots]
    exact ⟨rfl, rfl⟩

theorem bindFrom_corresponds (h : s.Refines b) (pos : Nat)
    (parameters : List PreparedStatementData) :
    Corresponds (s.bindFrom pos parameters) (b.bindFrom pos parameters) := by
  induction parameters generalizing s b pos with
  | nil => exact h
  | cons data parameters ih => exact (setParameter_corresponds h pos data).bind fun s b h => ih h _

/-- The lengths that binding the values to these slots loses. -/
def lostBy : List BoundParameter → List PreparedStatementData → Nat
  | p :: params, data :: parameters => p.loses data + lostBy params parameters
  | _, _ => 0

/-- What a call of `BindParameters` counts. -/
structure Bound (s t : StmtMemory) (pos : Nat) (parameters : List PreparedStatementData) :
    Prop where
  length : t.params.length = s.params.length
  overwritten : t.overwritten = s.overwritten + lostBy (s.params.drop pos) parameters
  mismatched : t.mismatched = s.mismatched
  reported : t.reported =
    s.reported + ((s.params.drop pos).take parameters.length).countP BoundParameter.assigned
  lengths : lengthCount t.params + lengthCount ((s.params.drop pos).take parameters.length) =
    lengthCount s.params + parameters.countP PreparedStatementData.hasLength

theorem bindFrom_bound (h : s.Refines b) {t : StmtMemory} {pos : Nat}
    {parameters : List PreparedStatementData} (hpos : pos + parameters.length < 256)
    (hbind : s.bindFrom pos parameters = .ok t) : Bound s t pos parameters := by
  induction parameters generalizing s b pos with
  | nil =>
    cases hbind
    exact ⟨rfl, by cases t.params.drop pos <;> rfl, rfl, rfl, rfl⟩
  | cons data parameters ih =>
    rw [List.length_cons] at hpos
    have hnext : (pos + 1) % 256 = pos + 1 := Nat.mod_eq_of_lt (by omega)
    rw [bindFrom, hnext] at hbind
    cases hget : s.params[pos]? with
    | none =>
      rw [setParameter, hget] at hbind
      cases hbind
    | some p =>
      obtain ⟨m', p', b', hset, -, hassigned, hrefines⟩ := setParameter_step h hget data
      rw [hset] at hbind
      have hrest := ih hrefines (by omega) hbind
      obtain ⟨hlt, hp⟩ := List.getElem?_eq_some_iff.1 hget
      have hdrop : s.params.drop pos = p :: s.params.drop (pos + 1) := by
        rw [List.drop_eq_getElem_cons hlt, hp]
      have hafter : (s.params.set pos p').drop (pos + 1) = s.params.drop (pos + 1) :=
        List.drop_set_of_lt (Nat.lt_succ_self pos)
      refine ⟨?_, ?_, hrest.mismatched, ?_, ?_⟩
      · rw [hrest.length, List.length_set]
      · rw [hrest.overwritten, hafter, hdrop, lostBy, Nat.add_assoc]
      · have hreported := hrest.reported
        simp only [hafter] at hreported
        rw [hdrop, List.length_cons, List.take_succ_cons, List.countP_cons]
        omega
      · have hlengths := hrest.lengths
        simp only [hafter, lengthCount] at hlengths ⊢
        rw [List.countP_set hlt, hp, hassigned.2] at hlengths
        have hcount : (if p.length.isSome then 1 else 0) ≤
            s.params.countP fun p => p.length.isSome := by
          split
          · next hsome =>
            exact List.countP_pos_iff.2 ⟨p, hp ▸ List.getElem_mem hlt, hsome⟩
          · exact Nat.zero_le _
        rw [hdrop, List.length_cons, List.take_succ_cons, List.countP_cons, List.countP_cons]
        omega

/-- The loop of `ClearParameters` releases the blocks of all slots. -/
theorem clearAll_returns {m : Heap} {params : List BoundParameter} {slots : List ParameterSlot}
    {held : List Nat} {lost : Nat} (h : m.Ledger (heldBy params ++ held) lost)
    (hview : params.map (fun p => (p.assigned, p.view m)) =
      slots.map fun slot => (slot.assigned, slot.bind.stored)) :
    ∃ m' params', clearAll m params = .ok (m', params') ∧ m'.Ledger held lost ∧
      (∀ p ∈ params', p.Cleared) ∧
      params'.map (fun p => (p.assigned, p.view m')) =
        slots.map (fun slot => (false, { slot.bind with length := none, buffer := none })) ∧
      ∀ a ∈ held, m'.read a = m.read a := by
  induction params generalizing m slots with
  | nil =>
    cases slots with
    | nil => exact ⟨m, [], rfl, h, fun _ hp => absurd hp List.not_mem_nil, rfl, fun _ _ => rfl⟩
    | cons slot slots => cases hview
  | cons p params ih =>
    obtain ⟨slot, slots, rfl, hslot, hslots⟩ := List.map_eq_cons_iff.1 hview.symm
    rw [heldBy, List.flatMap_cons, List.append_assoc] at h
    obtain ⟨m₁, p₁, hclear, h₁, hp, hview₁, hread₁⟩ :=
      BoundParameter.clear_returns h (Prod.mk.inj hslot).2.symm
    have hpointers : p₁.pointers = [] := by rw [BoundParameter.pointers, hp.2.1, hp.2.2]; rfl
    rw [hpointers, List.nil_append] at h₁
    have hsame := map_view_congr fun a ha => hread₁ a (List.mem_append_left _ ha)
    obtain ⟨m₂, params₂, hrest, h₂, hcleared, hview₂, hread₂⟩ := ih h₁ (hsame.trans hslots.symm)
    refine ⟨m₂, p₁ :: params₂, ?_, h₂, ?_, ?_, fun a ha => ?_⟩
    · rw [clearAll, hclear]
      simp only [bind, Except.bind, hrest]
    · exact List.forall_mem_cons.2 ⟨hp, hcleared⟩
    · have hview₁' : p₁.view m₂ = p₁.view m₁ := by
        apply BoundParameter.view_congr
        rw [hpointers]
        exact fun _ ha => absurd ha List.not_mem_nil
      rw [List.map_cons, List.map_cons, hview₂, hview₁', hview₁, hp.1]
    · rw [hread₂ a ha]
      exact hread₁ a (List.mem_append_right _ ha)

/-- **`ClearParameters`** -/
theorem clearParameters_refines (h : s.Refines b) : ∃ t, s.clearParameters = .ok t ∧
    t.Refines b.clearParameters ∧ (∀ p ∈ t.params, p.Cleared) ∧ t.overwritten = s.overwritten ∧
    t.mismatched = s.mismatched + lengthCount s.params := by
  have hledger : s.store.Ledger (heldBy s.params ++ []) s.overwritten := by
    rw [List.append_nil]
    exact h.ledger
  obtain ⟨m', params', hclear, hledger, hcleared, hview, -⟩ := clearAll_returns hledger h.view
  refine ⟨⟨m', params', s.reported, s.overwritten, s.mismatched + lengthCount s.params⟩,
    by rw [clearParameters, hclear]; rfl, ⟨?_, ?_, h.reported⟩, hcleared, rfl, rfl⟩
  · rw [heldBy_cleared hcleared]
    exact hledger
  · rw [view, hview, ParameterSlots.stored, ParameterSlots.clearParameters, List.map_map]
    rfl

end StmtMemory

/-! ## Runs -/

def ParameterSlots.call (b : ParameterSlots) : StmtCall → Except Halt ParameterSlots
  | .bind pStmt => b.bindParameters pStmt
  | .clear => .ok b.clearParameters

/-- The same calls on the slots. -/
def parameterSlots (paramCount : Nat) : Machine ParameterSlots StmtCall where
  init b := b = .ofParamCount paramCount
  step b c := (b.call c).toOption

theorem stmtMemory_step {paramCount : Nat} {s t : StmtMemory} {c : StmtCall} :
    (stmtMemory paramCount).step s c = some t ↔ s.call c = .ok t := by
  change (s.call c).toOption = some t ↔ _
  cases s.call c <;> simp [Except.toOption]

/-- A call ends the process only if there are more values than parameters. -/
def StmtCall.Fits (paramCount : Nat) : StmtCall → Prop
  | .bind pStmt => pStmt.statementData.length ≤ paramCount
  | .clear => True

namespace StmtMemory

variable {s t : StmtMemory} {b : ParameterSlots} {paramCount : Nat}

/-- **One call.** -/
theorem call_corresponds (h : s.Refines b) (c : StmtCall) : Corresponds (s.call c) (b.call c) := by
  cases c with
  | bind pStmt => exact bindFrom_corresponds h 0 pStmt.statementData
  | clear =>
    obtain ⟨t, ht, hrefines, -⟩ := clearParameters_refines h
    rw [call, ht]
    exact hrefines

/-- Neither freed twice nor read after it was freed: a call returns, or it ends the process since
there are too many values. -/
theorem call_isOk_iff (h : s.Refines b) (c : StmtCall) :
    (c.Fits s.params.length → ∃ t, s.call c = .ok t) ∧
      (¬c.Fits s.params.length → s.call c = .error .abort) := by
  have hcall := call_corresponds h c
  cases c with
  | clear =>
    obtain ⟨t, ht, -⟩ := clearParameters_refines h
    exact ⟨fun _ => ⟨t, ht⟩, fun hnot => absurd trivial hnot⟩
  | bind pStmt =>
    rw [StmtCall.Fits, h.length_eq]
    constructor
    · intro hle
      rw [ParameterSlots.call, ParameterSlots.bindParameters_eq b pStmt hle] at hcall
      cases hs : s.call (.bind pStmt) with
      | ok t => exact ⟨t, rfl⟩
      | error e =>
        rw [hs] at hcall
        exact hcall.elim
    · intro hgt
      have habort : b.call (.bind pStmt) = .error .abort := by
        apply ParameterSlots.bindFrom_abort b 0
        · rw [ParameterSlots.paramCount]
          omega
        · rw [Nat.zero_add]
          exact pStmt.capacity
        · exact Nat.zero_le _
      rw [habort] at hcall
      cases hs : s.call (.bind pStmt) with
      | ok t =>
        rw [hs] at hcall
        exact hcall.elim
      | error e =>
        rw [hs] at hcall
        rw [hcall.1]

/-! ## What is lost -/

/-- The lengths that a call loses. -/
def losses (s : StmtMemory) : StmtCall → Nat
  | .bind pStmt => lostBy s.params pStmt.statementData
  | .clear => 0

/-- No object is bound to a slot that has a length. -/
def KeepsLengths (s : StmtMemory) (c : StmtCall) : Prop :=
  ∀ (pStmt : PreparedStatement) (i : Nat) (p : BoundParameter) (data : PreparedStatementData),
    c = .bind pStmt → s.params[i]? = some p → pStmt.statementData[i]? = some data →
      data.isObject = true → p.length = none

theorem lostBy_eq_zero_iff (params : List BoundParameter)
    (parameters : List PreparedStatementData) :
    lostBy params parameters = 0 ↔ ∀ (i : Nat) (p : BoundParameter) (data : PreparedStatementData),
      params[i]? = some p → parameters[i]? = some data → data.isObject = true →
        p.length = none := by
  induction params generalizing parameters with
  | nil => simp [lostBy]
  | cons p params ih =>
    cases parameters with
    | nil => simp [lostBy]
    | cons data parameters =>
      have hloses : p.loses data = 0 ↔ (data.isObject = true → p.length = none) := by
        unfold BoundParameter.loses
        cases p.length <;> simp
      rw [lostBy, Nat.add_eq_zero_iff, ih, hloses]
      constructor
      · rintro ⟨hhead, htail⟩ (_ | i) q d hq hd hobject
        · simp only [List.getElem?_cons_zero, Option.some.injEq] at hq hd
          subst hq hd
          exact hhead hobject
        · exact htail i q d hq hd hobject
      · intro hall
        exact ⟨hall 0 p data rfl rfl, fun i => hall (i + 1)⟩

theorem losses_eq_zero_iff (s : StmtMemory) (c : StmtCall) :
    s.losses c = 0 ↔ s.KeepsLengths c := by
  cases c with
  | clear =>
    refine iff_of_true rfl fun pStmt i p data hc => ?_
    cases hc
  | bind pStmt =>
    rw [losses, lostBy_eq_zero_iff]
    constructor
    · rintro h _ i p data ⟨⟩
      exact h i p data
    · intro h i p data
      exact h pStmt i p data rfl

/-- The blocks are accounted for, and the slots show those of some list of slots. -/
def Sound (paramCount : Nat) (s : StmtMemory) : Prop :=
  s.params.length = paramCount ∧ ∃ b, s.Refines b

theorem Sound.ofParamCount (paramCount : Nat) : Sound paramCount (ofParamCount paramCount) :=
  ⟨List.length_replicate, _, ofParamCount_refines paramCount⟩

theorem Sound.call (h : Sound paramCount s) {c : StmtCall} (ht : s.call c = .ok t) :
    Sound paramCount t ∧ t.overwritten = s.overwritten + s.losses c := by
  obtain ⟨hlength, b, hrefines⟩ := h
  have hcorresponds := call_corresponds hrefines c
  rw [ht] at hcorresponds
  obtain ⟨b', ht'⟩ : ∃ b', t.Refines b' := by
    cases hb : b.call c with
    | ok b' =>
      rw [hb] at hcorresponds
      exact ⟨b', hcorresponds⟩
    | error e =>
      rw [hb] at hcorresponds
      exact hcorresponds.elim
  cases c with
  | bind pStmt =>
    have hbound := bindFrom_bound hrefines (by simpa using pStmt.capacity) ht
    exact ⟨⟨hbound.length.trans hlength, b', ht'⟩, hbound.overwritten⟩
  | clear =>
    obtain ⟨u, hu, hrefinesu, -, hoverwritten, -⟩ := clearParameters_refines hrefines
    rw [StmtMemory.call, hu] at ht
    cases ht
    refine ⟨⟨?_, b', ht'⟩, hoverwritten⟩
    rw [hrefinesu.length_eq, ← hlength, hrefines.length_eq, ParameterSlots.clearParameters,
      List.length_map]

theorem Sound.run (h : Sound paramCount s) {calls : List StmtCall}
    (hrun : (stmtMemory paramCount).run s calls = some t) :
    Sound paramCount t ∧
      t.overwritten = s.overwritten + (stmtMemory paramCount).gained losses s calls := by
  refine Machine.run_gained (w := overwritten) ?_ ?_ h hrun
  · intro s c t hs hstep
    exact (hs.call (stmtMemory_step.1 hstep)).1
  · intro s c t hs hstep
    exact (hs.call (stmtMemory_step.1 hstep)).2

end StmtMemory

/-- **No fault.** In every state that a statement reaches its pointers are to live blocks, no two to
the same one, and there are no live blocks but these and the lost ones. A call ends the process if
there are too many values, and returns otherwise. -/
theorem stmtMemory_sound {paramCount : Nat} {s : StmtMemory}
    (h : (stmtMemory paramCount).Reach s) :
    (∀ a ∈ heldBy s.params, (s.store.read a).isSome) ∧ (heldBy s.params).Nodup ∧
      s.store.live = (heldBy s.params).length + s.overwritten ∧
      ∀ c : StmtCall, (c.Fits paramCount → ∃ t, s.call c = .ok t) ∧
        (¬c.Fits paramCount → s.call c = .error .abort) := by
  obtain ⟨hlength, b, hrefines⟩ : StmtMemory.Sound paramCount s := by
    refine h.invariant ?_ ?_
    · rintro _ rfl
      exact .ofParamCount paramCount
    · intro s c t hs _ hstep
      exact (hs.call (stmtMemory_step.1 hstep)).1
  refine ⟨hrefines.ledger.reads, hrefines.ledger.nodup, hrefines.ledger.live, fun c => ?_⟩
  rw [← hlength]
  exact StmtMemory.call_isOk_iff hrefines c

/-- A text, and then a number over it, for the only parameter. -/
def textThenNumber : List StmtCall :=
  [.bind ⟨0, [.string [104, 105]], by decide⟩,
    .bind ⟨0, [.integer .uint8 ⟨7, by decide⟩], by decide⟩]

/-- The buffer of the number is live, and the length of the text. -/
theorem stmtMemory_sound_textThenNumber :
    ∃ s, (stmtMemory 1).Reach s ∧ s.store.live = 2 ∧ s.overwritten = 1 := by
  have hrun : (stmtMemory 1).run (.ofParamCount 1) textThenNumber = some _ := rfl
  have hreach := Machine.reach_of_run rfl hrun
  exact ⟨_, hreach, (stmtMemory_sound hreach).2.2.1.trans rfl, rfl⟩

theorem run_shows {paramCount : Nat} {s : StmtMemory} {b : ParameterSlots} (h : s.Refines b)
    (calls : List StmtCall) :
    ((stmtMemory paramCount).run s calls).map (fun t => (t.view, t.reported)) =
      ((parameterSlots paramCount).run b calls).map fun t => (t.stored, t.reported) := by
  induction calls generalizing s b with
  | nil => exact congrArg some (Prod.ext h.view h.reported)
  | cons c calls ih =>
    have hcall := StmtMemory.call_corresponds h c
    rw [Machine.run_cons, Machine.run_cons]
    change (((s.call c).toOption).bind _).map _ = (((b.call c).toOption).bind _).map _
    cases hs : s.call c with
    | ok t =>
      cases hb : b.call c with
      | ok b' =>
        rw [hs, hb] at hcall
        exact ih hcall
      | error e =>
        rw [hs, hb] at hcall
        exact hcall.elim
    | error e =>
      cases hb : b.call c with
      | ok b' =>
        rw [hs, hb] at hcall
        exact hcall.elim
      | error e' => rfl

/-- **Refinement.** After any calls the buffers show what the model without pointers says: of each
value the bytes that its length counts. -/
theorem stmtMemory_shows (paramCount : Nat) (calls : List StmtCall) :
    ((stmtMemory paramCount).run (.ofParamCount paramCount) calls).map
        (fun s => (s.view, s.reported)) =
      ((parameterSlots paramCount).run (.ofParamCount paramCount) calls).map
        fun b => (b.stored, b.reported) :=
  run_shows (StmtMemory.ofParamCount_refines paramCount) calls

/-- **What a statement leaves behind.** When it is destroyed, the blocks that are still live are the
lengths over which objects were bound; there are none exactly if that never happened. -/
theorem destroy_live {paramCount : Nat} {calls : List StmtCall} {s : StmtMemory}
    (h : (stmtMemory paramCount).run (.ofParamCount paramCount) calls = some s) :
    ∃ t, s.clearParameters = .ok t ∧
      t.store.live = (stmtMemory paramCount).gained StmtMemory.losses (.ofParamCount paramCount)
        calls ∧
      (t.store.live = 0 ↔
        (stmtMemory paramCount).Meets StmtMemory.KeepsLengths (.ofParamCount paramCount)
          calls) := by
  obtain ⟨⟨-, b, hrefines⟩, hgained⟩ := (StmtMemory.Sound.ofParamCount paramCount).run h
  obtain ⟨t, ht, hrefinest, hcleared, hoverwritten, -⟩ :=
    StmtMemory.clearParameters_refines hrefines
  have hlive : t.store.live =
      (stmtMemory paramCount).gained StmtMemory.losses (.ofParamCount paramCount) calls := by
    rw [hrefinest.ledger.live, heldBy_cleared hcleared, hoverwritten, hgained, List.length_nil,
      Nat.zero_add]
    exact Nat.zero_add _
  refine ⟨t, ht, hlive, ?_⟩
  rw [hlive, Machine.gained_eq_zero_iff h]
  have hguard : (fun s c => StmtMemory.losses s c = 0) = StmtMemory.KeepsLengths := by
    funext s c
    exact propext (s.losses_eq_zero_iff c)
  rw [hguard]

theorem destroy_live_textThenNumber :
    ∃ s t, (stmtMemory 1).run (.ofParamCount 1) textThenNumber = some s ∧
      s.clearParameters = .ok t ∧ t.store.live = 1 := by
  have hrun : (stmtMemory 1).run (.ofParamCount 1) textThenNumber = some _ := rfl
  obtain ⟨t, ht, hlive, -⟩ := destroy_live hrun
  exact ⟨_, t, hrun, ht, hlive.trans rfl⟩

/-! ## Executions -/

/-- The calls of the connection: each execution binds its values and ends with `ClearParameters`. -/
def executions (pStmts : List PreparedStatement) : List StmtCall :=
  pStmts.flatMap fun pStmt => [.bind pStmt, .clear]

/-- Between two executions. -/
structure StmtMemory.Idle (paramCount : Nat) (s : StmtMemory) : Prop where
  sound : StmtMemory.Sound paramCount s
  cleared : ∀ p ∈ s.params, p.Cleared
  overwritten : s.overwritten = 0
  reported : s.reported = 0

namespace StmtMemory.Idle

variable {paramCount : Nat} {s : StmtMemory}

theorem countP_eq_zero {params : List BoundParameter} (h : ∀ p ∈ params, p.Cleared) :
    params.countP BoundParameter.assigned = 0 ∧ lengthCount params = 0 := by
  constructor
  · apply List.countP_eq_zero.2
    intro p hp
    simp [(h p hp).1]
  · apply List.countP_eq_zero.2
    intro p hp
    simp [(h p hp).2.2]

theorem ofParamCount (paramCount : Nat) : (ofParamCount paramCount).Idle paramCount := by
  refine ⟨.ofParamCount paramCount, fun p hp => ?_, rfl, rfl⟩
  rw [(List.mem_replicate.1 hp).2]
  exact ⟨rfl, rfl, rfl⟩

/-- An idle statement has no live blocks. -/
theorem live_eq_zero (h : s.Idle paramCount) : s.store.live = 0 := by
  obtain ⟨-, b, hrefines⟩ := h.sound
  rw [hrefines.ledger.live, heldBy_cleared h.cleared, h.overwritten]
  rfl

/-- **One execution.** -/
theorem execution (h : s.Idle paramCount) {pStmt : PreparedStatement}
    (hfits : pStmt.statementData.length ≤ paramCount) :
    ∃ t, (stmtMemory paramCount).run s [.bind pStmt, .clear] = some t ∧ t.Idle paramCount ∧
      t.mismatched =
        s.mismatched + pStmt.statementData.countP PreparedStatementData.hasLength := by
  obtain ⟨hlength, b, hrefines⟩ := h.sound
  obtain ⟨u, hu⟩ := (call_isOk_iff hrefines (.bind pStmt)).1 (hlength ▸ hfits)
  have hbound := bindFrom_bound hrefines (by simpa using pStmt.capacity) hu
  obtain ⟨hsound, hoverwritten⟩ := h.sound.call hu
  obtain ⟨b', hrefines'⟩ := hsound.2
  obtain ⟨t, ht, hrefinest, hcleared, hsame, hmismatched⟩ := clearParameters_refines hrefines'
  have hkeeps : s.KeepsLengths (.bind pStmt) := fun _ _ p _ _ hp _ _ =>
    (h.cleared p (List.mem_of_getElem? hp)).2.2
  have hbefore := countP_eq_zero h.cleared
  have hslots : ∀ p ∈ (s.params.drop 0).take pStmt.statementData.length, p.Cleared :=
    fun p hp => h.cleared p (List.mem_of_mem_drop (List.mem_of_mem_take hp))
  have hslots := countP_eq_zero hslots
  refine ⟨t, ?_, ⟨(hsound.call (c := .clear) ht).1, hcleared, ?_, ?_⟩, ?_⟩
  · have hclear : u.call .clear = .ok t := ht
    rw [Machine.run_cons, stmtMemory_step.2 hu, Option.bind_some, Machine.run_cons,
      stmtMemory_step.2 hclear]
    rfl
  · rw [hsame, hoverwritten, (s.losses_eq_zero_iff _).2 hkeeps, h.overwritten]
  · rw [hrefinest.reported]
    exact hrefines'.reported.symm.trans (by rw [hbound.reported, hslots.1, h.reported])
  · have hlengths := hbound.lengths
    rw [hslots.2, hbefore.2] at hlengths
    rw [hmismatched, hbound.mismatched]
    omega

theorem executions (h : s.Idle paramCount) {pStmts : List PreparedStatement}
    (hfits : ∀ pStmt ∈ pStmts, pStmt.statementData.length ≤ paramCount) :
    ∃ t, (stmtMemory paramCount).run s (Database.executions pStmts) = some t ∧
      t.Idle paramCount ∧ t.mismatched = s.mismatched +
        (pStmts.flatMap PreparedStatement.statementData).countP
          PreparedStatementData.hasLength := by
  induction pStmts generalizing s with
  | nil => exact ⟨s, rfl, h, rfl⟩
  | cons pStmt pStmts ih =>
    obtain ⟨hfirst, hfits⟩ := List.forall_mem_cons.1 hfits
    obtain ⟨u, hu, hidle, hmismatched⟩ := h.execution hfirst
    obtain ⟨t, ht, hidle', hmismatched'⟩ := ih hidle hfits
    refine ⟨t, ?_, hidle', ?_⟩
    · rw [Database.executions, List.flatMap_cons, Machine.run_append, hu]
      exact ht
    · rw [hmismatched', hmismatched, List.flatMap_cons, List.countP_append]
      omega

end StmtMemory.Idle

/-- **Executions leave nothing behind.** No block is live after them, no length was lost and no slot
reported; `delete[]` has released a block that is no array for each string and byte vector. -/
theorem executions_clean {paramCount : Nat} {pStmts : List PreparedStatement}
    (hfits : ∀ pStmt ∈ pStmts, pStmt.statementData.length ≤ paramCount) :
    ∃ s, (stmtMemory paramCount).run (.ofParamCount paramCount) (executions pStmts) = some s ∧
      s.store.live = 0 ∧ s.overwritten = 0 ∧ s.reported = 0 ∧
      s.mismatched = (pStmts.flatMap PreparedStatement.statementData).countP
        PreparedStatementData.hasLength := by
  obtain ⟨s, hs, hidle, hmismatched⟩ :=
    (StmtMemory.Idle.ofParamCount paramCount).executions hfits
  refine ⟨s, hs, hidle.live_eq_zero, hidle.overwritten, hidle.reported, ?_⟩
  rw [hmismatched]
  exact Nat.zero_add _

theorem executions_clean_oneText :
    ∃ s, (stmtMemory 1).run (.ofParamCount 1)
        (executions [⟨0, [.string [104, 105]], by decide⟩]) = some s ∧
      s.store.live = 0 ∧ s.mismatched = 1 := by
  have hfits : ∀ pStmt ∈ [(⟨0, [.string [104, 105]], by decide⟩ : PreparedStatement)],
      pStmt.statementData.length ≤ 1 := by
    simp
  obtain ⟨s, hs, hlive, -, -, hmismatched⟩ := executions_clean hfits
  exact ⟨s, hs, hlive, hmismatched⟩

end GameServer.Database
