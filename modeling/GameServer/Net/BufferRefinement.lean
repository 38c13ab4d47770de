import Mathlib.Logic.Function.Basic
import GameServer.Lib.Fifo
import GameServer.Lib.Machine
import GameServer.Net.Buffer

/-!
# `MessageBuffer` is a queue of bytes

Every member function is executed here with its accesses: a load or a store outside the vector
and a failed `assert` have no result. `buffers` is the machine of any number of buffers that are
written, filled from outside, read, copied, moved and swapped, next to the queues they stand for.

* `Represents` relates a buffer to its queue: the indices are in order and inside the vector, the
  readable bytes are the pending ones, and what was written and read is the queue's history.
* `Call.exec_represents` has one case for each member function, `buffers_refine` is the theorem
  about runs.
-/

namespace GameServer.Net

open GameServer.Lib

namespace MessageBuffer

/-! ## Accesses -/

/-- The bytes between two pointers into the vector. -/
def load (v : List UInt8) (first last : Nat) : Option (List UInt8) :=
  if first ≤ last ∧ last ≤ v.length then some ((v.take last).drop first) else none

/-- Bytes copied to a pointer into the vector. -/
def store (v : List UInt8) (index : Nat) (data : List UInt8) : Option (List UInt8) :=
  if index + data.length ≤ v.length then
    some (v.take index ++ data ++ v.drop (index + data.length))
  else none

/-- `MakeSpace`. -/
def makeSpaceIn (b : MessageBuffer) (len : Nat) : Option MessageBuffer :=
  if b.writableBytes < len then some { b with buffer := resize b.buffer (b.writeIndex + len) }
  else do
    let moved ← load b.buffer b.readIndex b.writeIndex
    let buffer ← store b.buffer 0 moved
    some ⟨0, b.readableBytes, buffer⟩

/-- `EnsureWritableBytes`. -/
def ensureWritableBytesIn (b : MessageBuffer) (len : Nat) : Option MessageBuffer :=
  if b.writableBytes < len then b.makeSpaceIn len else some b

/-- `EnsureFreeSpace`. -/
def ensureFreeSpaceIn (b : MessageBuffer) : Option MessageBuffer :=
  b.makeSpaceIn (b.buffer.length * 3 / 2)

/-- Bytes that somebody else stores at the write pointer, and `WriteDone`. -/
def fillIn (b : MessageBuffer) (data : List UInt8) : Option MessageBuffer := do
  let buffer ← store b.buffer b.writeIndex data
  some ({ b with buffer }.writeDone data.length)

/-- `Write(const uint8_t *data, size_t len)`, and so the other overloads and `operator<<`. -/
def writeIn (b : MessageBuffer) (data : List UInt8) : Option MessageBuffer := do
  let b ← b.ensureWritableBytesIn data.length
  b.fillIn data

/-- `Adjustment`, with its `assert`. -/
def adjustmentIn (b : MessageBuffer) (len : Nat) : Option MessageBuffer :=
  if len ≤ b.readableBytes then some (b.adjustment len) else none

/-- `Read<PODType>()` of a type of `size` bytes, and `operator>>`. -/
def readPod (b : MessageBuffer) (size : Nat) : Option (List UInt8 × MessageBuffer) := do
  let result ← load b.buffer b.readIndex (b.readIndex + size)
  let b ← b.adjustmentIn size
  some (result, b)

/-- `Read(void *data, size_t len)`, with its `assert`. -/
def readData (b : MessageBuffer) (len : Nat) : Option (List UInt8 × MessageBuffer) :=
  if len ≤ b.readableBytes then b.readPod (min len b.readableBytes) else none

/-- `ReadAsString`, with its `assert`. -/
def readAsStringIn (b : MessageBuffer) (len : Nat) : Option (List UInt8 × MessageBuffer) :=
  if len ≤ b.readableBytes then b.readPod len else none

/-- `ReadAllAsString`. -/
def readAllAsStringIn (b : MessageBuffer) : Option (List UInt8 × MessageBuffer) :=
  b.readAsStringIn b.readableBytes

/-- Bytes that somebody else takes from the read pointer, and `ReadDone`. -/
def readDoneIn (b : MessageBuffer) (len : Nat) : Option (List UInt8 × MessageBuffer) := do
  let result ← load b.buffer b.readIndex (b.readIndex + len)
  some (result, b.readDone len)

/-- `Shrink`: the contents move to a new buffer, which is swapped in. -/
def shrink (b : MessageBuffer) (reserve : Nat) : Option MessageBuffer := do
  let other ← (ofSize initialBufferSize).ensureWritableBytesIn (b.readableBytes + reserve)
  let unread ← load b.buffer b.readIndex (b.readIndex + b.readableBytes)
  other.writeIn unread

/-- What the move constructor leaves of its argument. -/
def movedFrom : MessageBuffer := ⟨0, 0, []⟩

/-! ## The accesses of a valid buffer -/

variable {b : MessageBuffer}

theorem Valid.load_unread (h : b.Valid) {len : Nat} (hl : len ≤ b.readableBytes) :
    load b.buffer b.readIndex (b.readIndex + len) = some (b.readable.take len) := by
  have hr := h.read_le
  have hw := h.write_le
  rw [h.readableBytes_eq] at hl
  unfold load
  rw [if_pos ⟨by omega, by omega⟩, readable, List.drop_take, List.drop_take, List.take_take]
  congr 2
  omega

/-- `MakeSpace` stays inside the vector and does what `makeSpace` says. -/
theorem Valid.makeSpaceIn (h : b.Valid) (len : Nat) :
    b.makeSpaceIn len = some (b.makeSpace len) := by
  have hr := h.read_le
  have hw := h.write_le
  have hlen := length_readable h
  unfold MessageBuffer.makeSpaceIn makeSpace
  split
  · rfl
  · have hload : load b.buffer b.readIndex b.writeIndex = some b.readable := if_pos ⟨hr, hw⟩
    have hstore : store b.buffer 0 b.readable =
        some (b.readable ++ b.buffer.drop b.readableBytes) := by
      unfold store
      rw [if_pos, hlen, Nat.zero_add, List.take_zero, List.nil_append]
      rw [hlen, h.readableBytes_eq]
      omega
    rw [hload, Option.bind_eq_bind, Option.bind_some, hstore]
    rfl

theorem Valid.ensureWritableBytesIn (h : b.Valid) (len : Nat) :
    b.ensureWritableBytesIn len = some (b.ensureWritableBytes len) := by
  unfold MessageBuffer.ensureWritableBytesIn ensureWritableBytes
  split
  · exact h.makeSpaceIn len
  · rfl

theorem Valid.fillIn (h : b.Valid) {data : List UInt8} (hd : data.length ≤ b.writableBytes) :
    b.fillIn data = some ((b.fill data).writeDone data.length) := by
  have hw := h.write_le
  unfold writableBytes at hd
  unfold MessageBuffer.fillIn store
  rw [if_pos (by omega)]
  rfl

theorem Valid.writeIn (h : b.Valid) (data : List UInt8) : b.writeIn data = some (b.write data) := by
  unfold MessageBuffer.writeIn
  rw [h.ensureWritableBytesIn, Option.bind_eq_bind, Option.bind_some]
  exact (ensureWritableBytes_valid h _).fillIn (le_writableBytes_ensureWritableBytes _)

theorem Valid.adjustment (h : b.Valid) {len : Nat} (hl : len ≤ b.readableBytes) :
    (b.adjustment len).Valid ∧ (b.adjustment len).readable = b.readable.drop len := by
  unfold MessageBuffer.adjustment
  split
  · exact ⟨readDone_valid h hl, readDone_readable b len⟩
  · next hge =>
    have hall : b.readable.length ≤ len := by
      rw [length_readable h]
      omega
    refine ⟨adjustmentAll_valid b, ?_⟩
    rw [List.drop_of_length_le hall]
    rfl

/-- Reading takes the first bytes that are unread, whatever is left behind. -/
theorem Valid.readPod (h : b.Valid) {size : Nat} (hs : size ≤ b.readableBytes) :
    b.readPod size = some (b.readable.take size, b.adjustment size) := by
  unfold MessageBuffer.readPod adjustmentIn
  rw [h.load_unread hs, Option.bind_eq_bind, Option.bind_some, if_pos hs]
  rfl

/-- `Shrink(n)` keeps the unread bytes and leaves room for `n` more. -/
theorem Valid.shrink (h : b.Valid) (reserve : Nat) : ∃ c, b.shrink reserve = some c ∧ c.Valid ∧
    c.readable = b.readable ∧ reserve ≤ c.writableBytes := by
  have hnew := ofSize_valid initialBufferSize
  have hspace := ensureWritableBytes_valid hnew (b.readableBytes + reserve)
  have hroom := le_writableBytes_ensureWritableBytes (b := ofSize initialBufferSize)
    (b.readableBytes + reserve)
  have hall : b.readable.take b.readableBytes = b.readable :=
    List.take_of_length_le (Nat.le_of_eq (length_readable h))
  generalize hother : (ofSize initialBufferSize).ensureWritableBytes (b.readableBytes + reserve) =
    other at hspace hroom
  have hempty : other.readable = [] := by
    rw [← hother, ensureWritableBytes_readable hnew, ofSize_readable]
  obtain ⟨hvalid, hread⟩ := write_spec hspace b.readable
  refine ⟨other.write b.readable, ?_, hvalid, ?_, ?_⟩
  · unfold MessageBuffer.shrink
    rw [hnew.ensureWritableBytesIn, hother, h.load_unread (Nat.le_refl _), hall]
    exact hspace.writeIn b.readable
  · rw [hread, hempty, List.nil_append]
  · have hfits : b.readable.length ≤ other.writableBytes := by
      rw [length_readable h]
      omega
    have hsame : other.ensureWritableBytes b.readable.length = other :=
      if_neg (Nat.not_lt.2 hfits)
    rw [write, hsame, writableBytes]
    simp only [writeDone, length_fill hspace hfits]
    unfold writableBytes at hroom
    rw [length_readable h]
    simp only [fill]
    omega

end MessageBuffer

/-! ## Buffers and their queues -/

/-- A buffer, and what was put into it and taken out of it so far. -/
structure TrackedBuffer where
  buffer : MessageBuffer
  written : List UInt8
  read : List UInt8

/-- The member functions that concern one buffer. -/
inductive BufferCall where
  | write (data : List UInt8)
  /-- Bytes stored at the write pointer from outside, and `WriteDone`. -/
  | fill (data : List UInt8)
  | readPod (size : Nat)
  | readData (len : Nat)
  | readAsString (len : Nat)
  | readAllAsString
  /-- Bytes taken at the read pointer from outside, and `ReadDone`. -/
  | readDone (len : Nat)
  | ensureWritableBytes (len : Nat)
  | ensureFreeSpace
  | shrink (reserve : Nat)
  deriving DecidableEq, Repr

namespace TrackedBuffer

/-- A call that puts these bytes in. -/
def wrote (x : TrackedBuffer) (data : List UInt8) (b : Option MessageBuffer) :
    Option TrackedBuffer :=
  b.map fun b => { x with buffer := b, written := x.written ++ data }

/-- A call that gives bytes out. -/
def gave (x : TrackedBuffer) (result : Option (List UInt8 × MessageBuffer)) :
    Option TrackedBuffer :=
  result.map fun r => { x with buffer := r.2, read := x.read ++ r.1 }

def exec (x : TrackedBuffer) : BufferCall → Option TrackedBuffer
  | .write data => x.wrote data (x.buffer.writeIn data)
  | .fill data => x.wrote data (x.buffer.fillIn data)
  | .readPod size => x.gave (x.buffer.readPod size)
  | .readData len => x.gave (x.buffer.readData len)
  | .readAsString len => x.gave (x.buffer.readAsStringIn len)
  | .readAllAsString => x.gave x.buffer.readAllAsStringIn
  | .readDone len => x.gave (x.buffer.readDoneIn len)
  | .ensureWritableBytes len => x.wrote [] (x.buffer.ensureWritableBytesIn len)
  | .ensureFreeSpace => x.wrote [] x.buffer.ensureFreeSpaceIn
  | .shrink reserve => x.wrote [] (x.buffer.shrink reserve)

end TrackedBuffer

namespace BufferCall

/-- Callers fill no more than is writable and read no more than is readable. -/
def Allowed (b : MessageBuffer) : BufferCall → Prop
  | fill data => data.length ≤ b.writableBytes
  | readPod len | readData len | readAsString len | readDone len => len ≤ b.readableBytes
  | _ => True

instance (b : MessageBuffer) : DecidablePred (Allowed b)
  | fill _ | readPod _ | readData _ | readAsString _ | readDone _ =>
    inferInstanceAs (Decidable (_ ≤ _))
  | write _ | readAllAsString | ensureWritableBytes _ | ensureFreeSpace | shrink _ =>
    inferInstanceAs (Decidable True)

/-- What the call does to the queue. -/
def onQueue (q : Fifo UInt8) : BufferCall → Fifo UInt8
  | write data | fill data => q.enqueue data
  | readPod len | readData len | readAsString len | readDone len => q.dequeue len
  | readAllAsString => q.dequeue q.pending.length
  | _ => q

end BufferCall

/-- The buffer stands for the queue. -/
structure Represents (x : TrackedBuffer) (q : Fifo UInt8) : Prop where
  valid : x.buffer.Valid
  readable : x.buffer.readable = q.pending
  written : x.written = q.written
  read : x.read = q.read

namespace Represents

variable {x : TrackedBuffer} {q : Fifo UInt8}

theorem wrote (h : Represents x q) {data : List UInt8} {b : Option MessageBuffer}
    {c : MessageBuffer} (hb : b = some c) (hvalid : c.Valid)
    (hread : c.readable = x.buffer.readable ++ data) :
    ∃ y, x.wrote data b = some y ∧ Represents y (q.enqueue data) := by
  subst hb
  refine ⟨_, rfl, hvalid, ?_, ?_, h.read⟩
  · rw [hread, h.readable]
    rfl
  · exact congrArg (· ++ data) h.written

/-- A call that only rearranges the storage. -/
theorem rearranged (h : Represents x q) {b : Option MessageBuffer} {c : MessageBuffer}
    (hb : b = some c) (hvalid : c.Valid) (hread : c.readable = x.buffer.readable) :
    ∃ y, x.wrote [] b = some y ∧ Represents y q := by
  subst hb
  refine ⟨_, rfl, hvalid, hread.trans h.readable, ?_, h.read⟩
  rw [List.append_nil]
  exact h.written

theorem gave (h : Represents x q) {len : Nat} {result : Option (List UInt8 × MessageBuffer)}
    {c : MessageBuffer} (hr : result = some (x.buffer.readable.take len, c)) (hvalid : c.Valid)
    (hread : c.readable = x.buffer.readable.drop len) :
    ∃ y, x.gave result = some y ∧ Represents y (q.dequeue len) := by
  subst hr
  refine ⟨_, rfl, hvalid, ?_, h.written, ?_⟩
  · rw [hread, h.readable]
    rfl
  · rw [h.readable, h.read]
    rfl

/-- Reading through `Adjustment`. -/
theorem gave_readPod (h : Represents x q) {len : Nat} (hl : len ≤ x.buffer.readableBytes)
    {result : Option (List UInt8 × MessageBuffer)} (hr : result = x.buffer.readPod len) :
    ∃ y, x.gave result = some y ∧ Represents y (q.dequeue len) := by
  obtain ⟨hvalid, hread⟩ := h.valid.adjustment hl
  exact h.gave (hr.trans (h.valid.readPod hl)) hvalid hread

/-- **Every call** of a member function stays inside the vector, passes its assertions and does
to the bytes what the queue does. -/
theorem exec (h : Represents x q) {call : BufferCall} (hcall : call.Allowed x.buffer) :
    ∃ y, x.exec call = some y ∧ Represents y (call.onQueue q) := by
  have hv := h.valid
  have hlen : x.buffer.readableBytes = q.pending.length := by
    rw [← MessageBuffer.length_readable hv, h.readable]
  cases call with
  | write data =>
    obtain ⟨hvalid, hread⟩ := MessageBuffer.write_spec hv data
    exact h.wrote (hv.writeIn data) hvalid hread
  | fill data =>
    obtain ⟨hvalid, hread⟩ := MessageBuffer.fill_writeDone hv data
    exact h.wrote (hv.fillIn hcall) hvalid hread
  | readPod size => exact h.gave_readPod hcall rfl
  | readData len =>
    have hl : len ≤ x.buffer.readableBytes := hcall
    apply h.gave_readPod hl
    rw [MessageBuffer.readData, if_pos hl, Nat.min_eq_left hl]
  | readAsString len => exact h.gave_readPod hcall (if_pos hcall)
  | readAllAsString =>
    rw [BufferCall.onQueue, ← hlen]
    exact h.gave_readPod (Nat.le_refl _) (if_pos (Nat.le_refl _))
  | readDone len =>
    apply h.gave _ (MessageBuffer.readDone_valid hv hcall) (MessageBuffer.readDone_readable _ len)
    rw [MessageBuffer.readDoneIn, hv.load_unread hcall]
    rfl
  | ensureWritableBytes len =>
    exact h.rearranged (hv.ensureWritableBytesIn len)
      (MessageBuffer.ensureWritableBytes_valid hv len)
      (MessageBuffer.ensureWritableBytes_readable hv len)
  | ensureFreeSpace =>
    exact h.rearranged (hv.makeSpaceIn _) (MessageBuffer.makeSpace_valid hv _)
      (MessageBuffer.makeSpace_readable hv _)
  | shrink reserve =>
    obtain ⟨c, hc, hvalid, hread, -⟩ := hv.shrink reserve
    exact h.rearranged hc hvalid hread

theorem ofSize (n : Nat) : Represents ⟨.ofSize n, [], []⟩ .empty :=
  ⟨MessageBuffer.ofSize_valid n, MessageBuffer.ofSize_readable n, rfl, rfl⟩

/-- The bytes read so far and the readable ones are the bytes written, in order. -/
theorem conserved (h : Represents x q) : x.written = x.read ++ x.buffer.readable := by
  rw [h.written, h.read, h.readable]
  exact q.conserved

end Represents

/-! ## Runs over any number of buffers -/

inductive BufferEvent where
  | construct (i initialSize : Nat)
  | call (i : Nat) (call : BufferCall)
  /-- Copy construction, and assignment from an lvalue. -/
  | copy (i j : Nat)
  /-- Move construction of `i` from `j`. -/
  | moveConstruct (i j : Nat)
  /-- `operator=(MessageBuffer &&)`, which swaps. -/
  | moveAssign (i j : Nat)
  | swap (i j : Nat)
  deriving DecidableEq, Repr

/-- The buffers by number. -/
abbrev Buffers : Type := Nat → TrackedBuffer

def constructed (sizes : Nat → Nat) : Buffers := fun i => ⟨.ofSize (sizes i), [], []⟩

def buffers (sizes : Nat → Nat) : Machine Buffers BufferEvent where
  init s := s = constructed sizes
  step s
    | .construct i initialSize => some (Function.update s i ⟨.ofSize initialSize, [], []⟩)
    | .call i call => ((s i).exec call).map (Function.update s i)
    | .copy i j => some (Function.update s i (s j))
    | .moveConstruct i j =>
      some (Function.update (Function.update s i (s j)) j ⟨.movedFrom, [], []⟩)
    | .moveAssign i j | .swap i j =>
      some (Function.update (Function.update s i (s j)) j (s i))

/-- A member function is called as `Allowed` says, and no object is constructed from itself. -/
def BufferEvent.Allowed (s : Buffers) : BufferEvent → Prop
  | .call i f => f.Allowed (s i).buffer
  | .moveConstruct i j => i ≠ j
  | _ => True

instance (s : Buffers) : DecidablePred (BufferEvent.Allowed s)
  | .call i f => inferInstanceAs (Decidable (f.Allowed (s i).buffer))
  | .moveConstruct i j => inferInstanceAs (Decidable (i ≠ j))
  | .construct _ _ | .copy _ _ | .moveAssign _ _ | .swap _ _ => inferInstanceAs (Decidable True)

/-- What the event does to the queues. -/
def BufferEvent.onQueues (q : Nat → Fifo UInt8) : BufferEvent → Nat → Fifo UInt8
  | .construct i _ => Function.update q i .empty
  | .call i f => Function.update q i (f.onQueue (q i))
  | .copy i j => Function.update q i (q j)
  | .moveConstruct i j => Function.update (Function.update q i (q j)) j .empty
  | .moveAssign i j | .swap i j => Function.update (Function.update q i (q j)) j (q i)

section Runs

variable {sizes : Nat → Nat} {s : Buffers} {q : Nat → Fifo UInt8}

theorem represents_update (h : ∀ i, Represents (s i) (q i)) {x : TrackedBuffer} {p : Fifo UInt8}
    (hx : Represents x p) (j i : Nat) :
    Represents (Function.update s j x i) (Function.update q j p i) := by
  simp only [Function.update_apply]
  split
  · exact hx
  · exact h i

theorem represents_step (h : ∀ i, Represents (s i) (q i)) {e : BufferEvent} (he : e.Allowed s) :
    ∃ t, (buffers sizes).step s e = some t ∧ ∀ i, Represents (t i) (e.onQueues q i) := by
  have hempty : Represents ⟨.movedFrom, [], []⟩ .empty :=
    ⟨⟨Nat.le_refl _, Nat.le_refl _⟩, rfl, rfl, rfl⟩
  cases e with
  | construct i n => exact ⟨_, rfl, represents_update h (.ofSize n) i⟩
  | call i call =>
    obtain ⟨y, hy, hrep⟩ := (h i).exec he
    refine ⟨Function.update s i y, ?_, represents_update h hrep i⟩
    simp only [buffers, hy, Option.map_some]
  | copy i j => exact ⟨_, rfl, represents_update h (h j) i⟩
  | moveConstruct i j =>
    exact ⟨_, rfl, represents_update (represents_update h (h j) i) hempty j⟩
  | moveAssign i j => exact ⟨_, rfl, represents_update (represents_update h (h j) i) (h i) j⟩
  | swap i j => exact ⟨_, rfl, represents_update (represents_update h (h j) i) (h i) j⟩

end Runs

/-- Both calls that promise room keep the readable bytes and give it. -/
structure GivesRoom (b : MessageBuffer) (n : Nat) : Prop where
  ensureWritableBytes : ∃ c, b.ensureWritableBytesIn n = some c ∧ c.readable = b.readable ∧
    n ≤ c.writableBytes
  shrink : ∃ c, b.shrink n = some c ∧ c.readable = b.readable ∧ n ≤ c.writableBytes

theorem MessageBuffer.Valid.givesRoom {b : MessageBuffer} (h : b.Valid) (n : Nat) :
    GivesRoom b n where
  ensureWritableBytes := ⟨_, h.ensureWritableBytesIn n, ensureWritableBytes_readable h n,
    le_writableBytes_ensureWritableBytes n⟩
  shrink := by
    obtain ⟨c, hc, -, hread, hroom⟩ := h.shrink n
    exact ⟨c, hc, hread, hroom⟩

/-- **Refinement.** Every run that is used as callers may is executed to its end, with every
access inside its vector; each buffer then stands for the queue that the same run of queues ends
with, and both calls that promise room give it. -/
theorem buffers_refine (sizes : Nat → Nat) (events : List BufferEvent)
    (h : (buffers sizes).Permits (fun s e => e.Allowed s) (constructed sizes) events) :
    ∃ t, (buffers sizes).run (constructed sizes) events = some t ∧
      ∀ i, Represents (t i) (events.foldl BufferEvent.onQueues (fun _ => .empty) i) ∧
        (t i).written = (t i).read ++ (t i).buffer.readable ∧
        ∀ n, GivesRoom (t i).buffer n := by
  obtain ⟨t, ht, hrep⟩ := Machine.exists_run_of_simulates
    (R := fun (s : Buffers) (q : Nat → Fifo UInt8) => ∀ i, Represents (s i) (q i))
    (fun s q e hs he => represents_step hs he) (fun i => .ofSize (sizes i)) h
  refine ⟨t, ht, ?_⟩
  intro i
  exact ⟨hrep i, (hrep i).conserved, fun n => (hrep i).valid.givesRoom n⟩

/-- A buffer without storage is written, grown in place, read and moved. -/
theorem buffers_refine_example :
    let events : List BufferEvent := [.call 0 (.write [1, 2, 3]), .call 0 (.readData 2),
      .call 0 .ensureFreeSpace, .call 0 (.fill [4]), .moveConstruct 1 0, .call 1 (.shrink 8)]
    ∃ t, (buffers fun _ => 0).run (constructed fun _ => 0) events = some t ∧
      ∀ i, Represents (t i) (events.foldl BufferEvent.onQueues (fun _ => .empty) i) ∧
        (t i).written = (t i).read ++ (t i).buffer.readable ∧
        ∀ n, GivesRoom (t i).buffer n := by
  exact buffers_refine (fun _ => 0) _ (by decide +kernel)

end GameServer.Net
