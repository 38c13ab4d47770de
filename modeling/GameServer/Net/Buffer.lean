import GameServer.Lib.Positions
import Mathlib.Data.List.Basic

/-!
# `net::MessageBuffer`

A vector of bytes with a read and a write index: the bytes between the indices are waiting to
be read, the bytes from the write index to the end of the vector are free. Sizes are natural
numbers, so the statements are about sizes below the point where an allocation fails; only the
difference of the indices wraps as `size_t` does (`readableBytes_eq_sizeSub`).

* `Valid` is the invariant `readIndex ≤ writeIndex ≤ size` and `readable` the abstract content.
* Each operation comes with its effect on `Valid`, on `readable` and, where it allocates, on the
  size of the vector.
-/

namespace GameServer.Net

open GameServer.Lib

structure MessageBuffer where
  readIndex : Nat
  writeIndex : Nat
  buffer : List UInt8
  deriving DecidableEq, Repr

namespace MessageBuffer

/-- `INITIAL_BUFFER_SIZE`, the size of a default constructed buffer. -/
def initialBufferSize : Nat := 1024

/-- The constructor: a zeroed vector, both indices at its start. -/
def ofSize (initialSize : Nat) : MessageBuffer :=
  ⟨0, 0, List.replicate initialSize 0⟩

/-- `ReadableBytes`: a read index behind the write index wraps. -/
def readableBytes (b : MessageBuffer) : Nat :=
  if b.readIndex ≤ b.writeIndex then b.writeIndex - b.readIndex
  else b.writeIndex + 0x10000000000000000 - b.readIndex

def writableBytes (b : MessageBuffer) : Nat := b.buffer.length - b.writeIndex

def readDone (b : MessageBuffer) (len : Nat) : MessageBuffer :=
  { b with readIndex := b.readIndex + len }

def writeDone (b : MessageBuffer) (len : Nat) : MessageBuffer :=
  { b with writeIndex := b.writeIndex + len }

/-- The bytes from the read pointer up to the write pointer; there are none where the read pointer
is behind it. -/
def readable (b : MessageBuffer) : List UInt8 := (b.buffer.take b.writeIndex).drop b.readIndex

/-- `std::vector::resize` of the storage, zeros at the end. -/
def resize (v : List UInt8) (n : Nat) : List UInt8 :=
  v.take n ++ List.replicate (n - v.length) 0

def makeSpace (b : MessageBuffer) (len : Nat) : MessageBuffer :=
  if b.writableBytes < len then
    { b with buffer := resize b.buffer (b.writeIndex + len) }
  else
    -- the free prefix is reclaimed: the unread bytes move to the front
    { readIndex := 0
      writeIndex := b.readableBytes
      buffer := b.readable ++ b.buffer.drop b.readableBytes }

def ensureWritableBytes (b : MessageBuffer) (len : Nat) : MessageBuffer :=
  if b.writableBytes < len then b.makeSpace len else b

def ensureFreeSpace (b : MessageBuffer) : MessageBuffer :=
  b.makeSpace (b.buffer.length * 3 / 2)

/-- Bytes stored at the write pointer, by `std::copy` or by the socket. -/
def fill (b : MessageBuffer) (data : List UInt8) : MessageBuffer :=
  { b with
    buffer := b.buffer.take b.writeIndex ++ data ++ b.buffer.drop (b.writeIndex + data.length) }

/-- `Write(const uint8_t *data, size_t len)`. -/
def write (b : MessageBuffer) (data : List UInt8) : MessageBuffer :=
  ((b.ensureWritableBytes data.length).fill data).writeDone data.length

def adjustmentAll (b : MessageBuffer) : MessageBuffer :=
  { b with readIndex := 0, writeIndex := 0 }

def adjustment (b : MessageBuffer) (len : Nat) : MessageBuffer :=
  if len < b.readableBytes then b.readDone len else b.adjustmentAll

def readAsString (b : MessageBuffer) (len : Nat) : List UInt8 × MessageBuffer :=
  ((b.buffer.drop b.readIndex).take len, b.adjustment len)

def readAllAsString (b : MessageBuffer) : List UInt8 × MessageBuffer :=
  b.readAsString b.readableBytes

/-! ## The invariant and the content -/

/-- The indices are in order and inside the vector. -/
structure Valid (b : MessageBuffer) : Prop where
  read_le : b.readIndex ≤ b.writeIndex
  write_le : b.writeIndex ≤ b.buffer.length

theorem readableBytes_eq_sizeSub {b : MessageBuffer} (hr : b.readIndex < 0x10000000000000000)
    (hw : b.writeIndex < 0x10000000000000000) :
    b.readableBytes = sizeSub b.writeIndex b.readIndex := by
  unfold readableBytes sizeSub
  split <;> omega

theorem readableBytes_of_le {b : MessageBuffer} (h : b.readIndex ≤ b.writeIndex) :
    b.readableBytes = b.writeIndex - b.readIndex := if_pos h

theorem Valid.readableBytes_eq {b : MessageBuffer} (h : b.Valid) :
    b.readableBytes = b.writeIndex - b.readIndex := readableBytes_of_le h.read_le

theorem length_readable {b : MessageBuffer} (h : b.Valid) :
    b.readable.length = b.readableBytes := by
  have := h.write_le
  rw [h.readableBytes_eq]
  simp only [readable, List.length_drop, List.length_take]
  omega

theorem ofSize_valid (n : Nat) : (ofSize n).Valid := ⟨Nat.le_refl _, Nat.zero_le _⟩

@[simp] theorem ofSize_readable (n : Nat) : (ofSize n).readable = [] := by
  simp [ofSize, readable]

@[simp] theorem length_ofSize (n : Nat) : (ofSize n).buffer.length = n := by
  simp [ofSize]

theorem resize_of_le {v : List UInt8} {n : Nat} (h : v.length ≤ n) :
    resize v n = v ++ List.replicate (n - v.length) 0 := by
  rw [resize, List.take_of_length_le h]

@[simp] theorem length_resize (v : List UInt8) (n : Nat) : (resize v n).length = n := by
  simp only [resize, List.length_append, List.length_take, List.length_replicate]
  omega

theorem makeSpace_grow {b : MessageBuffer} {len : Nat} (h : b.writableBytes < len) :
    b.makeSpace len = { b with buffer := resize b.buffer (b.writeIndex + len) } := if_pos h

theorem makeSpace_compact {b : MessageBuffer} {len : Nat} (h : len ≤ b.writableBytes) :
    b.makeSpace len = ⟨0, b.readableBytes, b.readable ++ b.buffer.drop b.readableBytes⟩ :=
  if_neg (Nat.not_lt.2 h)

theorem makeSpace_valid {b : MessageBuffer} (h : b.Valid) (len : Nat) :
    (b.makeSpace len).Valid := by
  have hr := h.read_le
  rcases Nat.lt_or_ge b.writableBytes len with hlt | hge
  · rw [makeSpace_grow hlt]
    exact ⟨hr, by simp only [length_resize]; omega⟩
  · rw [makeSpace_compact hge]
    refine ⟨Nat.zero_le _, ?_⟩
    simp only [List.length_append, length_readable h]
    omega

/-- Making space keeps the unread bytes, whichever branch runs. -/
theorem makeSpace_readable {b : MessageBuffer} (h : b.Valid) (len : Nat) :
    (b.makeSpace len).readable = b.readable := by
  have hw := h.write_le
  rcases Nat.lt_or_ge b.writableBytes len with hlt | hge
  · have hlen : b.buffer.length ≤ b.writeIndex + len := by
      unfold writableBytes at hlt
      omega
    rw [makeSpace_grow hlt, readable, readable, resize_of_le hlen,
      List.take_append_of_le_length hw]
  · rw [makeSpace_compact hge]
    have hl : b.readableBytes = b.readable.length := (length_readable h).symm
    simp only [readable] at hl ⊢
    rw [List.drop_zero, hl, List.take_left]

theorem length_makeSpace {b : MessageBuffer} (h : b.Valid) (len : Nat) :
    (b.makeSpace len).buffer.length =
      if b.writableBytes < len then b.writeIndex + len else b.buffer.length := by
  have hr := h.read_le
  have hw := h.write_le
  rcases Nat.lt_or_ge b.writableBytes len with hlt | hge
  · rw [makeSpace_grow hlt, if_pos hlt, length_resize]
  · rw [makeSpace_compact hge, if_neg (Nat.not_lt.2 hge), List.length_append, length_readable h,
      List.length_drop, h.readableBytes_eq]
    omega

theorem ensureWritableBytes_valid {b : MessageBuffer} (h : b.Valid) (len : Nat) :
    (b.ensureWritableBytes len).Valid := by
  unfold ensureWritableBytes
  split
  · exact makeSpace_valid h len
  · exact h

theorem ensureWritableBytes_readable {b : MessageBuffer} (h : b.Valid) (len : Nat) :
    (b.ensureWritableBytes len).readable = b.readable := by
  unfold ensureWritableBytes
  split
  · exact makeSpace_readable h len
  · rfl

/-- After `EnsureWritableBytes(len)` there is room for `len` bytes. -/
theorem le_writableBytes_ensureWritableBytes {b : MessageBuffer} (len : Nat) :
    len ≤ (b.ensureWritableBytes len).writableBytes := by
  unfold ensureWritableBytes
  split
  · next hlt =>
    rw [makeSpace_grow hlt]
    simp only [writableBytes, length_resize]
    omega
  · next hge => exact Nat.not_lt.1 hge

/-- Bytes stored at the write pointer and acknowledged come after the unread ones. -/
theorem fill_writeDone {b : MessageBuffer} (h : b.Valid) (data : List UInt8) :
    ((b.fill data).writeDone data.length).Valid ∧
      ((b.fill data).writeDone data.length).readable = b.readable ++ data := by
  have hr := h.read_le
  have hw := h.write_le
  have hlen : (b.buffer.take b.writeIndex).length = b.writeIndex := by
    rw [List.length_take]; omega
  have htake : (b.buffer.take b.writeIndex ++ data ++
      b.buffer.drop (b.writeIndex + data.length)).take (b.writeIndex + data.length) =
        b.buffer.take b.writeIndex ++ data := by
    rw [List.take_append_of_le_length (by simp only [List.length_append, hlen, Nat.le_refl])]
    exact List.take_of_length_le (by simp only [List.length_append, hlen, Nat.le_refl])
  constructor
  · refine ⟨by simp only [fill, writeDone]; omega, ?_⟩
    simp only [fill, writeDone, List.length_append, hlen]
    omega
  · simp only [readable, fill, writeDone]
    rw [htake, List.drop_append_of_le_length (by rw [hlen]; exact hr)]

theorem length_fill {b : MessageBuffer} (h : b.Valid) {data : List UInt8}
    (hd : data.length ≤ b.writableBytes) : (b.fill data).buffer.length = b.buffer.length := by
  have hw := h.write_le
  unfold writableBytes at hd
  simp only [fill, List.length_append, List.length_take, List.length_drop]
  omega

theorem write_spec {b : MessageBuffer} (h : b.Valid) (data : List UInt8) :
    (b.write data).Valid ∧ (b.write data).readable = b.readable ++ data := by
  have hf := fill_writeDone (ensureWritableBytes_valid h data.length) data
  rw [ensureWritableBytes_readable h] at hf
  exact hf

theorem readDone_valid {b : MessageBuffer} (h : b.Valid) {len : Nat} (hl : len ≤ b.readableBytes) :
    (b.readDone len).Valid := by
  have hr := h.read_le
  rw [h.readableBytes_eq] at hl
  exact ⟨by simp only [readDone]; omega, h.write_le⟩

theorem Valid.readableBytes_readDone {b : MessageBuffer} (h : b.Valid) {len : Nat}
    (hl : len ≤ b.readableBytes) : (b.readDone len).readableBytes = b.readableBytes - len := by
  have hdone := readDone_valid h hl
  rw [hdone.readableBytes_eq, h.readableBytes_eq]
  exact Nat.sub_add_eq ..

theorem readDone_readable (b : MessageBuffer) (len : Nat) :
    (b.readDone len).readable = b.readable.drop len := by
  simp only [readable, readDone, List.drop_drop]

/-- Reading everything returns the content and leaves both indices at the start. -/
theorem readAllAsString_snd (b : MessageBuffer) : b.readAllAsString.2 = b.adjustmentAll :=
  if_neg (Nat.lt_irrefl _)

theorem readAllAsString_eq {b : MessageBuffer} (h : b.Valid) :
    b.readAllAsString = (b.readable, b.adjustmentAll) := by
  refine Prod.ext ?_ b.readAllAsString_snd
  rw [readAllAsString, readAsString, readable, List.drop_take, h.readableBytes_eq]

theorem adjustmentAll_valid (b : MessageBuffer) : b.adjustmentAll.Valid :=
  ⟨Nat.le_refl _, Nat.zero_le _⟩

end MessageBuffer

end GameServer.Net
