import GameServer.Net.BufferRefinement

/-!
# When a `MessageBuffer` keeps its storage

`EnsureWritableBytes` calls `MakeSpace` only where the room behind the write index is too small,
and `MakeSpace` asks the same question again: its branch that moves the unread bytes to the front
is not reached from there. The free prefix is so never used for a write, and only a read that
drains the buffer gives its space back (`capacity_kept_iff`).
-/

namespace GameServer.Net

open GameServer.Lib

namespace MessageBuffer

/-- Room for `len` more bytes, and so a `Write` of them, is made without a new storage. -/
structure KeepsSize (b : MessageBuffer) (len : Nat) : Prop where
  ensureWritableBytes : ∃ c, b.ensureWritableBytesIn len = some c ∧
    c.buffer.length = b.buffer.length
  write : ∀ data : List UInt8, data.length = len → ∃ c, b.writeIn data = some c ∧
    c.buffer.length = b.buffer.length

variable {b : MessageBuffer}

theorem ensureWritableBytes_of_le {len : Nat} (h : len ≤ b.writableBytes) :
    b.ensureWritableBytes len = b := if_neg (Nat.not_lt.2 h)

/-- Where the room behind the write index is too small the storage grows, whatever was read. -/
theorem Valid.lt_length_ensureWritableBytes (h : b.Valid) {len : Nat}
    (hlen : b.writableBytes < len) :
    b.buffer.length < (b.ensureWritableBytes len).buffer.length := by
  have hw := h.write_le
  unfold ensureWritableBytes
  rw [if_pos hlen, length_makeSpace h, if_pos hlen]
  unfold writableBytes at hlen
  omega

theorem Valid.length_write (h : b.Valid) (data : List UInt8) :
    (b.write data).buffer.length = (b.ensureWritableBytes data.length).buffer.length := by
  have hroom := le_writableBytes_ensureWritableBytes (b := b) data.length
  simp only [write, writeDone]
  exact length_fill (ensureWritableBytes_valid h _) hroom

/-- A write keeps the storage exactly if it fits behind the write index. -/
theorem Valid.length_write_eq_iff (h : b.Valid) (data : List UInt8) :
    (b.write data).buffer.length = b.buffer.length ↔ data.length ≤ b.writableBytes := by
  rw [h.length_write]
  constructor
  · intro heq
    by_contra hlt
    have := h.lt_length_ensureWritableBytes (Nat.not_le.1 hlt)
    omega
  · intro hle
    rw [ensureWritableBytes_of_le hle]

theorem Valid.keepsSize_iff (h : b.Valid) (len : Nat) :
    b.KeepsSize len ↔ len ≤ b.writableBytes := by
  constructor
  · intro hkeeps
    obtain ⟨c, hc, hlen⟩ := hkeeps.ensureWritableBytes
    rw [h.ensureWritableBytesIn, Option.some.injEq] at hc
    subst hc
    by_contra hlt
    have := h.lt_length_ensureWritableBytes (Nat.not_le.1 hlt)
    omega
  · intro hle
    refine ⟨⟨b, ?_, rfl⟩, ?_⟩
    · rw [h.ensureWritableBytesIn, ensureWritableBytes_of_le hle]
    · rintro data rfl
      exact ⟨_, h.writeIn data, (h.length_write_eq_iff data).2 hle⟩

@[simp] theorem adjustment_buffer (b : MessageBuffer) (len : Nat) :
    (b.adjustment len).buffer = b.buffer := by
  unfold adjustment
  split <;> rfl

end MessageBuffer

/-! ## Runs of writes and reads -/

/-- A write whose bytes fit beside the unread ones into a vector of `size` bytes, or a read of
bytes that are there. -/
def BufferCall.Transfers (size : Nat) (b : MessageBuffer) : BufferCall → Prop
  | write data => b.readableBytes + data.length ≤ size
  | readPod len | readData len | readAsString len | readDone len => len ≤ b.readableBytes
  | readAllAsString => True
  | fill _ | ensureWritableBytes _ | ensureFreeSpace | shrink _ => False

instance (size : Nat) (b : MessageBuffer) : DecidablePred (BufferCall.Transfers size b)
  | .write _ | .readPod _ | .readData _ | .readAsString _ | .readDone _ =>
    inferInstanceAs (Decidable (_ ≤ _))
  | .readAllAsString => inferInstanceAs (Decidable True)
  | .fill _ | .ensureWritableBytes _ | .ensureFreeSpace | .shrink _ =>
    inferInstanceAs (Decidable False)

/-- One buffer that is written and read, never with more than `size` bytes to hold. -/
def transfers (size : Nat) : Machine TrackedBuffer BufferCall where
  init x := x = ⟨.ofSize size, [], []⟩
  step x call := if call.Transfers size x.buffer then x.exec call else none

/-- The guard: what is written fits behind the write index. -/
def FitsBehind (x : TrackedBuffer) : BufferCall → Prop
  | .write data => data.length ≤ x.buffer.writableBytes
  | _ => True

section Steps

variable {size : Nat} {x y : TrackedBuffer} {call : BufferCall}

theorem transfers_step (hy : (transfers size).step x call = some y) :
    call.Transfers size x.buffer ∧ x.exec call = some y := by
  simp only [transfers] at hy
  split at hy
  · next hcall => exact ⟨hcall, hy⟩
  · cases hy

/-- `Adjustment` is all that a read does to the buffer. -/
theorem readPod_eq_some {b c : MessageBuffer} {len : Nat} {bytes : List UInt8}
    (h : b.readPod len = some (bytes, c)) : c.buffer = b.buffer := by
  unfold MessageBuffer.readPod MessageBuffer.adjustmentIn at h
  obtain ⟨result, -, h⟩ := Option.bind_eq_some_iff.1 h
  obtain ⟨d, hd, h⟩ := Option.bind_eq_some_iff.1 h
  cases h
  split at hd
  · cases hd
    exact MessageBuffer.adjustment_buffer b len
  · cases hd

theorem gave_eq_some {result : Option (List UInt8 × MessageBuffer)} (hy : x.gave result = some y)
    (hresult : ∀ bytes b, result = some (bytes, b) → b.buffer = x.buffer.buffer) :
    y.buffer.buffer.length = x.buffer.buffer.length := by
  unfold TrackedBuffer.gave at hy
  obtain ⟨⟨bytes, b⟩, hr, rfl⟩ := Option.map_eq_some_iff.1 hy
  exact congrArg List.length (hresult bytes b hr)

/-- What one step does to the size of the vector: only a write that does not fit changes it. -/
theorem transfers_length (hx : x.buffer.Valid) (hy : (transfers size).step x call = some y) :
    y.buffer.buffer.length = x.buffer.buffer.length ↔ FitsBehind x call := by
  obtain ⟨hcall, hexec⟩ := transfers_step hy
  cases call with
  | write data =>
    simp only [TrackedBuffer.exec, TrackedBuffer.wrote, hx.writeIn, Option.map_some,
      Option.some.injEq] at hexec
    subst hexec
    exact hx.length_write_eq_iff data
  | readPod len =>
    refine iff_of_true (gave_eq_some hexec ?_) trivial
    intro bytes b hb
    exact readPod_eq_some hb
  | readData len =>
    refine iff_of_true (gave_eq_some hexec ?_) trivial
    intro bytes b hb
    have hlen : len ≤ x.buffer.readableBytes := hcall
    rw [MessageBuffer.readData, if_pos hlen] at hb
    exact readPod_eq_some hb
  | readAsString len =>
    refine iff_of_true (gave_eq_some hexec ?_) trivial
    intro bytes b hb
    have hlen : len ≤ x.buffer.readableBytes := hcall
    rw [MessageBuffer.readAsStringIn, if_pos hlen] at hb
    exact readPod_eq_some hb
  | readAllAsString =>
    refine iff_of_true (gave_eq_some hexec ?_) trivial
    intro bytes b hb
    rw [MessageBuffer.readAllAsStringIn, MessageBuffer.readAsStringIn, if_pos (Nat.le_refl _)] at hb
    exact readPod_eq_some hb
  | readDone len =>
    refine iff_of_true (gave_eq_some hexec ?_) trivial
    intro bytes b hb
    obtain ⟨result, -, hb⟩ := Option.bind_eq_some_iff.1 hb
    cases hb
    rfl
  | fill data | ensureWritableBytes len | ensureFreeSpace | shrink reserve => exact hcall.elim

theorem transfers_represents {q : Fifo UInt8} (hx : Represents x q)
    (hy : (transfers size).step x call = some y) : Represents y (call.onQueue q) := by
  obtain ⟨hcall, hexec⟩ := transfers_step hy
  have hallowed : call.Allowed x.buffer := by
    cases call with
    | write data | readAllAsString => trivial
    | readPod len | readData len | readAsString len | readDone len => exact hcall
    | fill data | ensureWritableBytes len | ensureFreeSpace | shrink reserve => exact hcall.elim
  obtain ⟨z, hz, hrep⟩ := hx.exec hallowed
  rw [hexec, Option.some.injEq] at hz
  exact hz ▸ hrep

end Steps

/-- Every buffer of a run that is used as callers may stands for a queue. -/
theorem represents_of_reach {sizes : Nat → Nat} {s : Buffers}
    (hs : (buffers sizes).ReachVia (fun s e => e.Allowed s) s) :
    ∃ q : Nat → Fifo UInt8, ∀ i, Represents (s i) (q i) := by
  refine hs.invariant (I := fun s => ∃ q : Nat → Fifo UInt8, ∀ i, Represents (s i) (q i)) ?_ ?_
  · rintro s rfl
    exact ⟨fun _ => .empty, fun i => .ofSize (sizes i)⟩
  · rintro s e t ⟨q, hq⟩ he ht
    obtain ⟨u, hu, hrep⟩ := represents_step hq he
    rw [ht, Option.some.injEq] at hu
    exact ⟨e.onQueues q, hu ▸ hrep⟩

/-- **Storage is kept**, by one call on any buffer and along any run of writes and reads that
never has more to hold than the vector has bytes, exactly where what is written fits behind the
write index. -/
theorem capacity_kept_iff {sizes : Nat → Nat} {s : Buffers}
    (hs : (buffers sizes).ReachVia (fun s e => e.Allowed s) s) (i : Nat) :
    (∀ len, (s i).buffer.readableBytes + len ≤ (s i).buffer.buffer.length →
      ((s i).buffer.KeepsSize len ↔ len ≤ (s i).buffer.writableBytes)) ∧
    ∀ calls, (transfers (s i).buffer.buffer.length).Along
        (fun x => x.buffer.buffer.length = (s i).buffer.buffer.length) (s i) calls ↔
      (transfers (s i).buffer.buffer.length).Meets FitsBehind (s i) calls := by
  obtain ⟨q, hq⟩ := represents_of_reach hs
  refine ⟨fun len _ => (hq i).valid.keepsSize_iff len, ?_⟩
  intro calls
  generalize hsize : (s i).buffer.buffer.length = size
  refine Machine.along_iff_meets
    (I := fun x => (∃ p, Represents x p) ∧ x.buffer.buffer.length = size) (fun x h => h.2) ?_ ?_
    ⟨⟨q i, hq i⟩, hsize⟩
  · rintro x call y ⟨⟨p, hp⟩, hx⟩ hc hy
    exact ⟨⟨_, transfers_represents hp hy⟩, ((transfers_length hp.valid hy).2 hc).trans hx⟩
  · rintro x call y ⟨⟨p, hp⟩, hx⟩ hc hy hlen
    exact hc ((transfers_length hp.valid hy).1 (hlen.trans hx.symm))

/-- The buffers of two bytes as they are constructed. -/
theorem capacity_kept_iff_constructed :
    (transfers 2).Along (fun x => x.buffer.buffer.length = 2) ⟨.ofSize 2, [], []⟩
        [.write [1, 2], .readAllAsString, .write [3, 4]] ↔
      (transfers 2).Meets FitsBehind ⟨.ofSize 2, [], []⟩
        [.write [1, 2], .readAllAsString, .write [3, 4]] := by
  have hreach : (buffers fun _ => 2).ReachVia (fun s e => e.Allowed s) (constructed fun _ => 2) :=
    .init rfl
  exact (capacity_kept_iff hreach 0).2 _

/-- Two bytes written and one of them read: the third byte would fit beside the unread one. -/
theorem consumed_space_not_reclaimed : ¬∀ (size : Nat) (calls : List BufferCall),
    (transfers size).Along (fun x => x.buffer.buffer.length = size) ⟨.ofSize size, [], []⟩
      calls := by
  intro h
  have hrun := h 2 [.write [1, 2], .readAsString 1, .write [3]]
  have hlen : 3 = 2 := ((hrun.2 _ rfl).2 _ rfl).2 _ rfl
  omega

end GameServer.Net
