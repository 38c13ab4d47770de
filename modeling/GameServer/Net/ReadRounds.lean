import Mathlib.Logic.Function.Iterate
import GameServer.Lib.Machine
import GameServer.Net.Buffer

/-!
# Read rounds of a session

`ISession::AsyncRead` asks for free space, lets the socket fill part of it, acknowledges the
bytes and runs the handler; the handlers of this repository consume everything readable. Over
any run of such rounds the size of the read buffer is a function of the number of rounds alone
(`length_after_rounds`): every `EnsureFreeSpace` multiplies it by 3/2, also when the buffer was
drained before. `readBuffer_bounded_iff` draws the consequence.
-/

namespace GameServer.Net

open GameServer.Lib

/-- The read buffer once the socket delivered `data` and `WriteDone` acknowledged it. -/
def received (b : MessageBuffer) (data : List UInt8) : MessageBuffer :=
  (b.ensureFreeSpace.fill data).writeDone data.length

/-- A handler that returns on an empty buffer and otherwise reads everything. -/
def consumeAll (b : MessageBuffer) : MessageBuffer :=
  if b.readableBytes ≤ 0 then b else b.readAllAsString.2

/-- The rounds of a session whose buffer starts with `n` bytes. The socket delivers at most the
writable region it was given. -/
def readRounds (n : Nat) : Machine MessageBuffer (List UInt8) where
  init b := b = MessageBuffer.ofSize n
  step b data :=
    if data.length ≤ b.ensureFreeSpace.writableBytes then some (consumeAll (received b data))
    else none

/-- The largest number of unread bytes a run sees before a handler consumes them. -/
def backlog (b : MessageBuffer) : List (List UInt8) → Nat
  | [] => 0
  | data :: rest =>
    max (received b data).readableBytes (backlog (consumeAll (received b data)) rest)

/-- The vector stays below a bound fixed by the initial size and the largest backlog. -/
def ReadBufferBounded (n : Nat) : Prop :=
  ∃ bound : Nat → Nat, ∀ rounds b, (readRounds n).run (MessageBuffer.ofSize n) rounds = some b →
    b.buffer.length ≤ bound (backlog (MessageBuffer.ofSize n) rounds)

/-! ## One round -/

/-- Everything was read and the indices are back at the start. -/
structure Drained (b : MessageBuffer) : Prop where
  read_eq : b.readIndex = 0
  write_eq : b.writeIndex = 0

namespace Drained

variable {b : MessageBuffer}

theorem ofSize (n : Nat) : Drained (MessageBuffer.ofSize n) := ⟨rfl, rfl⟩

theorem valid (h : Drained b) : b.Valid :=
  ⟨by rw [h.read_eq]; exact Nat.zero_le _, by rw [h.write_eq]; exact Nat.zero_le _⟩

theorem readable (h : Drained b) : b.readable = [] := by
  simp [MessageBuffer.readable, h.write_eq]

theorem writableBytes (h : Drained b) : b.writableBytes = b.buffer.length := by
  simp [MessageBuffer.writableBytes, h.write_eq]

theorem ensureFreeSpace (h : Drained b) : Drained b.ensureFreeSpace := by
  unfold MessageBuffer.ensureFreeSpace MessageBuffer.makeSpace
  split
  · exact ⟨h.read_eq, h.write_eq⟩
  · exact ⟨rfl, by simp [MessageBuffer.readableBytes, h.read_eq, h.write_eq]⟩

/-- Free space of a drained buffer: half as much again, whether or not there was enough. -/
theorem length_ensureFreeSpace (h : Drained b) :
    b.ensureFreeSpace.buffer.length = b.buffer.length * 3 / 2 := by
  unfold MessageBuffer.ensureFreeSpace
  rw [MessageBuffer.length_makeSpace h.valid, h.writableBytes, h.write_eq]
  split <;> omega

/-- The unread bytes after a completion are the bytes it delivered. -/
theorem received_readable (h : Drained b) (data : List UInt8) :
    (received b data).readable = data := by
  unfold received
  rw [(MessageBuffer.fill_writeDone h.ensureFreeSpace.valid data).2, h.ensureFreeSpace.readable,
    List.nil_append]

theorem received_valid (h : Drained b) (data : List UInt8) : (received b data).Valid :=
  (MessageBuffer.fill_writeDone h.ensureFreeSpace.valid data).1

theorem received_readableBytes (h : Drained b) (data : List UInt8) :
    (received b data).readableBytes = data.length := by
  rw [← MessageBuffer.length_readable (h.received_valid data), h.received_readable data]

theorem received_length (h : Drained b) {data : List UInt8}
    (hd : data.length ≤ b.ensureFreeSpace.writableBytes) :
    (received b data).buffer.length = b.buffer.length * 3 / 2 := by
  rw [← h.length_ensureFreeSpace]
  exact MessageBuffer.length_fill h.ensureFreeSpace.valid hd

theorem consumeAll_received (h : Drained b) (data : List UInt8) :
    Drained (consumeAll (received b data)) := by
  unfold consumeAll
  split
  · next hz =>
    rw [h.received_readableBytes] at hz
    have hf := h.ensureFreeSpace
    have hw : b.ensureFreeSpace.writeIndex + data.length = 0 := by rw [hf.write_eq]; omega
    exact ⟨hf.read_eq, hw⟩
  · rw [MessageBuffer.readAllAsString_snd]
    exact ⟨rfl, rfl⟩

theorem length_consumeAll (b : MessageBuffer) :
    (consumeAll b).buffer.length = b.buffer.length := by
  unfold consumeAll
  split
  · rfl
  · rw [MessageBuffer.readAllAsString_snd]
    rfl

end Drained

/-! ## Whole runs -/

/-- **The size after any run**, from any drained buffer, depends on the number of rounds only. -/
theorem length_after_rounds {n : Nat} : ∀ {rounds : List (List UInt8)} {b c : MessageBuffer},
    Drained b → (readRounds n).run b rounds = some c →
      c.buffer.length = (fun s => s * 3 / 2)^[rounds.length] b.buffer.length
  | [], b, c, _, h => by
    simp only [Machine.run_nil, Option.some.injEq] at h
    rw [← h]
    rfl
  | data :: rounds, b, c, hb, h => by
    rw [Machine.run_cons] at h
    obtain ⟨b', hstep, hrun⟩ := Option.bind_eq_some_iff.1 h
    simp only [readRounds, Option.ite_none_right_eq_some, Option.some.injEq] at hstep
    obtain ⟨hd, rfl⟩ := hstep
    rw [length_after_rounds (hb.consumeAll_received data) hrun, Drained.length_consumeAll,
      hb.received_length hd, List.length_cons, Function.iterate_succ_apply]

theorem le_iterate_threeHalves {n : Nat} (hn : 2 ≤ n) (m : Nat) :
    n + m ≤ (fun s => s * 3 / 2)^[m] n := by
  induction m with
  | zero => simp
  | succ m ih =>
    rw [Function.iterate_succ_apply']
    omega

theorem iterate_threeHalves_of_le_one {n : Nat} (hn : n ≤ 1) (m : Nat) :
    (fun s => s * 3 / 2)^[m] n = n := by
  apply Function.iterate_fixed
  show n * 3 / 2 = n
  omega

/-- Rounds of one byte each are always possible on a buffer of two bytes or more. -/
theorem exists_oneByteRounds {n : Nat} : ∀ (m : Nat) {b : MessageBuffer}, Drained b →
    2 ≤ b.buffer.length → ∃ c, (readRounds n).run b (List.replicate m [0]) = some c
  | 0, b, _, _ => ⟨b, rfl⟩
  | m + 1, b, hb, hlen => by
    have hroom : [(0 : UInt8)].length ≤ b.ensureFreeSpace.writableBytes := by
      rw [hb.ensureFreeSpace.writableBytes, hb.length_ensureFreeSpace, List.length_singleton]
      omega
    obtain ⟨c, hc⟩ := exists_oneByteRounds (n := n) m (hb.consumeAll_received [0])
      (by rw [Drained.length_consumeAll, hb.received_length hroom]; omega)
    refine ⟨c, ?_⟩
    rw [List.replicate_succ, Machine.run_cons]
    simp only [readRounds, if_pos hroom, Option.bind_some]
    exact hc

theorem backlog_oneByteRounds : ∀ (m : Nat) {b : MessageBuffer}, Drained b →
    backlog b (List.replicate m [0]) ≤ 1
  | 0, _, _ => Nat.zero_le _
  | m + 1, b, hb => by
    rw [List.replicate_succ, backlog]
    refine Nat.max_le.2 ⟨?_, backlog_oneByteRounds m (hb.consumeAll_received [0])⟩
    exact Nat.le_of_eq (hb.received_readableBytes [0])

/-- A vector of two bytes or more outgrows every bound, one byte a round. -/
theorem not_readBufferBounded {n : Nat} (hn : 2 ≤ n) : ¬ReadBufferBounded n := by
  rintro ⟨bound, h⟩
  let rounds := max (bound 0) (bound 1) + 1
  have hd := Drained.ofSize n
  obtain ⟨c, hc⟩ := exists_oneByteRounds (n := n) rounds hd
    (by rw [MessageBuffer.length_ofSize]; exact hn)
  have hlen : c.buffer.length = (fun s => s * 3 / 2)^[rounds] n := by
    rw [length_after_rounds hd hc, List.length_replicate, MessageBuffer.length_ofSize]
  have hgrow : n + rounds ≤ (fun s => s * 3 / 2)^[rounds] n := le_iterate_threeHalves hn rounds
  have hle := h _ c hc
  -- the backlog of these rounds is 0 or 1, so `bound` promises one of two numbers
  rcases Nat.le_one_iff_eq_zero_or_eq_one.1 (backlog_oneByteRounds rounds hd) with h0 | h1
  · rw [h0] at hle
    omega
  · rw [h1] at hle
    omega

/-- **Boundedness of the read buffer.** Only a buffer that starts with at most one byte keeps
its size; the size of every other one grows with the number of rounds, whatever is read. -/
theorem readBuffer_bounded_iff (n : Nat) : ReadBufferBounded n ↔ n ≤ 1 := by
  constructor
  · intro h
    by_contra hn
    exact not_readBufferBounded (by omega) h
  · intro hn
    refine ⟨fun _ => n, ?_⟩
    intro rounds b h
    rw [length_after_rounds (Drained.ofSize n) h, MessageBuffer.length_ofSize]
    exact Nat.le_of_eq (iterate_threeHalves_of_le_one hn _)

/-- The buffer of a session starts with 1024 bytes. -/
theorem session_readBuffer_unbounded : ¬ReadBufferBounded MessageBuffer.initialBufferSize :=
  not_readBufferBounded (by decide)

end GameServer.Net
