import GameServer.Lib.Machine
import GameServer.Net.Buffer

/-!
# `net::ISession`: the write side

A session queues messages and writes the front one with `async_write_some`; the socket performs
the operations it was given in the order they were started and hands each result to a handler
that runs later, on its own. `session` is the machine of one session: calls of `SendMsg`,
`SendProtoMessage`, `CloseSession` and `DelayedCloseSession`, operations the socket performs and
handlers that run, in any order.

`wire` is what the socket has put on the connection and `sent` what the callers have handed in,
in call order; neither is read by the code.
-/

namespace GameServer.Net

open GameServer.Lib

structure ISession where
  writeBufferQueue : List MessageBuffer
  closed : Bool
  closing : Bool
  /-- The regions of the operations started and not yet performed. -/
  outstanding : List (List UInt8)
  /-- The results whose handlers have not run: `none` for an error, else the bytes written. -/
  completed : List (Option Nat)
  wire : List UInt8
  sent : List UInt8
  deriving DecidableEq, Repr

namespace ISession

def fresh : ISession := ⟨[], false, false, [], [], [], []⟩

/-- `CloseSession`: only the first call shuts the sending side down. -/
def closeSession (s : ISession) : ISession := { s with closed := true }

def delayedCloseSession (s : ISession) : ISession := { s with closing := true }

/-- Starts a write of whatever is readable in the front packet. Where two writes of one packet have
moved the read index past the write index, the source passes a length that has wrapped; the region
is taken as empty then, and the write is started all the same. -/
def asyncWrite (s : ISession) : ISession :=
  match s.writeBufferQueue with
  | [] => s
  | packet :: _ => { s with outstanding := s.outstanding ++ [packet.readable] }

theorem asyncWrite_queue (s : ISession) : s.asyncWrite.writeBufferQueue = s.writeBufferQueue := by
  unfold asyncWrite
  split <;> rfl

theorem asyncWrite_sent (s : ISession) : s.asyncWrite.sent = s.sent := by
  unfold asyncWrite
  split <;> rfl

def sendMsg (s : ISession) (message : MessageBuffer) : ISession :=
  if message.readableBytes ≤ 0 then s
  else
    asyncWrite { s with
      writeBufferQueue := s.writeBufferQueue ++ [message]
      sent := s.sent ++ message.readable }

/-- `SendProtoMessage` of a message whose wire form is `serialized`; `none` when protobuf
reports that it could not serialize it. -/
def sendProtoMessage (s : ISession) : Option (List UInt8) → ISession
  | none => s
  | some serialized =>
    let content := ((MessageBuffer.ofSize serialized.length).fill serialized).writeDone
      serialized.length
    asyncWrite { s with
      writeBufferQueue := s.writeBufferQueue ++ [content]
      sent := s.sent ++ serialized }

/-- The completion handler of a write; `none` where it would take the front of an empty queue. -/
def writeHandler (s : ISession) : Option Nat → Option ISession
  | none => some s.closeSession
  | some length =>
    match s.writeBufferQueue with
    | [] => none
    | buff :: rest =>
      let buff := buff.readDone length
      let queue := if buff.readableBytes = 0 then rest else buff :: rest
      let s := { s with writeBufferQueue := queue }
      if queue.isEmpty then some (if s.closing then s.closeSession else s) else some s.asyncWrite

/-- The handler of a successful write: what is left in the queue, and whether a write is started
for it. -/
theorem writeHandler_success {s t : ISession} {k : Nat} (ht : s.writeHandler (some k) = some t) :
    ∃ buff rest queue, s.writeBufferQueue = buff :: rest ∧
      (if (buff.readDone k).readableBytes = 0 then rest else buff.readDone k :: rest) = queue ∧
      ((queue = [] ∧ t = if s.closing then closeSession { s with writeBufferQueue := [] }
          else { s with writeBufferQueue := [] }) ∨
        (queue ≠ [] ∧ t = asyncWrite { s with writeBufferQueue := queue })) := by
  unfold writeHandler at ht
  cases hq : s.writeBufferQueue with
  | nil => rw [hq] at ht; cases ht
  | cons buff rest =>
    rw [hq] at ht
    dsimp only at ht
    refine ⟨buff, rest, _, rfl, rfl, ?_⟩
    generalize (if (buff.readDone k).readableBytes = 0 then rest else buff.readDone k :: rest) =
      queue at ht ⊢
    cases queue with
    | nil => exact .inl ⟨rfl, (Option.some.inj ht).symm⟩
    | cons front queue => exact .inr ⟨List.cons_ne_nil _ _, (Option.some.inj ht).symm⟩

/-- What the socket does with the operation started first: it fails, or it puts the first `k`
bytes of the region on the wire, at least one unless the region is empty. -/
def perform (s : ISession) (result : Option Nat) : Option ISession :=
  match s.outstanding with
  | [] => none
  | region :: rest =>
    match result with
    | none => some { s with outstanding := rest, completed := s.completed ++ [none] }
    | some k =>
      if k ≤ region.length ∧ (0 < region.length → 0 < k) then
        some { s with
          outstanding := rest
          completed := s.completed ++ [some k]
          wire := s.wire ++ region.take k }
      else none

def runHandler (s : ISession) (i : Nat) : Option ISession :=
  match s.completed[i]? with
  | none => none
  | some result => writeHandler { s with completed := s.completed.eraseIdx i } result

end ISession

/-- What can happen to a session. A message handed to `SendMsg` has its indices in order. -/
inductive SessionEvent where
  | sendMsg (message : { b : MessageBuffer // b.Valid })
  | sendProtoMessage (serialized : Option (List UInt8))
  | closeSession
  | delayedCloseSession
  | perform (result : Option Nat)
  | runHandler (i : Nat)

def session : Machine ISession SessionEvent where
  init s := s = ISession.fresh
  step s
    | .sendMsg message => some (s.sendMsg message)
    | .sendProtoMessage serialized => some (s.sendProtoMessage serialized)
    | .closeSession => some s.closeSession
    | .delayedCloseSession => some s.delayedCloseSession
    | .perform result => s.perform result
    | .runHandler i => s.runHandler i

end GameServer.Net
