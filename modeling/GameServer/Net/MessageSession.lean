import GameServer.Lib.Stream
import GameServer.Lib.Words
import GameServer.Net.NetMessage
import GameServer.Net.ReadRounds
import GameServer.Net.Session

/-!
# `net::Session`

The session of the message protocol: `ReadHandler` parses everything readable as one message,
consumes it and answers, and keeps it where it does not parse. `messageSession` is the machine of
a session: chunks that arrive and are handled, and whatever happens on the write side.

`received` and `answered` are the messages that `ReadHandler` parsed and those that it handed to
`SendProtoMessage`; neither is read by the code.
-/

namespace GameServer.Net

open GameServer.Lib

structure Session where
  net : ISession
  readBuffer : MessageBuffer
  received : List Message
  answered : List Message

/-- What can happen to a session of messages. -/
inductive MessageEvent where
  | net (event : SessionEvent)
  | receive (chunk : List UInt8)

def MessageEvent.chunk : MessageEvent → Option (List UInt8)
  | .net _ => none
  | .receive chunk => some chunk

def chunks (events : List MessageEvent) : List (List UInt8) :=
  events.filterMap MessageEvent.chunk

/-- The message that `SendProtoMessage(header, message)` sends. -/
def protoMessage (header : Nat) (message : List UInt8) : Message := ⟨.ofNat header, message⟩

/-- The answer of `ReadHandler` with the text `response`. -/
def reply (response : List UInt8) : Message := protoMessage response.length response

section ReadHandler

variable (pb : Protobuf) (response : List UInt8)

/-- `ParseFromArray` of a whole text, its size cast to `int`. -/
def Protobuf.parse (array : List UInt8) : Option Message :=
  pb.parseFromArray array (toInt array.length)

namespace Session

def fresh : Session := ⟨.fresh, .ofSize MessageBuffer.initialBufferSize, [], []⟩

/-- The rest of the loop body once a message was parsed. -/
def accept (s : Session) (message : Message) : Session where
  net := s.net.sendProtoMessage (pb.serializeToArray (reply response))
  readBuffer := s.readBuffer.readDone s.readBuffer.readableBytes
  received := s.received ++ [message]
  answered := s.answered ++ [reply response]

theorem readableBytes_accept (s : Session) (message : Message) :
    (s.accept pb response message).readBuffer.readableBytes = 0 := by
  simp only [accept, MessageBuffer.readDone, MessageBuffer.readableBytes]
  split <;> split <;> omega

def readHandler (s : Session) : Session :=
  if s.readBuffer.readableBytes ≤ 0 then s
  else
    match pb.parse s.readBuffer.readable with
    | none => s
    | some message => readHandler (s.accept pb response message)
termination_by s.readBuffer.readableBytes
decreasing_by
  rw [readableBytes_accept]
  omega

end Session

def messageSession : Machine Session MessageEvent where
  init s := s = Session.fresh
  step s
    | .net event => (session.step s.net event).map fun net => { s with net }
    | .receive chunk =>
      if chunk.length ≤ s.readBuffer.ensureFreeSpace.writableBytes then
        some (Session.readHandler pb response
          { s with readBuffer := received s.readBuffer chunk })
      else none

/-! ## What one chunk does -/

variable {pb response} {s t : Session}

/-- The loop runs once at most: a message that is parsed takes everything. -/
theorem readHandler_eq (h : s.readBuffer.Valid) (hne : s.readBuffer.readable ≠ []) :
    s.readHandler pb response =
      match pb.parse s.readBuffer.readable with
      | none => s
      | some message => s.accept pb response message := by
  have hpos : ¬s.readBuffer.readableBytes ≤ 0 := by
    rw [← MessageBuffer.length_readable h]
    exact Nat.not_le.2 (List.length_pos_of_ne_nil hne)
  rw [Session.readHandler, if_neg hpos]
  cases pb.parse s.readBuffer.readable with
  | none => rfl
  | some message =>
    have hdone : (s.accept pb response message).readBuffer.readableBytes ≤ 0 :=
      Nat.le_of_eq (Session.readableBytes_accept ..)
    simp only
    rw [Session.readHandler, if_pos hdone]

theorem received_spec {b : MessageBuffer} (h : b.Valid) (chunk : List UInt8) :
    (received b chunk).Valid ∧ (received b chunk).readable = b.readable ++ chunk := by
  have hspace : b.ensureFreeSpace.Valid := MessageBuffer.makeSpace_valid h _
  have hsame : b.ensureFreeSpace.readable = b.readable := MessageBuffer.makeSpace_readable h _
  have hfill := MessageBuffer.fill_writeDone hspace chunk
  rw [hsame] at hfill
  exact hfill

/-- What a chunk adds to `received` and `answered`, and what is readable after it. -/
structure Handled (pb : Protobuf) (response : List UInt8) (s : Session) (chunk : List UInt8)
    (t : Session) : Prop where
  valid : t.readBuffer.Valid
  parsed : ∀ message, pb.parse (s.readBuffer.readable ++ chunk) = some message →
    t.readBuffer.readable = [] ∧ t.received = s.received ++ [message] ∧
      t.answered = s.answered ++ [reply response]
  kept : pb.parse (s.readBuffer.readable ++ chunk) = none →
    t.readBuffer.readable = s.readBuffer.readable ++ chunk ∧ t.received = s.received ∧
      t.answered = s.answered

/-- **One chunk.** What is readable is taken as one message, or kept. -/
theorem handled_receive (h : s.readBuffer.Valid) {chunk : List UInt8} (hne : chunk ≠ [])
    (hs : (messageSession pb response).step s (.receive chunk) = some t) :
    Handled pb response s chunk t := by
  obtain ⟨hvalid, hread⟩ := received_spec h chunk
  simp only [messageSession] at hs
  split at hs
  · rw [Option.some.injEq, readHandler_eq hvalid (hread ▸ List.append_ne_nil_of_right_ne_nil _ hne)]
      at hs
    simp only [hread] at hs
    cases hparse : pb.parse (s.readBuffer.readable ++ chunk) with
    | none =>
      rw [hparse] at hs
      subst hs
      exact ⟨hvalid, fun message hm => absurd (hparse.symm.trans hm) nofun,
        fun _ => ⟨hread, rfl, rfl⟩⟩
    | some message =>
      rw [hparse] at hs
      subst hs
      refine ⟨MessageBuffer.readDone_valid hvalid (Nat.le_refl _), ?_,
        fun hnone => absurd (hparse.symm.trans hnone) nofun⟩
      intro message' hm
      rw [hparse, Option.some.injEq] at hm
      subst hm
      refine ⟨?_, rfl, rfl⟩
      simp only [Session.accept, MessageBuffer.readDone_readable]
      exact List.drop_of_length_le (Nat.le_of_eq (MessageBuffer.length_readable hvalid))
  · cases hs

/-- **A run** delivers what its chunks make of what was readable, and answers each message. -/
theorem received_run {events : List MessageEvent} (h : s.readBuffer.Valid)
    (hne : ∀ chunk ∈ chunks events, chunk ≠ [])
    (hrun : (messageSession pb response).run s events = some t) :
    t.received = s.received ++ delivered pb.parse s.readBuffer.readable (chunks events) ∧
      t.answered = s.answered ++ List.replicate
        (delivered pb.parse s.readBuffer.readable (chunks events)).length (reply response) := by
  induction events generalizing s with
  | nil =>
    cases hrun
    exact ⟨(List.append_nil _).symm, (List.append_nil _).symm⟩
  | cons e events ih =>
    rw [Machine.run_cons] at hrun
    obtain ⟨u, hu, hrest⟩ := Option.bind_eq_some_iff.1 hrun
    cases e with
    | net event =>
      obtain ⟨net, -, rfl⟩ := Option.map_eq_some_iff.1 hu
      exact ih (s := { s with net }) h hne hrest
    | receive chunk =>
      have hchunks : chunks (.receive chunk :: events) = chunk :: chunks events := rfl
      rw [hchunks] at hne ⊢
      have hhandled := handled_receive h (hne chunk List.mem_cons_self) hu
      obtain ⟨hreceived, hanswered⟩ :=
        ih hhandled.valid (fun c hc => hne c (List.mem_cons_of_mem _ hc)) hrest
      rw [delivered]
      cases hparse : pb.parse (s.readBuffer.readable ++ chunk) with
      | none =>
        obtain ⟨hkept, hsame, hsame'⟩ := hhandled.kept hparse
        rw [hkept, hsame] at hreceived
        rw [hkept, hsame'] at hanswered
        exact ⟨hreceived, hanswered⟩
      | some message =>
        obtain ⟨hempty, hgot, hgave⟩ := hhandled.parsed message hparse
        rw [hempty, hgot, List.append_assoc] at hreceived
        rw [hempty, hgave, List.append_assoc] at hanswered
        exact ⟨hreceived, hanswered⟩

/-! ## Room for a chunk -/

/-- A buffer of two bytes or more makes room for half as many again as it has. -/
theorem ensureFreeSpace_room {b : MessageBuffer} (hsize : 2 ≤ b.buffer.length) :
    b.buffer.length ≤ b.ensureFreeSpace.writableBytes ∧
      b.buffer.length ≤ b.ensureFreeSpace.buffer.length := by
  have hlt : b.writableBytes < b.buffer.length * 3 / 2 := by
    unfold MessageBuffer.writableBytes
    omega
  rw [MessageBuffer.ensureFreeSpace, MessageBuffer.makeSpace_grow hlt]
  simp only [MessageBuffer.writableBytes, MessageBuffer.length_resize]
  omega

theorem buffer_readHandler (s : Session) :
    (s.readHandler pb response).readBuffer.buffer = s.readBuffer.buffer := by
  fun_induction Session.readHandler pb response s with
  | case1 s hz => rfl
  | case2 s hpos hnone => rfl
  | case3 s hpos message hparse ih => exact ih

/-- Chunks that fit into the buffer as it is are handled one after the other. -/
theorem exists_run_receives (h : s.readBuffer.Valid) {cuts : List (List UInt8)}
    (hsize : 2 ≤ s.readBuffer.buffer.length) (hne : ∀ chunk ∈ cuts, chunk ≠ [])
    (hlen : ∀ chunk ∈ cuts, chunk.length ≤ s.readBuffer.buffer.length) :
    ∃ t, (messageSession pb response).run s (cuts.map .receive) = some t := by
  induction cuts generalizing s with
  | nil => exact ⟨s, rfl⟩
  | cons chunk cuts ih =>
    obtain ⟨hroom, hgrown⟩ := ensureFreeSpace_room hsize
    have hfits := Nat.le_trans (hlen chunk List.mem_cons_self) hroom
    have hstep : (messageSession pb response).step s (.receive chunk) =
        some (Session.readHandler pb response
          { s with readBuffer := received s.readBuffer chunk }) := if_pos hfits
    have hbuffer : s.readBuffer.buffer.length ≤ (Session.readHandler pb response
        { s with readBuffer := received s.readBuffer chunk }).readBuffer.buffer.length := by
      rw [buffer_readHandler]
      have hsame := MessageBuffer.length_fill (MessageBuffer.makeSpace_valid h _) hfits
      exact Nat.le_trans hgrown (Nat.le_of_eq hsame.symm)
    obtain ⟨t, ht⟩ := ih (handled_receive h (hne chunk List.mem_cons_self) hstep).valid
      (Nat.le_trans hsize hbuffer) (fun c hc => hne c (List.mem_cons_of_mem _ hc))
      fun c hc => Nat.le_trans (hlen c (List.mem_cons_of_mem _ hc)) hbuffer
    refine ⟨t, ?_⟩
    rw [List.map_cons, Machine.run_cons, hstep]
    exact ht

/-! ## The sending side -/

theorem sendProtoMessage_sent (s : ISession) (serialized : List UInt8) :
    (s.sendProtoMessage (some serialized)).sent = s.sent ++ serialized :=
  ISession.asyncWrite_sent _

end ReadHandler

/-- The bytes that a new session sends for messages. -/
def sentBytes (pb : Protobuf) (messages : List Message) : List UInt8 :=
  (messages.foldl (fun s m => s.sendProtoMessage (pb.serializeToArray m)) ISession.fresh).sent

theorem sentBytes_eq (pb : Protobuf) {messages : List Message}
    (h : ∀ m ∈ messages, m.wire.length < 0x80000000) :
    sentBytes pb messages = messages.flatMap Message.wire := by
  have hfold : ∀ s : ISession, (messages.foldl
      (fun s m => s.sendProtoMessage (pb.serializeToArray m)) s).sent =
        s.sent ++ messages.flatMap Message.wire := by
    induction messages with
    | nil => exact fun s => (List.append_nil _).symm
    | cons m messages ih =>
      intro s
      rw [List.foldl_cons, ih fun m' hm' => h m' (List.mem_cons_of_mem _ hm'),
        pb.serialize_wire m (h m List.mem_cons_self), sendProtoMessage_sent, List.append_assoc,
        List.flatMap_cons]
  exact hfold .fresh

end GameServer.Net
