import GameServer.Net.MessageSession

/-!
# Which cuts keep the messages

The stream of messages has no mark between them, so the receiver takes for one message what is
readable when it first parses: all fields up to a read that ends with a field. Each message has
two fields here, a header and a content. The messages arrive as they were sent exactly if a read
ends with each message and none ends between its fields (`delivered_iff`).

`deliveredAt_messages` shows that such reads are enough, and `groups_eq` that nothing else is: as
many messages as were sent, each with a header and a content, leave two fields for each.
-/

namespace GameServer.Net

open GameServer.Lib

/-- A message with both fields that `SerializeToArray` can write. -/
structure Sendable (m : Message) : Prop where
  header : m.header ≠ 0
  content : m.content ≠ []
  fits : m.wire.length < 0x80000000

/-- The messages were received as they were sent, and each was answered. -/
structure Delivered (response : List UInt8) (messages : List Message) (t : Session) : Prop where
  received : t.received = messages
  answered : t.answered = List.replicate messages.length (reply response)

/-- The length of a header on the wire. -/
def headerLength : Nat := 5

/-- A read ends with each message, and none ends with a header. -/
structure CutAtMessages (messages : List Message) (cuts : List (List UInt8)) : Prop where
  ends : ∀ entry ∈ placed Message.wire 0 messages,
    entry.1 + entry.2.wire.length ∈ pieceEnds 0 cuts
  headers : ∀ entry ∈ placed Message.wire 0 messages, entry.1 + headerLength ∉ pieceEnds 0 cuts

theorem Protobuf.reads (pb : Protobuf) :
    Reads pb.parse Field.encode Message.ofFields 0x80000000 where
  text_ne := Field.encode_ne_nil
  whole fields h := by
    rw [parse, toInt_of_lt h]
    exact pb.parse_fields fields h
  cut fields cut more f hcut hmore heq h := by
    rw [parse, toInt_of_lt h]
    exact pb.parse_cut fields cut more f hcut hmore heq h

namespace Sendable

variable {m : Message}

theorem fields_eq (h : Sendable m) : m.fields = [.header m.header, .content m.content] := by
  rw [Message.fields, if_neg h.header, if_neg h.content]
  rfl

theorem wire_eq (h : Sendable m) :
    m.wire = (Field.header m.header).encode ++ (Field.content m.content).encode := by
  rw [Message.wire, h.fields_eq, encodeFields, List.flatMap_cons, List.flatMap_singleton]

end Sendable

/-! ## Enough -/

/-- Reads that end with messages and not with headers deliver the messages. -/
theorem deliveredAt_messages {parse : List UInt8 → Option Message}
    (hparse : Reads parse Field.encode Message.ofFields 0x80000000) {ends : List Nat}
    {messages : List Message} (hsend : ∀ m ∈ messages, Sendable m) {place : Nat}
    (hends : ∀ entry ∈ placed Message.wire place messages,
      entry.1 + entry.2.wire.length ∈ ends ∧ entry.1 + headerLength ∉ ends) :
    deliveredAt parse ends place [] (messages.flatMap Message.wire) = messages := by
  induction messages generalizing place with
  | nil => rfl
  | cons m messages ih =>
    have hm := hsend m List.mem_cons_self
    obtain ⟨hend, hheader⟩ := hends (place, m) List.mem_cons_self
    have hlater := ih (fun m' hm' => hsend m' (List.mem_cons_of_mem _ hm'))
      fun entry he => hends entry (List.mem_cons_of_mem _ he)
    have hfits := hm.fits
    rw [hm.wire_eq, List.length_append] at hfits
    have hfirst := deliveredAt_item hparse ends [] (.header m.header)
      (by simpa using by omega) place
      ((Field.content m.content).encode ++ messages.flatMap Message.wire)
    have hsecond := deliveredAt_item hparse ends [.header m.header] (.content m.content)
      (by simpa using hfits) (place + headerLength) (messages.flatMap Message.wire)
    have hlen : place + headerLength + (Field.content m.content).encode.length =
        place + m.wire.length := by
      rw [hm.wire_eq, List.length_append, Nat.add_assoc]
      rfl
    have hkeep : place + (Field.header m.header).encode.length ∉ ends := hheader
    rw [hlen, if_pos hend, hlater] at hsecond
    rw [if_neg hkeep] at hfirst
    rw [List.flatMap_cons, hm.wire_eq, List.append_assoc]
    exact hfirst.trans hsecond

/-! ## Nothing else -/

/-- No more groups with a header each than there are headers. -/
theorem length_le_headers {groups : List (List Field)}
    (h : ∀ group ∈ groups, ∃ f ∈ group, f.isHeader) :
    groups.length ≤ groups.flatten.countP Field.isHeader := by
  induction groups with
  | nil => exact Nat.zero_le _
  | cons group groups ih =>
    have hone : 0 < group.countP Field.isHeader := by
      rw [List.countP_pos_iff]
      exact h group List.mem_cons_self
    have hrest := ih fun g hg => h g (List.mem_cons_of_mem _ hg)
    rw [List.flatten_cons, List.countP_append, List.length_cons]
    omega

theorem countP_isHeader {messages : List Message} (hsend : ∀ m ∈ messages, Sendable m) :
    (messages.flatMap Message.fields).countP Field.isHeader = messages.length := by
  induction messages with
  | nil => rfl
  | cons m messages ih =>
    rw [List.flatMap_cons, (hsend m List.mem_cons_self).fields_eq, List.countP_append,
      ih fun m' hm' => hsend m' (List.mem_cons_of_mem _ hm'), List.length_cons, Nat.add_comm]
    rfl

/-- **Two fields for each.** As many groups as messages, each with a header and a content, are the
fields of the messages. -/
theorem groups_eq {messages : List Message} (hsend : ∀ m ∈ messages, Sendable m)
    {groups : List (List Field)} {left : List Field}
    (hflat : groups.flatten ++ left = messages.flatMap Message.fields)
    (hlen : groups.length = messages.length)
    (hfull : ∀ group ∈ groups, (∃ f ∈ group, f.isHeader) ∧ ∃ f ∈ group, f.isHeader = false) :
    groups = messages.map Message.fields := by
  induction messages generalizing groups with
  | nil => exact List.length_eq_zero_iff.1 hlen
  | cons m messages ih =>
    have hm := hsend m List.mem_cons_self
    have hrest : ∀ m ∈ messages, Sendable m := fun m' hm' => hsend m' (List.mem_cons_of_mem _ hm')
    obtain ⟨group, groups, rfl⟩ := List.exists_cons_of_length_eq_add_one hlen
    have hlength : groups.length = messages.length := Nat.succ.inj hlen
    obtain ⟨⟨f, hf, hheader⟩, g, hg, hcontent⟩ := hfull group List.mem_cons_self
    have hlater : ∀ group ∈ groups, (∃ f ∈ group, f.isHeader) ∧ ∃ f ∈ group, f.isHeader = false :=
      fun group' hg' => hfull group' (List.mem_cons_of_mem _ hg')
    rw [List.flatten_cons, List.flatMap_cons, hm.fields_eq, List.append_assoc] at hflat
    match group with
    | [] => cases hf
    | [a] =>
      have ha : a = .header m.header := (List.cons.inj hflat).1
      rw [List.mem_singleton.1 hg, ha] at hcontent
      cases hcontent
    | a :: b :: more =>
      simp only [List.cons_append, List.nil_append, List.cons.injEq] at hflat
      obtain ⟨rfl, rfl, hflat⟩ := hflat
      have hcount := countP_isHeader hrest
      have hleast := length_le_headers fun group' hg' => (hlater group' hg').1
      rw [← hflat, List.countP_append, List.countP_append] at hcount
      have hmore : more = [] := by
        cases more with
        | nil => rfl
        | cons c more =>
          -- a third field would be the header of the next message, one too many
          cases messages with
          | nil => cases hflat
          | cons m' messages =>
            rw [List.flatMap_cons, (hrest m' List.mem_cons_self).fields_eq] at hflat
            have hc : c = .header m'.header := (List.cons.inj hflat).1
            rw [List.countP_cons_of_pos (hc ▸ rfl)] at hcount
            omega
      subst hmore
      rw [List.map_cons, hm.fields_eq, ih hrest hflat hlength hlater]

/-- Where the groups are the messages, reads end with messages and not with headers. -/
theorem groupsAt_messages {ends : List Nat} {messages : List Message}
    (hsend : ∀ m ∈ messages, Sendable m) {place : Nat}
    (h : groupsAt Field.encode ends place [] (messages.flatMap Message.fields) =
      messages.map Message.fields) :
    ∀ entry ∈ placed Message.wire place messages,
      entry.1 + entry.2.wire.length ∈ ends ∧ entry.1 + headerLength ∉ ends := by
  induction messages generalizing place with
  | nil => exact fun entry he => nomatch he
  | cons m messages ih =>
    have hm := hsend m List.mem_cons_self
    have hlen : place + (Field.header m.header).encode.length +
        (Field.content m.content).encode.length = place + m.wire.length := by
      rw [hm.wire_eq, List.length_append, Nat.add_assoc]
    rw [List.flatMap_cons, List.map_cons, hm.fields_eq, List.cons_append, List.cons_append,
      List.nil_append, groupsAt] at h
    split at h
    · cases h
    · next hheader =>
      rw [groupsAt, hlen] at h
      split at h
      · next hend =>
        have hlater := ih (fun m' hm' => hsend m' (List.mem_cons_of_mem _ hm')) (List.cons.inj h).2
        intro entry he
        rcases List.mem_cons.1 he with rfl | he
        · exact ⟨hend, hheader⟩
        · exact hlater entry he
      · exact absurd (length_lt_of_groupsAt h) (Nat.lt_irrefl _)

/-- A message with both fields was read from both fields. -/
theorem full_of_ofFields {fields : List Field} {m : Message} (hm : Sendable m)
    (h : Message.ofFields fields = m) :
    (∃ f ∈ fields, f.isHeader) ∧ ∃ f ∈ fields, f.isHeader = false := by
  rw [Message.ofFields] at h
  constructor
  · by_contra hnone
    have hzero := Message.header_foldl (m := ⟨0, []⟩) fun f hf =>
      Bool.eq_false_iff.2 fun hheader => hnone ⟨f, hf, hheader⟩
    exact hm.header (h ▸ hzero)
  · by_contra hnone
    have hempty := Message.content_foldl (m := ⟨0, []⟩) fun f hf =>
      Bool.eq_true_of_not_eq_false fun hcontent => hnone ⟨f, hf, hcontent⟩
    exact hm.content (h ▸ hempty)

/-- Where the messages are delivered as they were sent, reads end with messages and not with
headers. -/
theorem ends_of_deliveredAt {parse : List UInt8 → Option Message}
    (hparse : Reads parse Field.encode Message.ofFields 0x80000000) {ends : List Nat}
    {messages : List Message} (hsend : ∀ m ∈ messages, Sendable m)
    (hsize : (messages.flatMap Message.wire).length < 0x80000000)
    (hall : deliveredAt parse ends 0 [] (messages.flatMap Message.wire) = messages) :
    ∀ entry ∈ placed Message.wire 0 messages,
      entry.1 + entry.2.wire.length ∈ ends ∧ entry.1 + headerLength ∉ ends := by
  have hfields : messages.flatMap Message.wire =
      (messages.flatMap Message.fields).flatMap Field.encode := by
    rw [List.flatMap_assoc]
    rfl
  have hbound : (([] ++ messages.flatMap Message.fields).flatMap Field.encode).length <
      0x80000000 := by
    rw [List.nil_append, ← hfields]
    exact hsize
  have hgroups := deliveredAt_groups hparse ends hbound 0
  rw [List.flatMap_nil, ← hfields, hall] at hgroups
  obtain ⟨left, hleft⟩ := flatten_groupsAt Field.encode ends 0 []
    (messages.flatMap Message.fields)
  generalize hg : groupsAt Field.encode ends 0 [] (messages.flatMap Message.fields) = groups
    at hgroups hleft
  have hfull : ∀ group ∈ groups,
      (∃ f ∈ group, f.isHeader) ∧ ∃ f ∈ group, f.isHeader = false := by
    intro group hmem
    refine full_of_ofFields (hsend (Message.ofFields group) ?_) rfl
    rw [hgroups]
    exact List.mem_map_of_mem hmem
  have hlen : groups.length = messages.length := by
    rw [hgroups, List.length_map]
  exact groupsAt_messages hsend (hg.trans (groups_eq hsend hleft hlen hfull))

/-! ## Runs -/

/-- **Which cuts keep the messages.** In a run whose reads are the bytes that were sent, the
messages are received as they were sent and each is answered, if a read ends with each message and
none between its fields; for streams of sizes that an `int` can hold, only if. -/
theorem delivered_iff (pb : Protobuf) (response : List UInt8) (messages : List Message)
    (events : List MessageEvent) {t : Session} (hsend : ∀ m ∈ messages, Sendable m)
    (hrun : (messageSession pb response).run .fresh events = some t)
    (hne : ∀ chunk ∈ chunks events, chunk ≠ [])
    (hstream : (chunks events).flatten = sentBytes pb messages) :
    (CutAtMessages messages (chunks events) → Delivered response messages t) ∧
      ((chunks events).flatten.length < 0x80000000 → Delivered response messages t →
        CutAtMessages messages (chunks events)) := by
  obtain ⟨hreceived, hanswered⟩ := received_run (MessageBuffer.ofSize_valid _) hne hrun
  have hempty : Session.fresh.readBuffer.readable = [] := MessageBuffer.ofSize_readable _
  rw [sentBytes_eq pb fun m hm => (hsend m hm).fits] at hstream
  rw [hempty] at hreceived hanswered
  have hparse : delivered pb.parse [] (chunks events) =
      deliveredAt pb.parse (pieceEnds 0 (chunks events)) 0 [] (chunks events).flatten :=
    delivered_eq hne (fun _ _ => Iff.rfl) []
  rw [hstream] at hparse
  rw [hparse] at hreceived hanswered
  have hreceived : t.received = _ := hreceived
  have hanswered : t.answered = _ := hanswered
  constructor
  · intro hcut
    have hall := deliveredAt_messages pb.reads hsend fun entry he =>
      ⟨hcut.ends entry he, hcut.headers entry he⟩
    rw [hall] at hreceived hanswered
    exact ⟨hreceived, hanswered⟩
  · intro hsize hdelivered
    rw [hstream] at hsize
    have hall := ends_of_deliveredAt pb.reads hsend hsize
      (hreceived.symm.trans hdelivered.received)
    exact ⟨fun entry he => (hall entry he).1, fun entry he => (hall entry he).2⟩

/-! ## Cuts of either kind -/

def twoMessages : List Message := [⟨1, [0x61]⟩, ⟨2, [0x62]⟩]

theorem sendable_twoMessages : ∀ m ∈ twoMessages, Sendable m := by
  intro m hm
  simp only [twoMessages, List.mem_cons, List.not_mem_nil, or_false] at hm
  rcases hm with rfl | rfl <;> constructor <;> decide

/-- The first message arrives in two reads, cut within its header. -/
def cutInHeader : List (List UInt8) :=
  [[0x0d, 1, 0], [0, 0, 0x12, 1, 0x61], [0x0d, 2, 0, 0, 0, 0x12, 1, 0x62]]

/-- Both messages arrive in one read. -/
def together : List (List UInt8) :=
  [[0x0d, 1, 0, 0, 0, 0x12, 1, 0x61, 0x0d, 2, 0, 0, 0, 0x12, 1, 0x62]]

theorem chunks_receive (cuts : List (List UInt8)) :
    chunks (cuts.map MessageEvent.receive) = cuts := by
  induction cuts with
  | nil => rfl
  | cons chunk cuts ih => exact congrArg (chunk :: ·) ih

theorem sentBytes_twoMessages : sentBytes .wire twoMessages = twoMessages.flatMap Message.wire :=
  sentBytes_eq _ fun m hm => (sendable_twoMessages m hm).fits

theorem length_fresh : Session.fresh.readBuffer.buffer.length = 1024 :=
  MessageBuffer.length_ofSize _

/-- A message that is cut within its header arrives. -/
theorem delivered_cutInHeader :
    ∃ t, (messageSession .wire [0x6f, 0x6b]).run .fresh (cutInHeader.map .receive) = some t ∧
      Delivered [0x6f, 0x6b] twoMessages t := by
  have hrun : ∃ t, (messageSession .wire [0x6f, 0x6b]).run .fresh (cutInHeader.map .receive) =
      some t := exists_run_receives (MessageBuffer.ofSize_valid _) (by rw [length_fresh]; decide)
    (by decide) (by rw [length_fresh]; decide)
  obtain ⟨t, ht⟩ := hrun
  refine ⟨t, ht, ?_⟩
  refine (delivered_iff .wire _ twoMessages _ sendable_twoMessages ht ?_ ?_).1 ?_ <;>
    rw [chunks_receive]
  · decide
  · rw [sentBytes_twoMessages]
    decide
  · constructor <;> decide

/-- Two messages in one read arrive as one. -/
theorem messages_merged :
    ¬∀ (pb : Protobuf) (response : List UInt8) (messages : List Message)
      (events : List MessageEvent) (t : Session), (∀ m ∈ messages, Sendable m) →
      (messageSession pb response).run .fresh events = some t →
      (∀ chunk ∈ chunks events, chunk ≠ []) →
      (chunks events).flatten = sentBytes pb messages → Delivered response messages t := by
  intro h
  have hrun : ∃ t, (messageSession .wire []).run .fresh (together.map .receive) = some t :=
    exists_run_receives (MessageBuffer.ofSize_valid _) (by rw [length_fresh]; decide)
      (by decide) (by rw [length_fresh]; decide)
  obtain ⟨t, ht⟩ := hrun
  have hdelivered := h .wire [] twoMessages _ t sendable_twoMessages ht
    (by rw [chunks_receive]; decide)
    (by rw [chunks_receive, sentBytes_twoMessages]; decide)
  have hreceived := (received_run (MessageBuffer.ofSize_valid _)
    (by rw [chunks_receive]; decide) ht).1
  rw [chunks_receive, hdelivered.received] at hreceived
  have hempty : Session.fresh.readBuffer.readable = [] := MessageBuffer.ofSize_readable _
  rw [hempty] at hreceived
  revert hreceived
  decide +kernel

end GameServer.Net
