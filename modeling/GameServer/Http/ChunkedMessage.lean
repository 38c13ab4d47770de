import GameServer.Http.ChunkedInPlace

/-!
# Chunked messages

What `phr_decode_chunked` reads from the first byte on is a `ChunkedMessage`: chunks, a last chunk
and, if the decoder consumes them, trailer lines. A line may end in a line feed without a carriage
return, and behind the data of a chunk there may be any number of carriage returns.

The decoder gives the data of a message and leaves what follows it, and it does so for nothing else
(`phrDecodeChunked_complete_iff`); it returns -2 exactly for what can still become a message
(`phrDecodeChunked_incomplete_iff`). How the bytes are cut into calls makes no difference
(`decodePieces_eq`).
-/

namespace GameServer.Http

open GameServer.Lib ChunkedLocals

/-! ## Messages -/

/-- The number that the digits stand for, with the digits before them. -/
def hexValue (n : Nat) (digits : Bytes) : Nat :=
  digits.foldl (fun n c => n * 16 + (decodeHex c).getD 0) n

/-- The line of a size: up to sixteen digits, and an extension. -/
structure SizeLine (n : Nat) where
  digits : Bytes
  ext : Bytes
  hex : ∀ c ∈ digits, (decodeHex c).isSome
  digits_ne : digits ≠ []
  digits_le : digits.length ≤ 16
  value : hexValue 0 digits = n
  ext_head : ∀ c, ext.head? = some c → decodeHex c = none
  ext_line : lf ∉ ext

def SizeLine.text {n : Nat} (line : SizeLine n) : Bytes := line.digits ++ line.ext ++ [lf]

structure Chunk where
  data : Bytes
  data_ne : data ≠ []
  size : SizeLine data.length
  /-- The number of carriage returns behind the data. -/
  returns : Nat

def Chunk.text (chunk : Chunk) : Bytes :=
  chunk.size.text ++ (chunk.data ++ (List.replicate chunk.returns cr ++ [lf]))

/-- A line that is not empty. -/
structure TrailerLine where
  returns : Nat
  first : UInt8
  more : Bytes
  first_ne_cr : first ≠ cr
  first_ne_lf : first ≠ lf
  more_line : lf ∉ more

def TrailerLine.text (line : TrailerLine) : Bytes :=
  List.replicate line.returns cr ++ line.first :: (line.more ++ [lf])

structure ChunkedMessage where
  chunks : List Chunk
  last : SizeLine 0
  trailer : List TrailerLine
  /-- The number of carriage returns in the empty line. -/
  returns : Nat

namespace ChunkedMessage

/-- The lines behind the last chunk. -/
def trailerText (m : ChunkedMessage) : Bytes :=
  m.trailer.flatMap TrailerLine.text ++ (List.replicate m.returns cr ++ [lf])

def text (m : ChunkedMessage) (consumeTrailer : Bool) : Bytes :=
  m.chunks.flatMap Chunk.text ++
    (m.last.text ++ if consumeTrailer then m.trailerText else [])

def data (m : ChunkedMessage) : Bytes := m.chunks.flatMap Chunk.data

end ChunkedMessage

/-! ## Calls -/

/-- What a reader of the bytes learns from calls. -/
structure Decoded where
  ret : Int
  decoder : PhrChunkedDecoder
  data : Bytes
  undecoded : Bytes
  deriving DecidableEq, Repr

/-- What a call tells: the first `bufsz` bytes are data, and the `ret` bytes behind them are not
decoded. -/
def ChunkedResult.decoded (r : ChunkedResult) : Decoded where
  ret := r.ret
  decoder := r.decoder
  data := r.buf.take r.bufsz
  undecoded := (r.buf.drop r.bufsz).take r.ret.toNat

/-- Calls with one piece after the other as long as they return -2. -/
def decodePieces : PhrChunkedDecoder → List Bytes → Option Decoded
  | decoder, [] => some ⟨-2, decoder, [], []⟩
  | decoder, piece :: cuts => do
    let r ← phrDecodeChunked decoder piece
    let d := r.decoded
    if d.ret = -2 then do
      let later ← decodePieces d.decoder cuts
      some { later with data := d.data ++ later.data }
    else if d.ret < 0 then some d
    else
      let undecoded := d.undecoded ++ cuts.flatten
      some { d with ret := undecoded.length, undecoded }

/-- What is told of an outcome. -/
def toDecoded : Outcome PhrChunkedDecoder UInt8 UInt8 → Decoded
  | .more d out => ⟨-2, d, out, []⟩
  | .refused d out _ => ⟨-1, d, out, []⟩
  | .stopped d out rest => ⟨rest.length, d, out, rest⟩

theorem take_of_append_isPrefix {out rest buf : Bytes} (h : out ++ rest <+: buf) :
    buf.take out.length = out ∧ (buf.drop out.length).take rest.length = rest := by
  obtain ⟨more, rfl⟩ := h
  rw [List.append_assoc, List.take_left, List.drop_left, List.take_left]
  exact ⟨rfl, rfl⟩

theorem ChunkedResult.Reports.decoded {r : ChunkedResult} {size : Nat}
    {o : Outcome PhrChunkedDecoder UInt8 UInt8} (h : r.Reports size o) :
    r.decoded = toDecoded o := by
  have htold := h.told
  unfold ChunkedResult.decoded toDecoded
  cases o with
  | more d out =>
    obtain ⟨hret, hd, hsize, hprefix⟩ := htold
    obtain ⟨more, hmore⟩ := hprefix
    rw [hret, hd, hsize, ← hmore, List.take_left]
    rfl
  | refused d out rest =>
    obtain ⟨hret, hd, hsize, hprefix⟩ := htold
    rw [hret, hd, hsize, (take_of_append_isPrefix hprefix).1]
    rfl
  | stopped d out rest =>
    obtain ⟨hret, hd, hsize, hprefix⟩ := htold
    obtain ⟨htake, hdrop⟩ := take_of_append_isPrefix hprefix
    rw [hret, hd, hsize, htake, Int.toNat_natCast, hdrop]

/-- One call, in terms of the transducer. -/
theorem phrDecodeChunked_decoded {d : PhrChunkedDecoder} (hd : d.Wf) (buf : Bytes) :
    (phrDecodeChunked d buf).map ChunkedResult.decoded =
      some (toDecoded (transduce chunkedStep d buf)) := by
  obtain ⟨r, hr, hreports⟩ := phrDecodeChunked_spec hd buf
  rw [hr, Option.map_some, hreports.decoded]

/-! ## The decoder between bytes -/

theorem wf_ext_next {d t : PhrChunkedDecoder} {c : UInt8} {out : Bytes} (hd : d.Wf)
    (hnot : d.state ≠ .inChunkSize) (h : chunkedExtStep d c = .next t out) : t.Wf := by
  unfold chunkedExtStep at h
  split at h
  · split at h
    · next hleft =>
      split at h
      · cases h
        exact wf_setState hd hnot hleft (by decide)
      · cases h
    · next hleft =>
      cases h
      exact wf_dataStart hd hnot hleft
  · cases h
    exact hd

/-- The decoder keeps to its counts. -/
theorem wf_next (d : PhrChunkedDecoder) (c : UInt8) (t : PhrChunkedDecoder) (out : Bytes)
    (hd : d.Wf) (h : chunkedStep d c = .next t out) : t.Wf := by
  have hbetween : d.state ≠ .inChunkSize → d.state ≠ .inChunkExt → d.state ≠ .inChunkData →
      ∀ state, state ≠ .inChunkData → ({ d with state } : PhrChunkedDecoder).Wf :=
    fun hsize hext hdata state hstate =>
      wf_setState hd hsize (hd.crlf hsize hext hdata) hstate
  unfold chunkedStep at h
  split at h
  · next hstate =>
    split at h
    · next v hv =>
      split at h
      · cases h
      · next hcount =>
        cases h
        exact wf_addDigit hd hstate hcount hv
    · split at h
      · cases h
      · exact wf_ext_next (wf_extStart hd hstate) ChunkedState.noConfusion h
  · next hstate => exact wf_ext_next hd (by rw [hstate]; decide) h
  · next hstate =>
    have hext := hd.ext (by rw [hstate]; decide)
    have hpos := hd.data hstate
    cases h
    refine ⟨hd.digits, fun hsize => ?_,
      fun _ => ⟨hext.1, Nat.lt_of_le_of_lt (Nat.sub_le ..) hext.2⟩,
      fun hdata => ?_, fun _ _ hdata => ?_⟩
    · dsimp only at hsize
      split at hsize <;> cases hsize
    · dsimp only at hdata ⊢
      split at hdata
      · cases hdata
      · omega
    · dsimp only at hdata ⊢
      split at hdata
      · omega
      · exact absurd rfl hdata
  · next hstate =>
    have hall := hbetween (by rw [hstate]; decide) (by rw [hstate]; decide) (by rw [hstate]; decide)
    split at h
    · cases h
      exact hd
    · split at h
      · cases h
        exact hall _ (by decide)
      · cases h
  · next hstate =>
    have hall := hbetween (by rw [hstate]; decide) (by rw [hstate]; decide) (by rw [hstate]; decide)
    split at h
    · cases h
      exact hd
    · split at h
      · cases h
      · cases h
        exact hall _ (by decide)
  · next hstate =>
    have hall := hbetween (by rw [hstate]; decide) (by rw [hstate]; decide) (by rw [hstate]; decide)
    split at h
    · cases h
      exact hall _ (by decide)
    · cases h
      exact hd

/-- The calls are the transducer on the pieces. -/
theorem decodePieces_transduce {d : PhrChunkedDecoder} (hd : d.Wf) (cuts : List Bytes) :
    decodePieces d cuts = some (toDecoded (transducePieces chunkedStep d cuts)) := by
  induction cuts generalizing d with
  | nil => rfl
  | cons piece cuts ih =>
    obtain ⟨r, hr, hreports⟩ := phrDecodeChunked_spec hd piece
    have hdecoded := hreports.decoded
    rw [decodePieces, transducePieces, hr]
    cases hout : transduce chunkedStep d piece with
    | more t out =>
      have ht : t.Wf := transduce_more wf_next hd hout
      rw [hout] at hdecoded
      simp only [Option.bind_eq_bind, Option.bind_some, hdecoded, toDecoded, if_pos, ih ht]
      cases transducePieces chunkedStep t cuts <;> rfl
    | refused t out rest =>
      rw [hout] at hdecoded
      simp only [Option.bind_eq_bind, Option.bind_some, hdecoded, toDecoded]
      rfl
    | stopped t out rest =>
      rw [hout] at hdecoded
      have hnot : ¬((rest.length : Int) = -2) := by omega
      have hge : ¬((rest.length : Int) < 0) := by omega
      simp only [Option.bind_eq_bind, Option.bind_some, hdecoded, toDecoded, if_neg hnot,
        if_neg hge]
      rfl

/-- **Pieces make no difference** to what is decoded, to what is left and to the return value. -/
theorem decodePieces_eq {d : PhrChunkedDecoder} (hd : d.Wf) (cuts : List Bytes) :
    decodePieces d cuts = (phrDecodeChunked d cuts.flatten).map ChunkedResult.decoded := by
  rw [decodePieces_transduce hd, transducePieces_eq, phrDecodeChunked_decoded hd]

theorem decodePieces_eq_helloChunked :
    decodePieces (.zero true) [helloChunked.take 5, [], helloChunked.drop 5] =
      (phrDecodeChunked (.zero true)
        [helloChunked.take 5, [], helloChunked.drop 5].flatten).map ChunkedResult.decoded :=
  decodePieces_eq (PhrChunkedDecoder.wf_zero true) _

/-! ## A message is decoded -/

variable {b : Bool}

/-- The digits of a size. -/
theorem transduce_digits {digits : Bytes} (h : ∀ c ∈ digits, (decodeHex c).isSome)
    {n count : Nat} (hcount : count + digits.length ≤ 16) (hn : n < 16 ^ count) (more : Bytes) :
    transduce chunkedStep ⟨n, b, count, .inChunkSize⟩ (digits ++ more) =
      transduce chunkedStep ⟨hexValue n digits, b, count + digits.length, .inChunkSize⟩ more := by
  induction digits generalizing n count with
  | nil => rfl
  | cons c digits ih =>
    obtain ⟨v, hv⟩ := Option.isSome_iff_exists.1 (h c List.mem_cons_self)
    have hv16 := decodeHex_lt hv
    rw [List.length_cons] at hcount
    have hfull : count ≠ 16 := by omega
    have hlt : n * 16 + v < 16 ^ (count + 1) := by
      rw [Nat.pow_succ]
      omega
    have hpow : 16 ^ (count + 1) ≤ 2 ^ 64 := Nat.pow_le_pow_right (by decide) (by omega : _ ≤ 16)
    have hnext : chunkedStep ⟨n, b, count, .inChunkSize⟩ c =
        .next ⟨n * 16 + v, b, count + 1, .inChunkSize⟩ [] := by
      simp only [chunkedStep, hv, if_neg hfull, PhrChunkedDecoder.addDigit]
      rw [Nat.mod_eq_of_lt (Nat.lt_of_lt_of_le hlt hpow)]
    rw [List.cons_append, transduce_next hnext, Outcome.after_nil,
      ih (fun x hx => h x (List.mem_cons_of_mem c hx)) (by omega) hlt, List.length_cons,
      Nat.add_comm digits.length 1, ← Nat.add_assoc, hexValue, hexValue, List.foldl_cons, hv]
    rfl

theorem transduce_ext {ext : Bytes} (h : lf ∉ ext) (n : Nat) (more : Bytes) :
    transduce chunkedStep ⟨n, b, 0, .inChunkExt⟩ (ext ++ more) =
      transduce chunkedStep ⟨n, b, 0, .inChunkExt⟩ more := by
  refine transduce_append_of_all (fun c hc => ?_) more
  exact if_neg fun heq : c = lf => h (heq ▸ hc)

theorem decodeHex_lf : decodeHex lf = none := by decide

/-- A size line is read, up to its line feed. -/
theorem transduce_sizeLine {n : Nat} (line : SizeLine n) (more : Bytes) :
    transduce chunkedStep (.zero b) (line.text ++ more) =
      transduce chunkedStep ⟨n, b, 0, .inChunkExt⟩ (lf :: more) := by
  have hcount : 0 + line.digits.length ≠ 0 := by
    rw [Nat.zero_add]
    exact List.length_pos_iff.2 line.digits_ne |>.ne'
  have htext : line.text ++ more = line.digits ++ (line.ext ++ lf :: more) := by
    simp [SizeLine.text]
  have hend : transduce chunkedStep ⟨n, b, 0 + line.digits.length, .inChunkSize⟩
      (line.ext ++ lf :: more) =
        transduce chunkedStep ⟨n, b, 0, .inChunkExt⟩ (line.ext ++ lf :: more) := by
    cases hext : line.ext with
    | nil => exact transduce_size_end rfl decodeHex_lf hcount more
    | cons c ext =>
      exact transduce_size_end rfl (line.ext_head c (by rw [hext]; rfl)) hcount _
  rw [htext, PhrChunkedDecoder.zero, transduce_digits line.hex
    (by rw [Nat.zero_add]; exact line.digits_le) Nat.one_pos, line.value, hend,
    transduce_ext line.ext_line]

theorem transduce_returns {d : PhrChunkedDecoder}
    (hd : d.state = .inChunkCrlf ∨ d.state = .inTrailersLineHead) (n : Nat) (more : Bytes) :
    transduce chunkedStep d (List.replicate n cr ++ more) = transduce chunkedStep d more := by
  refine transduce_append_of_all (fun c hc => ?_) more
  rw [List.eq_of_mem_replicate hc]
  rcases hd with hd | hd <;> simp only [chunkedStep, hd, if_pos]

/-- A chunk gives its data. -/
theorem transduce_chunk (chunk : Chunk) (more : Bytes) :
    transduce chunkedStep (.zero b) (chunk.text ++ more) =
      (transduce chunkedStep (.zero b) more).after chunk.data := by
  have hpos : 0 < chunk.data.length := List.length_pos_iff.2 chunk.data_ne
  have htext : chunk.text ++ more = chunk.size.text ++
      (chunk.data ++ (List.replicate chunk.returns cr ++ lf :: more)) := by
    simp [Chunk.text]
  have hlf : chunkedStep ⟨chunk.data.length, b, 0, .inChunkExt⟩ lf =
      .next ⟨chunk.data.length, b, 0, .inChunkData⟩ [] := by
    simp only [chunkedStep, chunkedExtStep, if_pos, if_neg hpos.ne']
  have hend : chunkedStep ⟨0, b, 0, .inChunkCrlf⟩ lf = .next (.zero b) [] := rfl
  rw [htext, transduce_sizeLine, transduce_next hlf, Outcome.after_nil,
    transduce_data chunk.data rfl rfl hpos, transduce_returns (.inl rfl), transduce_next hend,
    Outcome.after_nil]

theorem transduce_trailerLine (line : TrailerLine) (more : Bytes) :
    transduce chunkedStep ⟨0, b, 0, .inTrailersLineHead⟩ (line.text ++ more) =
      transduce chunkedStep ⟨0, b, 0, .inTrailersLineHead⟩ more := by
  have htext : line.text ++ more = List.replicate line.returns cr ++
      line.first :: (line.more ++ lf :: more) := by
    simp [TrailerLine.text]
  have hfirst : chunkedStep ⟨0, b, 0, .inTrailersLineHead⟩ line.first =
      .next ⟨0, b, 0, .inTrailersLineMiddle⟩ [] := by
    simp only [chunkedStep, if_neg line.first_ne_cr, if_neg line.first_ne_lf]
  have hmiddle : ∀ c ∈ line.more, chunkedStep ⟨0, b, 0, .inTrailersLineMiddle⟩ c =
      .next ⟨0, b, 0, .inTrailersLineMiddle⟩ [] := by
    intro c hc
    exact if_neg fun heq : c = lf => line.more_line (heq ▸ hc)
  have hend : chunkedStep ⟨0, b, 0, .inTrailersLineMiddle⟩ lf =
      .next ⟨0, b, 0, .inTrailersLineHead⟩ [] := rfl
  rw [htext, transduce_returns (.inr rfl), transduce_next hfirst, Outcome.after_nil,
    transduce_append_of_all hmiddle, transduce_next hend, Outcome.after_nil]

/-- Lines until an empty one. -/
theorem transduce_trailer (trailer : List TrailerLine) (n : Nat) (rest : Bytes) :
    transduce chunkedStep ⟨0, b, 0, .inTrailersLineHead⟩
        (trailer.flatMap TrailerLine.text ++ (List.replicate n cr ++ [lf]) ++ rest) =
      .stopped ⟨0, b, 0, .inTrailersLineHead⟩ [] rest := by
  induction trailer with
  | nil =>
    rw [List.flatMap_nil, List.nil_append, List.append_assoc, transduce_returns (.inr rfl)]
    rfl
  | cons line trailer ih =>
    rw [List.flatMap_cons, List.append_assoc, List.append_assoc, transduce_trailerLine,
      ← List.append_assoc, ih]

/-- Where the decoder is when it has read a message. -/
def endOfMessage (b : Bool) : PhrChunkedDecoder :=
  ⟨0, b, 0, if b then .inTrailersLineHead else .inChunkExt⟩

theorem transduce_last (m : ChunkedMessage) (rest : Bytes) :
    transduce chunkedStep (.zero b)
        (m.last.text ++ (if b then m.trailerText else []) ++ rest) =
      .stopped (endOfMessage b) [] rest := by
  rw [List.append_assoc, transduce_sizeLine]
  cases b with
  | false => rfl
  | true =>
    have hnext : chunkedStep ⟨0, true, 0, .inChunkExt⟩ lf =
        .next ⟨0, true, 0, .inTrailersLineHead⟩ [] := rfl
    rw [transduce_next hnext, Outcome.after_nil]
    exact transduce_trailer m.trailer m.returns rest

theorem transduce_message (m : ChunkedMessage) (rest : Bytes) :
    transduce chunkedStep (.zero b) (m.text b ++ rest) =
      .stopped (endOfMessage b) m.data rest := by
  have hchunks : ∀ (chunks : List Chunk) (more : Bytes),
      transduce chunkedStep (.zero b) (chunks.flatMap Chunk.text ++ more) =
        (transduce chunkedStep (.zero b) more).after (chunks.flatMap Chunk.data) := by
    intro chunks more
    induction chunks with
    | nil => exact (Outcome.after_nil _).symm
    | cons chunk chunks ih =>
      rw [List.flatMap_cons, List.append_assoc, transduce_chunk, ih, Outcome.after_after]
      rfl
  rw [ChunkedMessage.text, List.append_assoc, hchunks, transduce_last]
  exact congrArg (fun out => Outcome.stopped _ out rest) (List.append_nil _)

/-! ## What is decoded is a message -/

variable {buf out rest : Bytes} {t : PhrChunkedDecoder}

theorem exists_digits_of_stopped {n count : Nat} (hcount : count ≤ 16) (hn : n < 16 ^ count)
    (h : transduce chunkedStep ⟨n, b, count, .inChunkSize⟩ buf = .stopped t out rest) :
    ∃ digits c more, buf = digits ++ c :: more ∧ (∀ x ∈ digits, (decodeHex x).isSome) ∧
      count + digits.length ≤ 16 ∧ 0 < count + digits.length ∧ decodeHex c = none ∧
      transduce chunkedStep ⟨hexValue n digits, b, 0, .inChunkExt⟩ (c :: more) =
        .stopped t out rest := by
  induction buf generalizing n count with
  | nil => cases h
  | cons c buf ih =>
    cases hv : decodeHex c with
    | none =>
      by_cases hzero : count = 0
      · have hrefuse : chunkedStep ⟨n, b, count, .inChunkSize⟩ c = .refuse := by
          simp only [chunkedStep, hv, if_pos hzero]
        rw [transduce_refuse hrefuse] at h
        cases h
      · rw [transduce_size_end rfl hv hzero] at h
        exact ⟨[], c, buf, rfl, fun _ hx => absurd hx List.not_mem_nil, hcount,
          Nat.pos_of_ne_zero hzero, hv, h⟩
    | some v =>
      by_cases hfull : count = 16
      · have hrefuse : chunkedStep ⟨n, b, count, .inChunkSize⟩ c = .refuse := by
          simp only [chunkedStep, hv, if_pos hfull]
        rw [transduce_refuse hrefuse] at h
        cases h
      · have hdigit : ∀ x ∈ [c], (decodeHex x).isSome := by simp [hv]
        rw [← List.singleton_append, transduce_digits hdigit
          (Nat.succ_le_of_lt (Nat.lt_of_le_of_ne hcount hfull)) hn buf] at h
        have hlt : hexValue n [c] < 16 ^ (count + [c].length) := by
          have := decodeHex_lt hv
          rw [List.length_singleton, Nat.pow_succ, hexValue, List.foldl_cons, hv]
          dsimp only [List.foldl_nil, Option.getD_some]
          omega
        obtain ⟨digits, c', more, rfl, hhex, hle, -, hc', hmore⟩ :=
          ih (Nat.succ_le_of_lt (Nat.lt_of_le_of_ne hcount hfull)) hlt h
        refine ⟨c :: digits, c', more, rfl, ?_, ?_, ?_, hc', hmore⟩
        · exact List.forall_mem_cons.2 ⟨by rw [hv]; rfl, hhex⟩
        · rw [List.length_cons]
          omega
        · rw [List.length_cons]
          omega

/-- A loop that only a line feed ends. -/
theorem exists_line_of_stopped {d : PhrChunkedDecoder}
    (hother : ∀ c, c ≠ lf → chunkedStep d c = .next d [])
    (h : transduce chunkedStep d buf = .stopped t out rest) :
    ∃ line more, buf = line ++ lf :: more ∧ lf ∉ line ∧
      transduce chunkedStep d (lf :: more) = .stopped t out rest := by
  obtain ⟨line, c, more, hbuf, hline, hc, hmore⟩ := exists_of_stopped_loop (p := fun c => c != lf)
    (fun c hc => hother c (bne_iff_ne.1 hc)) h
  rw [bne_eq_false_iff_eq] at hc
  subst hc
  exact ⟨line, more, hbuf, fun hmem => bne_iff_ne.1 (hline lf hmem) rfl, hmore⟩

theorem exists_returns_of_stopped {d : PhrChunkedDecoder}
    (hd : d.state = .inChunkCrlf ∨ d.state = .inTrailersLineHead)
    (h : transduce chunkedStep d buf = .stopped t out rest) :
    ∃ n c more, buf = List.replicate n cr ++ c :: more ∧ c ≠ cr ∧
      transduce chunkedStep d (c :: more) = .stopped t out rest := by
  have hreturn : ∀ c, (c == cr) = true → chunkedStep d c = .next d [] := by
    intro c hc
    rw [eq_of_beq hc]
    rcases hd with hd | hd <;> simp only [chunkedStep, hd, if_pos]
  obtain ⟨passed, c, more, hbuf, hpassed, hc, hmore⟩ := exists_of_stopped_loop hreturn h
  have hreplicate : passed = List.replicate passed.length cr :=
    List.eq_replicate_iff.2 ⟨rfl, fun x hx => eq_of_beq (hpassed x hx)⟩
  exact ⟨passed.length, c, more, by rw [← hreplicate, hbuf], ne_of_beq_false hc, hmore⟩

theorem exists_sizeLine_of_stopped
    (h : transduce chunkedStep (.zero b) buf = .stopped t out rest) :
    ∃ n, ∃ line : SizeLine n, ∃ more, buf = line.text ++ more ∧
      transduce chunkedStep ⟨n, b, 0, .inChunkExt⟩ (lf :: more) = .stopped t out rest := by
  obtain ⟨digits, c, more, rfl, hhex, hle, hpos, hc, hmore⟩ :=
    exists_digits_of_stopped (Nat.zero_le _) Nat.one_pos h
  rw [Nat.zero_add] at hle hpos
  obtain ⟨ext, later, hext, hline, hlater⟩ := exists_line_of_stopped
    (fun x hx => by exact if_neg hx) hmore
  have hhead : ∀ x, ext.head? = some x → decodeHex x = none := by
    intro x hx
    cases ext with
    | nil => cases hx
    | cons y ext =>
      cases hx
      rw [List.cons_append, List.cons.injEq] at hext
      rw [← hext.1]
      exact hc
  refine ⟨hexValue 0 digits, ⟨digits, ext, hhex, List.length_pos_iff.1 hpos, hle, rfl, hhead,
    hline⟩, later, ?_, hlater⟩
  rw [hext]
  simp [SizeLine.text]

theorem exists_data_of_stopped {n : Nat} (hpos : 0 < n)
    (h : transduce chunkedStep ⟨n, b, 0, .inChunkData⟩ buf = .stopped t out rest) :
    ∃ data more out', buf = data ++ more ∧ data.length = n ∧ out = data ++ out' ∧
      transduce chunkedStep ⟨0, b, 0, .inChunkCrlf⟩ more = .stopped t out' rest := by
  rcases Nat.lt_or_ge buf.length n with hlt | hge
  · rw [transduce_data_part rfl hlt] at h
    cases h
  · have htake : (buf.take n).length = n := by
      rw [List.length_take]
      omega
    rw [← List.take_append_drop n buf, transduce_data _ rfl htake hpos] at h
    obtain ⟨out', hout', hout⟩ := Outcome.after_eq_stopped h
    exact ⟨buf.take n, buf.drop n, out', (List.take_append_drop n buf).symm, htake, hout, hout'⟩

theorem exists_trailer_of_stopped {size : Nat} (hsize : buf.length ≤ size)
    (h : transduce chunkedStep ⟨0, b, 0, .inTrailersLineHead⟩ buf = .stopped t out rest) :
    ∃ (trailer : List TrailerLine) (n : Nat),
      buf = trailer.flatMap TrailerLine.text ++ (List.replicate n cr ++ [lf]) ++ rest ∧
        out = [] := by
  induction size generalizing buf with
  | zero =>
    rw [List.eq_nil_of_length_eq_zero (Nat.le_zero.1 hsize)] at h
    cases h
  | succ size ih =>
    obtain ⟨n, c, more, rfl, hcr, hmore⟩ := exists_returns_of_stopped (.inr rfl) h
    by_cases hlf : c = lf
    · subst hlf
      have hstop : chunkedStep ⟨0, b, 0, .inTrailersLineHead⟩ lf =
          .stop ⟨0, b, 0, .inTrailersLineHead⟩ := rfl
      rw [transduce_stop hstop] at hmore
      cases hmore
      exact ⟨[], n, by simp, rfl⟩
    · have hnext : chunkedStep ⟨0, b, 0, .inTrailersLineHead⟩ c =
          .next ⟨0, b, 0, .inTrailersLineMiddle⟩ [] := by
        simp only [chunkedStep, if_neg hcr, if_neg hlf]
      rw [transduce_next hnext, Outcome.after_nil] at hmore
      obtain ⟨line, later, rfl, hline, hlater⟩ := exists_line_of_stopped
        (fun x hx => by exact if_neg hx) hmore
      have hend : chunkedStep ⟨0, b, 0, .inTrailersLineMiddle⟩ lf =
          .next ⟨0, b, 0, .inTrailersLineHead⟩ [] := rfl
      rw [transduce_next hend, Outcome.after_nil] at hlater
      simp only [List.length_append, List.length_cons, List.length_replicate] at hsize
      obtain ⟨trailer, n', rfl, hout⟩ := ih (by omega) hlater
      exact ⟨⟨n, c, line, hcr, hlf, hline⟩ :: trailer, n', by simp [TrailerLine.text], hout⟩

theorem exists_message_of_stopped {size : Nat} (hsize : buf.length ≤ size)
    (h : transduce chunkedStep (.zero b) buf = .stopped t out rest) :
    ∃ m : ChunkedMessage, buf = m.text b ++ rest ∧ out = m.data := by
  induction size generalizing buf out with
  | zero =>
    rw [List.eq_nil_of_length_eq_zero (Nat.le_zero.1 hsize)] at h
    cases h
  | succ size ih =>
    obtain ⟨n, line, more, rfl, hmore⟩ := exists_sizeLine_of_stopped h
    rcases Nat.eq_zero_or_pos n with rfl | hpos
    · cases b with
      | false =>
        have hstop : chunkedStep ⟨0, false, 0, .inChunkExt⟩ lf =
            .stop ⟨0, false, 0, .inChunkExt⟩ := rfl
        rw [transduce_stop hstop] at hmore
        cases hmore
        exact ⟨⟨[], line, [], 0⟩, by simp [ChunkedMessage.text], rfl⟩
      | true =>
        have hnext : chunkedStep ⟨0, true, 0, .inChunkExt⟩ lf =
            .next ⟨0, true, 0, .inTrailersLineHead⟩ [] := rfl
        rw [transduce_next hnext, Outcome.after_nil] at hmore
        obtain ⟨trailer, returns, rfl, hout⟩ := exists_trailer_of_stopped (Nat.le_refl _) hmore
        exact ⟨⟨[], line, trailer, returns⟩,
          by simp [ChunkedMessage.text, ChunkedMessage.trailerText], hout⟩
    · have hnext : chunkedStep ⟨n, b, 0, .inChunkExt⟩ lf =
          .next ⟨n, b, 0, .inChunkData⟩ [] := by
        simp only [chunkedStep, chunkedExtStep, if_pos, if_neg hpos.ne']
      rw [transduce_next hnext, Outcome.after_nil] at hmore
      obtain ⟨data, afterData, out', rfl, rfl, rfl, hdata⟩ := exists_data_of_stopped hpos hmore
      obtain ⟨returns, c, later, rfl, hcr, hlater⟩ := exists_returns_of_stopped (.inl rfl) hdata
      by_cases hlf : c = lf
      · subst hlf
        have hend : chunkedStep ⟨0, b, 0, .inChunkCrlf⟩ lf = .next (.zero b) [] := rfl
        rw [transduce_next hend, Outcome.after_nil] at hlater
        simp only [List.length_append, List.length_cons] at hsize
        obtain ⟨m, rfl, rfl⟩ := ih (by omega) hlater
        exact ⟨{ m with chunks := ⟨data, List.length_pos_iff.1 hpos, line, returns⟩ :: m.chunks },
          by simp [ChunkedMessage.text, Chunk.text, ChunkedMessage.trailerText], rfl⟩
      · have hrefuse : chunkedStep ⟨0, b, 0, .inChunkCrlf⟩ c = .refuse := by
          simp only [chunkedStep, if_neg hcr, if_neg hlf]
        rw [transduce_refuse hrefuse] at hlater
        cases hlater

/-! ## The decoder can always be brought to an end -/

/-- Some bytes end the message. -/
def Stops (d : PhrChunkedDecoder) : Prop :=
  ∃ as t out, transduce chunkedStep d as = .stopped t out []

variable {d : PhrChunkedDecoder}

theorem stops_of_stop {c : UInt8} (h : chunkedStep d c = .stop t) : Stops d :=
  ⟨[c], t, [], transduce_stop h []⟩

theorem stops_of_next {c : UInt8} (h : chunkedStep d c = .next t out) (ht : Stops t) :
    Stops d := by
  obtain ⟨as, u, out', hu⟩ := ht
  exact ⟨c :: as, u, out ++ out', by rw [transduce_next h, hu]; rfl⟩

theorem stops_head (hstate : d.state = .inTrailersLineHead) : Stops d := by
  have hcr : lf ≠ cr := by decide
  have hstop : chunkedStep d lf = .stop d := by
    simp only [chunkedStep, hstate, if_neg hcr, if_pos]
  exact stops_of_stop hstop

/-- Where the line of a size ends, as far as the data allows it. -/
theorem stops_of_extStep {e : PhrChunkedDecoder} (h : chunkedStep d lf = chunkedExtStep e lf)
    (hdata : e.bytesLeftInChunk ≠ 0 → Stops { e with state := .inChunkData }) : Stops d := by
  rw [chunkedExtStep, if_pos rfl] at h
  split at h
  · split at h
    · exact stops_of_next h (stops_head rfl)
    · exact stops_of_stop h
  · next hleft => exact stops_of_next h (hdata hleft)

/-- Between chunks. -/
theorem stops_zero (b : Bool) : Stops (.zero b) := by
  have hzero : chunkedStep (.zero b) 0x30 = .next ⟨0, b, 1, .inChunkSize⟩ [] := rfl
  refine stops_of_next hzero ?_
  exact stops_of_extStep (e := ⟨0, b, 0, .inChunkExt⟩) rfl fun hleft => absurd rfl hleft

theorem stops_crlf (hd : d.Wf) (hstate : d.state = .inChunkCrlf) : Stops d := by
  have hnot : d.state ≠ .inChunkSize := by rw [hstate]; decide
  have hleft := hd.crlf hnot (by rw [hstate]; decide) (by rw [hstate]; decide)
  have hcount := (hd.ext hnot).1
  have hcr : lf ≠ cr := by decide
  have hnext : chunkedStep d lf = .next (.zero d.consumeTrailer) [] := by
    simp only [chunkedStep, hstate, if_neg hcr, if_pos, PhrChunkedDecoder.zero, hleft, hcount]
  exact stops_of_next hnext (stops_zero _)

theorem stops_data {n : Nat} (hd : d.Wf) (hstate : d.state = .inChunkData)
    (hn : d.bytesLeftInChunk = n) : Stops d := by
  induction n generalizing d with
  | zero =>
    have hpos := hd.data hstate
    omega
  | succ n ih =>
    have hstep := chunkedStep_data hstate 0
    have hwf := wf_next _ _ _ _ hd hstep
    by_cases hone : d.bytesLeftInChunk = 1
    · exact stops_of_next hstep (stops_crlf hwf (if_pos hone))
    · exact stops_of_next hstep (ih hwf (if_neg hone) (by dsimp only; omega))

theorem stops (d : PhrChunkedDecoder) (hd : d.Wf) : Stops d := by
  have hdata : ∀ e : PhrChunkedDecoder, e.Wf → e.state = .inChunkExt →
      e.bytesLeftInChunk ≠ 0 → Stops { e with state := .inChunkData } := by
    intro e he hstate hleft
    exact stops_data (wf_dataStart he (by rw [hstate]; decide) hleft) rfl rfl
  cases hstate : d.state with
  | inChunkSize =>
    by_cases hcount : d.hexCount = 0
    · have hleft := hd.size hstate
      rw [hcount, Nat.pow_zero, Nat.lt_one_iff] at hleft
      have hzero : d = .zero d.consumeTrailer := by
        cases d
        dsimp only at hcount hleft hstate ⊢
        rw [hcount, hleft, hstate]
        rfl
      exact hzero ▸ stops_zero _
    · refine stops_of_extStep (e := { d with hexCount := 0, state := .inChunkExt }) ?_
        (hdata _ (wf_extStart hd hstate) rfl)
      simp only [chunkedStep, hstate, decodeHex_lf, if_neg hcount]
  | inChunkExt =>
    refine stops_of_extStep ?_ (hdata d hd hstate)
    simp only [chunkedStep, hstate]
  | inChunkData => exact stops_data hd hstate rfl
  | inChunkCrlf => exact stops_crlf hd hstate
  | inTrailersLineHead => exact stops_head hstate
  | inTrailersLineMiddle =>
    have hnext : chunkedStep d lf = .next { d with state := .inTrailersLineHead } [] := by
      simp only [chunkedStep, hstate, if_pos]
    exact stops_of_next hnext (stops_head rfl)

/-! ## What the decoder reads -/

/-- A message is at the front of the bytes. -/
def BeginsMessage (consumeTrailer : Bool) (buf : Bytes) : Prop :=
  ∃ (m : ChunkedMessage) (rest : Bytes), buf = m.text consumeTrailer ++ rest

theorem stopped_iff (b : Bool) (buf data rest : Bytes) :
    (∃ t, transduce chunkedStep (.zero b) buf = .stopped t data rest) ↔
      ∃ m : ChunkedMessage, buf = m.text b ++ rest ∧ data = m.data := by
  constructor
  · rintro ⟨t, h⟩
    exact exists_message_of_stopped (Nat.le_refl _) h
  · rintro ⟨m, rfl, rfl⟩
    exact ⟨_, transduce_message m rest⟩

theorem beginsMessage_iff (b : Bool) (buf : Bytes) : BeginsMessage b buf ↔
    ∃ t out rest, transduce chunkedStep (.zero b) buf = .stopped t out rest := by
  constructor
  · rintro ⟨m, rest, rfl⟩
    exact ⟨_, _, _, transduce_message m rest⟩
  · rintro ⟨t, out, rest, h⟩
    obtain ⟨m, hbuf, -⟩ := exists_message_of_stopped (Nat.le_refl _) h
    exact ⟨m, rest, hbuf⟩

/-- **What is decoded.** From the first byte on, the decoder gives `data` and leaves `rest` if and
only if a message with this data is in front of `rest`. -/
theorem phrDecodeChunked_complete_iff (consumeTrailer : Bool) (buf data rest : Bytes) :
    (∃ r, phrDecodeChunked (.zero consumeTrailer) buf = some r ∧ r.ret = rest.length ∧
        r.buf.take r.bufsz = data ∧ (r.buf.drop r.bufsz).take rest.length = rest) ↔
      ∃ m : ChunkedMessage, buf = m.text consumeTrailer ++ rest ∧ data = m.data := by
  rw [← stopped_iff]
  obtain ⟨r, hr, hreports⟩ := phrDecodeChunked_spec (PhrChunkedDecoder.wf_zero consumeTrailer) buf
  have hdecoded := hreports.decoded
  rw [hr]
  constructor
  · rintro ⟨r', hr', hret, hdata, hrest⟩
    cases hr'
    have hdata' : r.decoded.data = data := hdata
    have hrest' : r.decoded.undecoded = rest := by
      unfold ChunkedResult.decoded
      rw [hret, Int.toNat_natCast]
      exact hrest
    have hret' : r.decoded.ret = rest.length := hret
    rw [hdecoded] at hdata' hrest' hret'
    cases hout : transduce chunkedStep (.zero consumeTrailer) buf with
    | more t out =>
      rw [hout] at hret'
      exact absurd hret' (by dsimp only [toDecoded]; omega)
    | refused t out rest' =>
      rw [hout] at hret'
      exact absurd hret' (by dsimp only [toDecoded]; omega)
    | stopped t out rest' =>
      rw [hout] at hdata' hrest'
      exact ⟨t, congrArg₂ (Outcome.stopped t) hdata' hrest'⟩
  · rintro ⟨t, hout⟩
    rw [hout] at hreports
    obtain ⟨hret, -, hsize, hprefix⟩ := hreports.told
    obtain ⟨htake, hdrop⟩ := take_of_append_isPrefix hprefix
    rw [← hsize] at htake hdrop
    exact ⟨r, rfl, hret, htake, hdrop⟩

/-- **What is incomplete.** The decoder returns -2 if and only if the bytes do not begin with a
message, but do so with some more bytes; it returns -1 if and only if no bytes help. -/
theorem phrDecodeChunked_incomplete_iff (consumeTrailer : Bool) (buf : Bytes) :
    ((∃ r, phrDecodeChunked (.zero consumeTrailer) buf = some r ∧ r.ret = -2) ↔
      ¬BeginsMessage consumeTrailer buf ∧ ∃ more, BeginsMessage consumeTrailer (buf ++ more)) ∧
    ((∃ r, phrDecodeChunked (.zero consumeTrailer) buf = some r ∧ r.ret = -1) ↔
      ∀ more, ¬BeginsMessage consumeTrailer (buf ++ more)) := by
  obtain ⟨r, hr, hreports⟩ := phrDecodeChunked_spec (PhrChunkedDecoder.wf_zero consumeTrailer) buf
  have hret : r.ret = (toDecoded (transduce chunkedStep (.zero consumeTrailer) buf)).ret :=
    congrArg Decoded.ret hreports.decoded
  have hmore := transduce_more_iff wf_next stops (PhrChunkedDecoder.wf_zero consumeTrailer) buf
  have hresult : ∀ k, (∃ r, phrDecodeChunked (.zero consumeTrailer) buf = some r ∧ r.ret = k) ↔
      (toDecoded (transduce chunkedStep (.zero consumeTrailer) buf)).ret = k := by
    intro k
    rw [hr, ← hret]
    simp
  simp only [beginsMessage_iff, hresult]
  rw [← hmore]
  cases hout : transduce chunkedStep (.zero consumeTrailer) buf with
  | more t out =>
    have hret' : (toDecoded (.more t out)).ret ≠ -1 := by
      dsimp only [toDecoded]
      decide
    refine ⟨iff_of_true rfl ⟨t, out, rfl⟩, iff_of_false hret' fun hnone => ?_⟩
    obtain ⟨-, more, hstopped⟩ := hmore.1 ⟨t, out, hout⟩
    exact hnone more hstopped
  | refused t out rest =>
    have hret' : (toDecoded (.refused t out rest)).ret ≠ -2 := by
      dsimp only [toDecoded]
      decide
    refine ⟨iff_of_false hret' nofun, iff_of_true rfl fun more => ?_⟩
    rw [transduce_append_of_refused hout]
    nofun
  | stopped t out rest =>
    have hge : 0 ≤ (toDecoded (.stopped t out rest)).ret := Int.natCast_nonneg _
    refine ⟨iff_of_false (by omega) nofun, iff_of_false (by omega) fun hnone => ?_⟩
    refine hnone [] ⟨t, out, rest, ?_⟩
    rw [List.append_nil, hout]

end GameServer.Http
