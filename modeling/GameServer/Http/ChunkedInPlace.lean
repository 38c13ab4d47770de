import GameServer.Http.ChunkedDecoder

/-!
# The decoder works in place

`dst` never passes `src`, so no byte is overwritten before it is read, and every loop reads on. Each
case of the `switch` does to the bytes from `src` on what the transducer does (`keeps_switch`), so
the whole call does, and the bytes that it decodes or leaves stay what they were
(`phrDecodeChunked_spec`).
-/

namespace GameServer.Http

open GameServer.Lib

/-! ## The loops -/

variable {p : UInt8 → Bool}

theorem scan_eq_none {rest : Bytes} {src : Nat} (h : scan p rest src = none) :
    ∀ c ∈ rest, p c = false := by
  induction rest generalizing src with
  | nil => exact fun _ hc => absurd hc List.not_mem_nil
  | cons c rest ih =>
    rw [scan] at h
    split at h
    · cases h
    · next hc => exact List.forall_mem_cons.2 ⟨Bool.eq_false_iff.2 hc, ih h⟩

/-- The loop passes bytes without `p` and ends at one with it. -/
theorem scan_eq_some {rest : Bytes} {src k : Nat} (h : scan p rest src = some k) :
    ∃ passed c more, rest = passed ++ c :: more ∧ k = src + passed.length ∧
      (∀ x ∈ passed, p x = false) ∧ p c = true := by
  induction rest generalizing src with
  | nil => cases h
  | cons c rest ih =>
    rw [scan] at h
    split at h
    · next hc =>
      cases h
      exact ⟨[], c, rest, rfl, rfl, fun _ hx => absurd hx List.not_mem_nil, hc⟩
    · next hc =>
      obtain ⟨passed, c', more, rfl, hk, hpassed, hc'⟩ := ih h
      refine ⟨c :: passed, c', more, rfl, ?_, ?_, hc'⟩
      · rw [hk, List.length_cons]
        omega
      · exact List.forall_mem_cons.2 ⟨Bool.eq_false_iff.2 hc, hpassed⟩

/-! ## The bytes -/

namespace ChunkedLocals

structure Bounds (l : ChunkedLocals) : Prop where
  dst_le : l.dst ≤ l.src
  src_le : l.src ≤ l.buf.length

/-- A byte in front of which some were passed. -/
structure Found (l : ChunkedLocals) (src : Nat) (passed : Bytes) (c : UInt8) (more : Bytes) :
    Prop where
  rest : l.rest = passed ++ c :: more
  src : src = l.src + passed.length

variable {l : ChunkedLocals} {src : Nat} {c : UInt8} {passed more : Bytes}

theorem Found.drop (h : l.Found src passed c more) : l.buf.drop src = c :: more := by
  rw [h.src, ← List.drop_drop]
  exact (congrArg (List.drop passed.length) h.rest).trans List.drop_left

theorem Found.drop_succ (h : l.Found src passed c more) : l.buf.drop (src + 1) = more := by
  rw [← List.drop_drop, h.drop]
  rfl

theorem Found.lt (h : l.Found src passed c more) : src < l.buf.length := by
  have hlen := congrArg List.length h.drop
  rw [List.length_drop, List.length_cons] at hlen
  omega

theorem Found.le (h : l.Found src passed c more) : l.src ≤ src := by
  rw [h.src]
  exact Nat.le_add_right ..

theorem Found.getD (h : l.Found src passed c more) : l.buf.getD src 0 = c := by
  have hget := congrArg List.head? h.drop
  rw [List.head?_drop] at hget
  rw [List.getD_eq_getElem?_getD, hget]
  rfl

theorem length_memmove {buf : Bytes} {dst src n : Nat} (hdst : dst ≤ src)
    (hn : src + n ≤ buf.length) : (memmove buf dst src n).length = buf.length := by
  unfold memmove
  simp only [List.length_append, List.length_take, List.length_drop]
  omega

theorem length_moveDown (h : l.Bounds) {n : Nat} (hn : l.src + n ≤ l.buf.length) :
    (l.moveDown n).length = l.buf.length := by
  unfold moveDown
  split
  · exact length_memmove h.dst_le hn
  · rfl

/-- The bytes that were moved are behind those that were decoded. -/
theorem take_moveDown (h : l.Bounds) {n : Nat} (hn : l.src + n ≤ l.buf.length) :
    (l.moveDown n).take (l.dst + n) = l.decoded ++ l.rest.take n := by
  have hle := h.dst_le
  unfold moveDown decoded rest
  split
  · have hlen : (l.buf.take l.dst ++ (l.buf.drop l.src).take n).length = l.dst + n := by
      simp only [List.length_append, List.length_take, List.length_drop]
      omega
    unfold memmove
    rw [List.take_append_of_le_length (Nat.le_of_eq hlen.symm), ← hlen, List.take_length]
  · next heq =>
    rw [not_not] at heq
    rw [heq, List.take_add]

/-- The bytes behind those that were moved stay. -/
theorem drop_moveDown (h : l.Bounds) {n : Nat} (hn : l.src + n ≤ l.buf.length) :
    (l.moveDown n).drop (l.src + n) = l.buf.drop (l.src + n) := by
  have hle := h.dst_le
  unfold moveDown
  split
  · have hlen : (l.buf.take l.dst ++ (l.buf.drop l.src).take n).length = l.dst + n := by
      simp only [List.length_append, List.length_take, List.length_drop]
      omega
    have hgap : l.src + n = l.dst + n + (l.src - l.dst) := by omega
    unfold memmove
    rw [hgap, ← List.drop_drop, ← hlen, List.drop_left, hlen, List.drop_drop]
  · rfl

/-! ## One turn -/

/-- What the decoder does with the bytes from `src` on, with what is decoded already. -/
def outcome (l : ChunkedLocals) : Outcome PhrChunkedDecoder UInt8 UInt8 :=
  (transduce chunkedStep l.decoder l.rest).after l.decoded

structure Ready (l : ChunkedLocals) : Prop where
  bounds : l.Bounds
  wf : l.decoder.Wf

end ChunkedLocals

/-- A turn keeps the outcome and the length of the buffer; a turn that does not leave the loop reads
a byte. -/
def ChunkedFlow.Keeps (l : ChunkedLocals) : ChunkedFlow → Prop
  | turn l' => l'.Ready ∧ l'.buf.length = l.buf.length ∧ l.src < l'.src ∧ l'.outcome = l.outcome
  | exit ret l' => l'.Bounds ∧ l'.buf.length = l.buf.length ∧
    (ret = -2 ∧ l.outcome = .more l'.decoder l'.decoded ∨
      ret = -1 ∧ l.outcome = .refused l'.decoder l'.decoded l'.rest)
  | complete l' => l'.Bounds ∧ l'.buf.length = l.buf.length ∧
    l.outcome = .stopped l'.decoder l'.decoded l'.rest

namespace ChunkedLocals

variable {l : ChunkedLocals} {src : Nat} {c : UInt8} {passed more : Bytes}

theorem keeps_trans {l₁ : ChunkedLocals} {flow : ChunkedFlow} (hsrc : l.src ≤ l₁.src)
    (hlen : l₁.buf.length = l.buf.length) (hout : l₁.outcome = l.outcome)
    (h : flow.Keeps l₁) : flow.Keeps l := by
  cases flow with
  | turn l' =>
    obtain ⟨hready, hlength, hlt, houtcome⟩ := h
    exact ⟨hready, hlength.trans hlen, Nat.lt_of_le_of_lt hsrc hlt, houtcome.trans hout⟩
  | exit ret l' =>
    obtain ⟨hbounds, hlength, hcases⟩ := h
    rw [hout] at hcases
    exact ⟨hbounds, hlength.trans hlen, hcases⟩
  | complete l' =>
    obtain ⟨hbounds, hlength, houtcome⟩ := h
    exact ⟨hbounds, hlength.trans hlen, hout ▸ houtcome⟩

/-- A loop that does not end before the buffer does. -/
theorem keeps_exhausted (h : l.Bounds)
    (hloop : ∀ c ∈ l.rest, chunkedStep l.decoder c = .next l.decoder []) :
    l.exhausted.Keeps l := by
  have hrest : transduce chunkedStep l.decoder l.rest = .more l.decoder [] := by
    rw [← List.append_nil l.rest, transduce_append_of_all hloop, transduce_nil]
  refine ⟨⟨Nat.le_trans h.dst_le h.src_le, Nat.le_refl _⟩, rfl, .inl ⟨rfl, ?_⟩⟩
  unfold outcome
  rw [hrest]
  exact congrArg (Outcome.more _) (List.append_nil _)

/-- A loop that ends at the byte `c`. -/
theorem Found.outcome (h : l.Found src passed c more)
    (hloop : ∀ x ∈ passed, chunkedStep l.decoder x = .next l.decoder []) :
    l.outcome = (transduce chunkedStep l.decoder (c :: more)).after l.decoded := by
  unfold ChunkedLocals.outcome
  rw [h.rest, transduce_append_of_all hloop]

/-- The byte `c` is read. -/
theorem Found.bounds (h : l.Found src passed c more) (hl : l.Bounds) (decoder : PhrChunkedDecoder) :
    ({ l with decoder, src := src + 1 } : ChunkedLocals).Bounds where
  dst_le := Nat.le_succ_of_le (Nat.le_trans hl.dst_le h.le)
  src_le := h.lt

/-- The byte `c` is read, and the decoder goes on with the next one. -/
theorem Found.outcome_next (h : l.Found src passed c more)
    (hloop : ∀ x ∈ passed, chunkedStep l.decoder x = .next l.decoder [])
    {decoder : PhrChunkedDecoder} (hc : chunkedStep l.decoder c = .next decoder []) :
    ({ l with decoder, src := src + 1 } : ChunkedLocals).outcome = l.outcome := by
  rw [h.outcome hloop, transduce_next hc, Outcome.after_nil, ChunkedLocals.outcome,
    ChunkedLocals.rest, h.drop_succ]
  rfl

theorem found_of_scan {p : UInt8 → Bool} {k : Nat} (h : scan p l.rest l.src = some k) :
    ∃ passed c more, l.Found k passed c more ∧ (∀ x ∈ passed, p x = false) ∧ p c = true := by
  obtain ⟨passed, c, more, hrest, hk, hpassed, hc⟩ := scan_eq_some h
  exact ⟨passed, c, more, ⟨hrest, hk⟩, hpassed, hc⟩

theorem wf_setState {d : PhrChunkedDecoder} (h : d.Wf) (hd : d.state ≠ .inChunkSize)
    (hleft : d.bytesLeftInChunk = 0) {state : ChunkedState} (hdata : state ≠ .inChunkData) :
    ({ d with state } : PhrChunkedDecoder).Wf where
  digits := h.digits
  size _ := by
    rw [hleft]
    exact Nat.pow_pos (by decide)
  ext _ := h.ext hd
  data hstate := absurd hstate hdata
  crlf _ _ _ := hleft

theorem keeps_inChunkCrlf (h : l.Ready) (hstate : l.decoder.state = .inChunkCrlf) :
    l.inChunkCrlf.Keeps l := by
  have hcr : ∀ x, (x != cr) = false → chunkedStep l.decoder x = .next l.decoder [] := by
    intro x hx
    rw [bne_eq_false_iff_eq] at hx
    simp only [chunkedStep, hstate, hx, if_pos]
  have hnot : l.decoder.state ≠ .inChunkSize := by rw [hstate]; decide
  have hleft : l.decoder.bytesLeftInChunk = 0 :=
    h.wf.crlf hnot (by rw [hstate]; decide) (by rw [hstate]; decide)
  unfold inChunkCrlf
  split
  · next hnone => exact keeps_exhausted h.bounds fun c hc => hcr c (scan_eq_none hnone c hc)
  · next src hsome =>
    obtain ⟨passed, c, more, hfound, hpassed, hc⟩ := found_of_scan hsome
    have hloop := fun x hx => hcr x (hpassed x hx)
    rw [bne_iff_ne] at hc
    rw [hfound.getD]
    split
    · next hlf =>
      have hrefuse : chunkedStep l.decoder c = .refuse := by
        simp only [chunkedStep, hstate, if_neg hc, if_neg hlf]
      refine ⟨⟨Nat.le_trans h.bounds.dst_le hfound.le, Nat.le_of_lt hfound.lt⟩, rfl,
        .inr ⟨rfl, ?_⟩⟩
      rw [hfound.outcome hloop, transduce_refuse hrefuse]
      refine congrArg₂ (Outcome.refused _) (List.append_nil _) hfound.drop.symm
    · next hlf =>
      rw [not_not] at hlf
      have hnext : chunkedStep l.decoder c =
          .next { l.decoder with state := .inChunkSize } [] := by
        simp only [chunkedStep, hstate, if_neg hc, if_pos hlf]
      exact ⟨⟨hfound.bounds h.bounds _, wf_setState h.wf hnot hleft (by decide)⟩, rfl,
        Nat.lt_succ_of_le hfound.le, hfound.outcome_next hloop hnext⟩

/-- In front of the data of a chunk. -/
theorem wf_dataStart {d : PhrChunkedDecoder} (h : d.Wf) (hd : d.state ≠ .inChunkSize)
    (hleft : d.bytesLeftInChunk ≠ 0) :
    ({ d with state := .inChunkData } : PhrChunkedDecoder).Wf where
  digits := h.digits
  size hsize := by cases hsize
  ext _ := h.ext hd
  data _ := Nat.pos_of_ne_zero hleft
  crlf _ _ hdata := absurd rfl hdata

/-! The bytes of a chunk -/

theorem chunkedStep_data {d : PhrChunkedDecoder} (hstate : d.state = .inChunkData) (c : UInt8) :
    chunkedStep d c = .next { d with
      bytesLeftInChunk := d.bytesLeftInChunk - 1
      state := if d.bytesLeftInChunk = 1 then .inChunkCrlf else .inChunkData } [c] := by
  simp only [chunkedStep, hstate]

/-- A part of a chunk. -/
theorem transduce_data_part {data : Bytes} {d : PhrChunkedDecoder}
    (hstate : d.state = .inChunkData) (hlt : data.length < d.bytesLeftInChunk) :
    transduce chunkedStep d data =
      .more { d with bytesLeftInChunk := d.bytesLeftInChunk - data.length } data := by
  induction data generalizing d with
  | nil => rfl
  | cons c data ih =>
    rw [List.length_cons] at hlt
    have hmore : d.bytesLeftInChunk ≠ 1 := by omega
    rw [transduce_next (chunkedStep_data hstate c), if_neg hmore, ih rfl (by dsimp only; omega)]
    simp only [Outcome.after, List.length_cons, List.singleton_append, hstate, Nat.sub_sub,
      Nat.add_comm 1]

/-- The rest of a chunk. -/
theorem transduce_data (data : Bytes) {d : PhrChunkedDecoder} (hstate : d.state = .inChunkData)
    (hlen : data.length = d.bytesLeftInChunk) (hpos : 0 < d.bytesLeftInChunk) (bs : Bytes) :
    transduce chunkedStep d (data ++ bs) =
      (transduce chunkedStep { d with bytesLeftInChunk := 0, state := .inChunkCrlf } bs).after
        data := by
  induction data generalizing d with
  | nil =>
    rw [← hlen] at hpos
    cases hpos
  | cons c data ih =>
    rw [List.length_cons] at hlen
    rw [List.cons_append, transduce_next (chunkedStep_data hstate c)]
    split
    · next hone =>
      have hnil : data = [] := List.eq_nil_of_length_eq_zero (by omega)
      rw [hnil, List.nil_append, hone]
    · next hmore =>
      rw [ih rfl (by dsimp only; omega) (by dsimp only; omega), Outcome.after_after,
        List.singleton_append]

theorem keeps_inChunkData (h : l.Ready) (hstate : l.decoder.state = .inChunkData) :
    l.inChunkData.Keeps l := by
  have hpos := h.wf.data hstate
  have hsrc := h.bounds.src_le
  have hdst := h.bounds.dst_le
  have hlen : l.rest.length = l.buf.length - l.src := List.length_drop ..
  unfold inChunkData
  dsimp only
  split
  · next hlt =>
    have hn : l.src + (l.buf.length - l.src) = l.buf.length := by omega
    have hmoved := length_moveDown h.bounds (Nat.le_of_eq hn)
    have htake := take_moveDown h.bounds (Nat.le_of_eq hn)
    rw [← hlen, List.take_length, hlen] at htake
    refine ⟨⟨?_, ?_⟩, hmoved, .inl ⟨rfl, ?_⟩⟩
    · exact Nat.add_le_add_right hdst _
    · exact (hn.trans hmoved.symm).le
    · unfold outcome
      rw [transduce_data_part hstate (hlen ▸ hlt), hlen]
      exact congrArg (Outcome.more _) htake.symm
  · next hge =>
    rw [Nat.not_lt] at hge
    have hn : l.src + l.decoder.bytesLeftInChunk ≤ l.buf.length := by omega
    have hmoved := length_moveDown h.bounds hn
    refine keeps_trans (Nat.le_add_right ..) hmoved ?_ (keeps_inChunkCrlf ⟨⟨?_, ?_⟩, ?_⟩ rfl)
    · unfold outcome
      have hsplit := List.take_append_drop l.decoder.bytesLeftInChunk l.rest
      have hread := transduce_data (l.rest.take l.decoder.bytesLeftInChunk) hstate
        (by rw [List.length_take, hlen]; omega) hpos (l.rest.drop l.decoder.bytesLeftInChunk)
      rw [hsplit] at hread
      rw [hread, Outcome.after_after]
      unfold decoded rest setState takeData
      dsimp only
      rw [take_moveDown h.bounds hn, drop_moveDown h.bounds hn, ← List.drop_drop]
      rfl
    · exact Nat.add_le_add_right hdst _
    · exact hn.trans hmoved.ge
    · have hext := h.wf.ext (by rw [hstate]; decide)
      exact ⟨h.wf.digits, nofun, fun _ => ⟨hext.1, Nat.two_pow_pos _⟩, nofun, fun _ _ _ => rfl⟩

/-! The other cases -/

theorem keeps_inChunkExt (h : l.Ready) (hstate : l.decoder.state = .inChunkExt) :
    l.inChunkExt.Keeps l := by
  have hother : ∀ x, (x == lf) = false → chunkedStep l.decoder x = .next l.decoder [] := by
    intro x hx
    simp only [chunkedStep, hstate, chunkedExtStep, if_neg (ne_of_beq_false hx)]
  have hnot : l.decoder.state ≠ .inChunkSize := by rw [hstate]; decide
  have hlf : chunkedStep l.decoder lf =
      if l.decoder.bytesLeftInChunk = 0 then
        if l.decoder.consumeTrailer then
          .next { l.decoder with state := .inTrailersLineHead } []
        else .stop l.decoder
      else .next { l.decoder with state := .inChunkData } [] := by
    simp only [chunkedStep, hstate, chunkedExtStep, if_pos]
  unfold inChunkExt
  split
  · next hnone => exact keeps_exhausted h.bounds fun c hc => hother c (scan_eq_none hnone c hc)
  · next src hsome =>
    obtain ⟨passed, c, more, hfound, hpassed, hc⟩ := found_of_scan hsome
    have hloop := fun x hx => hother x (hpassed x hx)
    rw [beq_iff_eq] at hc
    subst hc
    have hlt : l.src < src + 1 := Nat.lt_succ_of_le hfound.le
    dsimp only
    split
    · next hleft =>
      rw [if_pos hleft] at hlf
      split
      · next htrailer =>
        rw [if_pos htrailer] at hlf
        exact ⟨⟨hfound.bounds h.bounds _, wf_setState h.wf hnot hleft (by decide)⟩, rfl, hlt,
          hfound.outcome_next hloop hlf⟩
      · next htrailer =>
        rw [if_neg htrailer] at hlf
        refine ⟨hfound.bounds h.bounds _, rfl, ?_⟩
        rw [hfound.outcome hloop, transduce_stop hlf]
        exact congrArg₂ (Outcome.stopped _) (List.append_nil _) hfound.drop_succ.symm
    · next hleft =>
      rw [if_neg hleft] at hlf
      refine keeps_trans ?_ ?_ ?_ (keeps_inChunkData ⟨hfound.bounds h.bounds _, ?_⟩ rfl)
      · exact hlt.le
      · rfl
      · exact hfound.outcome_next hloop hlf
      · exact wf_dataStart h.wf hnot hleft

theorem decodeHex_lt {c : UInt8} {v : Nat} (h : decodeHex c = some v) : v < 16 := by
  unfold decodeHex at h
  split at h
  · cases h
    next hc =>
    have := UInt8.le_iff_toNat_le.1 hc.2
    simp at this
    omega
  · split at h
    · cases h
      next hc =>
      have := UInt8.le_iff_toNat_le.1 hc.2
      simp at this
      omega
    · split at h
      · cases h
        next hc =>
        have := UInt8.le_iff_toNat_le.1 hc.2
        simp at this
        omega
      · cases h

/-- A digit more of a size of at most sixteen digits. -/
theorem wf_addDigit {d : PhrChunkedDecoder} (h : d.Wf) (hstate : d.state = .inChunkSize)
    (hcount : d.hexCount ≠ 16) {c : UInt8} {v : Nat} (hv : decodeHex c = some v) :
    (d.addDigit v).Wf := by
  have hdigits := h.digits
  have hlt := h.size hstate
  have hv16 := decodeHex_lt hv
  refine ⟨?_, fun _ => ?_, fun hnot => absurd hstate hnot, ?_, fun hnot => absurd hstate hnot⟩
  · exact Nat.succ_le_of_lt (Nat.lt_of_le_of_ne hdigits hcount)
  · refine Nat.lt_of_le_of_lt (Nat.mod_le ..) ?_
    unfold PhrChunkedDecoder.addDigit
    dsimp only
    rw [Nat.pow_succ]
    omega
  · intro hdata
    rw [show (d.addDigit v).state = d.state from rfl, hstate] at hdata
    cases hdata

/-- Behind the digits of a size. -/
theorem wf_extStart {d : PhrChunkedDecoder} (h : d.Wf) (hstate : d.state = .inChunkSize) :
    ({ d with hexCount := 0, state := .inChunkExt } : PhrChunkedDecoder).Wf where
  digits := Nat.zero_le _
  size := nofun
  ext _ := by
    refine ⟨rfl, Nat.lt_of_lt_of_le (h.size hstate) ?_⟩
    exact Nat.pow_le_pow_right (by decide) h.digits
  data := nofun
  crlf _ hext := absurd rfl hext

/-- The digits of a size. -/
theorem sizeLoop_spec (rest : Bytes) (src : Nat) {d : PhrChunkedDecoder} (h : d.Wf)
    (hstate : d.state = .inChunkSize) :
    ∃ ret d' read more, sizeLoop d rest src = (ret, d', src + read.length) ∧
      rest = read ++ more ∧ d'.Wf ∧ d'.state = .inChunkSize ∧
      transduce chunkedStep d rest = transduce chunkedStep d' more ∧
      (ret = some (-2) ∧ more = [] ∨
        ∃ c later, more = c :: later ∧
          (ret = some (-1) ∧ chunkedStep d' c = .refuse ∨
            ret = none ∧ decodeHex c = none ∧ d'.hexCount ≠ 0)) := by
  induction rest generalizing src d with
  | nil => exact ⟨_, d, [], [], rfl, rfl, h, hstate, rfl, .inl ⟨rfl, rfl⟩⟩
  | cons c rest ih =>
    rw [sizeLoop]
    cases hv : decodeHex c with
    | none =>
      dsimp only
      split
      · next hzero =>
        refine ⟨_, d, [], c :: rest, rfl, rfl, h, hstate, rfl, .inr ⟨c, rest, rfl, .inl ⟨rfl, ?_⟩⟩⟩
        simp only [chunkedStep, hstate, hv, if_pos hzero]
      · next hzero =>
        exact ⟨_, d, [], c :: rest, rfl, rfl, h, hstate, rfl,
          .inr ⟨c, rest, rfl, .inr ⟨rfl, hv, hzero⟩⟩⟩
    | some v =>
      dsimp only
      split
      · next hfull =>
        refine ⟨_, d, [], c :: rest, rfl, rfl, h, hstate, rfl, .inr ⟨c, rest, rfl, .inl ⟨rfl, ?_⟩⟩⟩
        simp only [chunkedStep, hstate, hv, if_pos hfull]
      · next hfull =>
        have hnext : chunkedStep d c = .next (d.addDigit v) [] := by
          simp only [chunkedStep, hstate, hv, if_neg hfull]
        obtain ⟨ret, d', read, more, hloop, hrest, hwf, hstate', hout, hend⟩ :=
          ih (src + 1) (wf_addDigit h hstate hfull hv) hstate
        refine ⟨ret, d', c :: read, more, ?_, congrArg (c :: ·) hrest, hwf, hstate', ?_, hend⟩
        · rw [hloop, List.length_cons, Nat.add_right_comm, Nat.add_assoc]
        · rw [transduce_next hnext, Outcome.after_nil, hout]

theorem chunkedExtStep_ne_refuse (d : PhrChunkedDecoder) (c : UInt8) :
    chunkedExtStep d c ≠ .refuse := by
  intro h
  unfold chunkedExtStep at h
  split at h
  · split at h
    · split at h <;> cases h
    · cases h
  · cases h

/-- The byte behind the digits is the first one of the extension. -/
theorem transduce_size_end {d : PhrChunkedDecoder} (hstate : d.state = .inChunkSize) {c : UInt8}
    (hc : decodeHex c = none) (hcount : d.hexCount ≠ 0) (later : Bytes) :
    transduce chunkedStep d (c :: later) =
      transduce chunkedStep { d with hexCount := 0, state := .inChunkExt } (c :: later) := by
  rw [transduce, transduce]
  have hstep : chunkedStep d c =
      chunkedExtStep { d with hexCount := 0, state := .inChunkExt } c := by
    simp only [chunkedStep, hstate, hc, if_neg hcount]
  have hext : chunkedStep { d with hexCount := 0, state := .inChunkExt } c =
      chunkedExtStep { d with hexCount := 0, state := .inChunkExt } c := rfl
  rw [hstep, hext]
  cases hverdict : chunkedExtStep { d with hexCount := 0, state := .inChunkExt } c with
  | next t out => rfl
  | refuse => exact absurd hverdict (chunkedExtStep_ne_refuse _ c)
  | stop t => rfl

theorem keeps_inChunkSize (h : l.Ready) (hstate : l.decoder.state = .inChunkSize) :
    l.inChunkSize.Keeps l := by
  obtain ⟨ret, d, read, more, hloop, hrest, hwf, hd, hout, hend⟩ :=
    sizeLoop_spec l.rest l.src h.wf hstate
  have hdrop : l.buf.drop (l.src + read.length) = more := by
    rw [← List.drop_drop]
    exact (congrArg (List.drop read.length) hrest).trans List.drop_left
  have hle : l.src + read.length ≤ l.buf.length := by
    have hlen := congrArg List.length hrest
    have hsrc := h.bounds.src_le
    rw [List.length_append, rest, List.length_drop] at hlen
    omega
  have hbounds : ∀ decoder, ({ l with decoder, src := l.src + read.length } :
      ChunkedLocals).Bounds := fun _ =>
    ⟨Nat.le_trans h.bounds.dst_le (Nat.le_add_right ..), hle⟩
  have houtcome : l.outcome = (transduce chunkedStep d more).after l.decoded := by
    unfold outcome
    rw [hout]
  unfold inChunkSize
  rw [hloop]
  rcases hend with ⟨rfl, rfl⟩ | ⟨c, later, rfl, ⟨rfl, hrefuse⟩ | ⟨rfl, hc, hcount⟩⟩
  · refine ⟨hbounds d, rfl, .inl ⟨rfl, ?_⟩⟩
    rw [houtcome]
    exact congrArg (Outcome.more _) (List.append_nil _)
  · refine ⟨hbounds d, rfl, .inr ⟨rfl, ?_⟩⟩
    rw [houtcome, transduce_refuse hrefuse]
    exact congrArg₂ (Outcome.refused _) (List.append_nil _) hdrop.symm
  · refine keeps_trans ?_ ?_ ?_ (keeps_inChunkExt ⟨hbounds _, ?_⟩ rfl)
    · exact Nat.le_add_right ..
    · rfl
    · rw [houtcome, transduce_size_end hd hc hcount, outcome, rest, hdrop]
      rfl
    · exact wf_extStart hwf hd

theorem keeps_inTrailersLineMiddle (h : l.Ready)
    (hstate : l.decoder.state = .inTrailersLineMiddle) : l.inTrailersLineMiddle.Keeps l := by
  have hother : ∀ x, (x == lf) = false → chunkedStep l.decoder x = .next l.decoder [] := by
    intro x hx
    simp only [chunkedStep, hstate, if_neg (ne_of_beq_false hx)]
  have hnot : l.decoder.state ≠ .inChunkSize := by rw [hstate]; decide
  have hleft : l.decoder.bytesLeftInChunk = 0 :=
    h.wf.crlf hnot (by rw [hstate]; decide) (by rw [hstate]; decide)
  unfold inTrailersLineMiddle
  split
  · next hnone => exact keeps_exhausted h.bounds fun c hc => hother c (scan_eq_none hnone c hc)
  · next src hsome =>
    obtain ⟨passed, c, more, hfound, hpassed, hc⟩ := found_of_scan hsome
    rw [beq_iff_eq] at hc
    have hnext : chunkedStep l.decoder c =
        .next { l.decoder with state := .inTrailersLineHead } [] := by
      simp only [chunkedStep, hstate, if_pos hc]
    exact ⟨⟨hfound.bounds h.bounds _, wf_setState h.wf hnot hleft (by decide)⟩, rfl,
      Nat.lt_succ_of_le hfound.le,
      hfound.outcome_next (fun x hx => hother x (hpassed x hx)) hnext⟩

theorem keeps_inTrailersLineHead (h : l.Ready)
    (hstate : l.decoder.state = .inTrailersLineHead) : l.inTrailersLineHead.Keeps l := by
  have hcr : ∀ x, (x != cr) = false → chunkedStep l.decoder x = .next l.decoder [] := by
    intro x hx
    rw [bne_eq_false_iff_eq] at hx
    simp only [chunkedStep, hstate, hx, if_pos]
  have hnot : l.decoder.state ≠ .inChunkSize := by rw [hstate]; decide
  have hleft : l.decoder.bytesLeftInChunk = 0 :=
    h.wf.crlf hnot (by rw [hstate]; decide) (by rw [hstate]; decide)
  unfold inTrailersLineHead
  split
  · next hnone => exact keeps_exhausted h.bounds fun c hc => hcr c (scan_eq_none hnone c hc)
  · next src hsome =>
    obtain ⟨passed, c, more, hfound, hpassed, hc⟩ := found_of_scan hsome
    have hloop := fun x hx => hcr x (hpassed x hx)
    rw [bne_iff_ne] at hc
    dsimp only
    rw [hfound.getD]
    split
    · next hlf =>
      have hstop : chunkedStep l.decoder c = .stop l.decoder := by
        simp only [chunkedStep, hstate, if_neg hc, if_pos hlf]
      refine ⟨hfound.bounds h.bounds _, rfl, ?_⟩
      rw [hfound.outcome hloop, transduce_stop hstop]
      exact congrArg₂ (Outcome.stopped _) (List.append_nil _) hfound.drop_succ.symm
    · next hlf =>
      have hnext : chunkedStep l.decoder c =
          .next { l.decoder with state := .inTrailersLineMiddle } [] := by
        simp only [chunkedStep, hstate, if_neg hc, if_neg hlf]
      refine keeps_trans ?_ ?_ ?_ (keeps_inTrailersLineMiddle
        ⟨hfound.bounds h.bounds _, wf_setState h.wf hnot hleft (by decide)⟩ rfl)
      · exact Nat.le_succ_of_le hfound.le
      · rfl
      · exact hfound.outcome_next hloop hnext

theorem keeps_switch (h : l.Ready) : l.switch.Keeps l := by
  unfold switch
  split
  · next hstate => exact keeps_inChunkSize h hstate
  · next hstate => exact keeps_inChunkExt h hstate
  · next hstate => exact keeps_inChunkData h hstate
  · next hstate => exact keeps_inChunkCrlf h hstate
  · next hstate => exact keeps_inTrailersLineHead h hstate
  · next hstate => exact keeps_inTrailersLineMiddle h hstate

end ChunkedLocals

/-! ## The whole call -/

/-- The result says what became of the bytes: the decoded ones are in front, and those that were not
read are behind them. -/
structure ChunkedResult.Reports (r : ChunkedResult) (size : Nat)
    (o : Outcome PhrChunkedDecoder UInt8 UInt8) : Prop where
  size : r.buf.length = size
  told : match o with
    | .more d out => r.ret = -2 ∧ r.decoder = d ∧ r.bufsz = out.length ∧ out <+: r.buf
    | .refused d out rest =>
      r.ret = -1 ∧ r.decoder = d ∧ r.bufsz = out.length ∧ out ++ rest <+: r.buf
    | .stopped d out rest =>
      r.ret = rest.length ∧ r.decoder = d ∧ r.bufsz = out.length ∧ out ++ rest <+: r.buf

namespace ChunkedLocals

variable {l : ChunkedLocals}

theorem length_decoded (h : l.Bounds) : l.decoded.length = l.dst := by
  have hdst := h.dst_le
  have hsrc := h.src_le
  unfold decoded
  rw [List.length_take]
  omega

/-- The bytes that were not read are moved behind those that were decoded. -/
theorem prefix_leave (h : l.Bounds) (ret : Int) :
    (l.leave ret).buf.length = l.buf.length ∧ l.decoded ++ l.rest <+: (l.leave ret).buf := by
  have hn : l.src + (l.buf.length - l.src) = l.buf.length := Nat.add_sub_cancel' h.src_le
  refine ⟨length_moveDown h (Nat.le_of_eq hn), ?_⟩
  have htake := take_moveDown h (Nat.le_of_eq hn)
  have hlen : l.rest.length = l.buf.length - l.src := List.length_drop ..
  rw [← hlen, List.take_length] at htake
  rw [← htake]
  unfold leave
  rw [hlen]
  exact List.take_prefix ..

theorem loop_spec : ∀ (fuel : Nat) {l : ChunkedLocals}, l.Ready → l.buf.length - l.src < fuel →
    ∃ r, loop fuel l = some r ∧ r.Reports l.buf.length l.outcome
  | 0, _, _, hfuel => absurd hfuel (Nat.not_lt_zero _)
  | fuel + 1, l, h, hfuel => by
    have hkeeps := keeps_switch h
    rw [loop]
    cases hflow : l.switch with
    | turn l' =>
      rw [hflow] at hkeeps
      obtain ⟨hready, hlen, hlt, hout⟩ := hkeeps
      have hsrc := hready.bounds.src_le
      obtain ⟨r, hr, hreports⟩ := loop_spec fuel hready (by omega)
      exact ⟨r, hr, by rwa [hlen, hout] at hreports⟩
    | exit ret l' =>
      rw [hflow] at hkeeps
      obtain ⟨hbounds, hlen, hcases⟩ := hkeeps
      obtain ⟨hsize, hprefix⟩ := prefix_leave hbounds ret
      have hdst := length_decoded hbounds
      refine ⟨l'.leave ret, rfl, hsize.trans hlen, ?_⟩
      rcases hcases with ⟨rfl, hout⟩ | ⟨rfl, hout⟩
      · rw [hout]
        exact ⟨rfl, rfl, hdst.symm, (List.prefix_append ..).trans hprefix⟩
      · rw [hout]
        exact ⟨rfl, rfl, hdst.symm, hprefix⟩
    | complete l' =>
      rw [hflow] at hkeeps
      obtain ⟨hbounds, hlen, hout⟩ := hkeeps
      obtain ⟨hsize, hprefix⟩ := prefix_leave hbounds (l'.buf.length - l'.src : Nat)
      refine ⟨_, rfl, hsize.trans hlen, ?_⟩
      rw [hout]
      refine ⟨?_, rfl, (length_decoded hbounds).symm, hprefix⟩
      exact congrArg Int.ofNat (List.length_drop ..).symm

end ChunkedLocals

/-- **In place.** A call of `phr_decode_chunked` ends. It does to the buffer what the transducer
does to the bytes one by one, and the bytes that it decodes or leaves stay what they were. -/
theorem phrDecodeChunked_spec {d : PhrChunkedDecoder} (hd : d.Wf) (buf : Bytes) :
    ∃ r, phrDecodeChunked d buf = some r ∧
      r.Reports buf.length (transduce chunkedStep d buf) := by
  have hready : (⟨d, buf, 0, 0⟩ : ChunkedLocals).Ready :=
    ⟨⟨Nat.le_refl _, Nat.zero_le _⟩, hd⟩
  obtain ⟨r, hr, hreports⟩ := ChunkedLocals.loop_spec (buf.length + 1) hready
    (Nat.lt_succ_self _)
  refine ⟨r, hr, ?_⟩
  rwa [ChunkedLocals.outcome, ChunkedLocals.rest, ChunkedLocals.decoded, List.drop_zero,
    List.take_zero, Outcome.after_nil] at hreports

/-- A chunk, the last chunk, and a byte of what follows. -/
def helloChunked : Bytes := bytes "5\r\nhello\r\n0\r\n\r\nX"

theorem phrDecodeChunked_spec_helloChunked : ∃ r,
    phrDecodeChunked (.zero true) helloChunked = some r ∧ r.ret = 1 ∧
      r.buf.take (r.bufsz + 1) = bytes "helloX" ∧
      r.Reports helloChunked.length (transduce chunkedStep (.zero true) helloChunked) := by
  obtain ⟨r, hr, hreports⟩ :=
    phrDecodeChunked_spec (PhrChunkedDecoder.wf_zero true) helloChunked
  refine ⟨r, hr, ?_, ?_, hreports⟩
  · cases hr
    decide
  · cases hr
    decide

end GameServer.Http
