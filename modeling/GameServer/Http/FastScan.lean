import Mathlib.Data.List.TakeWhile
import GameServer.Http.PicoResponse

/-!
# The fast searches of picohttpparser

With SSE 4.2 `findchar_fast` looks at blocks of sixteen bytes for one that ends a token, and the
loop goes on from there; without it `get_token_to_eol` looks at eight bytes a turn. The functions
here are those of the source in both builds (`sse`). The parsers built on them read every text like
the plain ones, whatever it is and wherever it ends (`phrParseAs_eq`).
-/

namespace GameServer.Http

open GameServer.Lib

/-! ## The search -/

/-- The ranges of bytes that `_mm_cmpestri` looks for. -/
abbrev Ranges := List (UInt8 × UInt8)

def inRanges (ranges : Ranges) (c : UInt8) : Bool :=
  ranges.any fun range => range.1 ≤ c && c ≤ range.2

/-- `_mm_cmpestri` on sixteen bytes: the index of the first byte in a range, or 16. -/
def cmpestri (ranges : Ranges) (block : Bytes) : Nat := block.findIdx (inRanges ranges)

/-- The loop of `findchar_fast` over so many blocks: where it ends, and whether it found a byte. -/
def findBlocks (ranges : Ranges) : (blocks : Nat) → Bytes → Bytes × Bool
  | 0, buf => (buf, false)
  | blocks + 1, buf =>
    let r := cmpestri ranges (buf.take 16)
    if r ≠ 16 then (buf.drop r, true) else findBlocks ranges blocks (buf.drop 16)

/-- `findchar_fast`; without SSE it does nothing. -/
def findcharFast (sse : Bool) (ranges : Ranges) (buf : Bytes) : Bytes × Bool :=
  if sse && 16 ≤ buf.length then findBlocks ranges (buf.length / 16) buf else (buf, false)

/-- The bytes of `buf` before `rest`. -/
def upTo (buf rest : Bytes) : Bytes := buf.take (buf.length - rest.length)

/-! ## `parse_token` -/

def tokenRanges : Ranges :=
  [(0x00, 0x20), (0x22, 0x22), (0x28, 0x29), (0x2c, 0x2c), (0x2f, 0x2f), (0x3a, 0x40),
    (0x5b, 0x5d), (0x7b, 0xff)]

/-- `while (1)` in `parse_token`: where it ends. -/
def tokenLoop (nextChar : UInt8) : Bytes → Phr Bytes
  | [] => .error .incomplete
  | c :: buf =>
    if c = nextChar then .ok (c :: buf)
    else if !isTokenChar c then .error .failed
    else tokenLoop nextChar buf

def parseTokenAs (sse : Bool) (nextChar : UInt8) (buf : Bytes) : Phr (Bytes × Bytes) :=
  let (start, found) := findcharFast sse tokenRanges buf
  if !found && start.isEmpty then .error .incomplete
  else do
    let rest ← tokenLoop nextChar start
    .ok (upTo buf rest, rest)

/-! ## `ADVANCE_TOKEN` -/

def isPrintableAscii (c : UInt8) : Bool := c - 0x20 < 0x5f

def advanceRanges : Ranges := [(0x00, 0x20), (0x7f, 0x7f)]

/-- `while (1)` in `ADVANCE_TOKEN`. -/
def advanceLoop : Bytes → Phr Bytes
  | [] => .error .incomplete
  | c :: buf =>
    if c = sp then .ok (c :: buf)
    else if !isPrintableAscii c && (c < 0x20 || c == del) then .error .failed
    else advanceLoop buf

def advanceTokenAs (sse : Bool) (buf : Bytes) : Phr (Bytes × Bytes) :=
  let (start, found) := findcharFast sse advanceRanges buf
  if !found && start.isEmpty then .error .incomplete
  else do
    let rest ← advanceLoop start
    .ok (upTo buf rest, rest)

/-! ## `get_token_to_eol` -/

def eolRanges : Ranges := [(0x00, 0x08), (0x0a, 0x1f), (0x7f, 0x7f)]

/-- A byte that ends the token: a control character other than a tab. -/
def isCtl (c : UInt8) : Bool := (c < 0x20 && c != htab) || c == del

/-- Up to so many `DOIT()`: where they end, and whether at a byte that is not printable. -/
def doIts : (n : Nat) → Bytes → Bytes × Bool
  | 0, buf => (buf, false)
  | _ + 1, [] => ([], false)
  | n + 1, c :: buf => if !isPrintableAscii c then (c :: buf, true) else doIts n buf

/-- `while (buf_end - buf >= 8)`: where it ends, and whether it goes to `FOUND_CTL`. -/
def unrolled : (fuel : Nat) → Bytes → Bytes × Bool
  | 0, buf => (buf, false)
  | fuel + 1, buf =>
    if buf.length < 8 then (buf, false)
    else
      match doIts 8 buf with
      | (c :: rest, true) => if isCtl c then (c :: rest, true) else unrolled fuel rest
      | (rest, _) => unrolled fuel rest

/-- `for (;; ++buf)`: where it goes to `FOUND_CTL`. -/
def eolLoop : Bytes → Phr Bytes
  | [] => .error .incomplete
  | c :: buf => if !isPrintableAscii c && isCtl c then .ok (c :: buf) else eolLoop buf

/-- From the label `FOUND_CTL` on, with the token before it. -/
def foundCtl (token : Bytes) : Bytes → Phr (Bytes × Bytes)
  | [] => .error .failed
  | c :: buf =>
    if c = cr then do
      let rest ← expectChar lf buf
      .ok (token, rest)
    else if c = lf then .ok (token, buf)
    else .error .failed

def getTokenToEolAs (sse : Bool) (buf : Bytes) : Phr (Bytes × Bytes) :=
  let (start, found) :=
    if sse then findcharFast sse eolRanges buf else unrolled buf.length buf
  do
    let rest ← if found then .ok start else eolLoop start
    foundCtl (upTo buf rest) rest

/-! ## The parsers -/

def parseHeaderNameAs (sse : Bool) (buf : Bytes) : Phr (Bytes × Bytes) := do
  let (name, rest) ← parseTokenAs sse 0x3a buf
  if name.isEmpty then .error .failed
  else do
    let rest ← skipBlanks rest.tail
    .ok (name, rest)

def headerLineAs (sse : Bool) (first : Bool) (c : UInt8) (buf : Bytes) : Phr (Bytes × Bytes) :=
  if !first && isBlank c then .ok ([], c :: buf) else parseHeaderNameAs sse (c :: buf)

def parseHeadersAs (sse : Bool) : (room : Nat) → (first : Bool) → Bytes →
    Phr (List PhrHeader × Bytes)
  | _, _, [] => .error .incomplete
  | room, first, c :: buf =>
    if c = cr then do
      let rest ← expectChar lf buf
      .ok ([], rest)
    else if c = lf then .ok ([], buf)
    else
      match room with
      | 0 => .error .failed
      | room + 1 => do
        let (name, line) ← headerLineAs sse first c buf
        let (value, rest) ← getTokenToEolAs sse line
        let (headers, rest) ← parseHeadersAs sse room false rest
        .ok (⟨name, trimValue value⟩ :: headers, rest)

/-- `phr_parse_request` in one of the builds. -/
def phrParseRequestAs (sse : Bool) (maxHeaders : Nat) (buf : Bytes) : Phr PhrRequest := do
  let rest ← skipEmptyLine buf
  let (method, rest) ← parseTokenAs sse sp rest
  let rest ← skipFrom rest
  let (path, rest) ← advanceTokenAs sse rest
  let rest ← skipFrom rest
  if method.isEmpty || path.isEmpty then .error .failed
  else do
    let (minorVersion, rest) ← parseHttpVersion rest
    let rest ← parseEol rest
    let (headers, rest) ← parseHeadersAs sse maxHeaders true rest
    .ok ⟨method, path, minorVersion, headers, buf.length - rest.length⟩

/-- `phr_parse_response` in one of the builds. -/
def phrParseResponseAs (sse : Bool) (maxHeaders : Nat) (buf : Bytes) : PhrResponse :=
  let written : PhrResponse := ⟨-1, 0, [], [], 0⟩
  match parseHttpVersion buf with
  | .error e => { written with ret := e.ret }
  | .ok (minorVersion, rest) =>
    let written := { written with minorVersion }
    match skipToStatus rest with
    | .error e => { written with ret := e.ret }
    | .ok rest =>
      let written := { written with status := (parseInt3 rest).1 }
      match (parseInt3 rest).2 with
      | .error e => { written with ret := e.ret }
      | .ok rest =>
        match getTokenToEolAs sse rest with
        | .error e => { written with ret := e.ret }
        | .ok (msg, rest) =>
          if !msg.isEmpty && msg.head? != some sp then
            { written with msg, ret := PhrError.failed.ret }
          else
            let written := { written with msg := msg.dropWhile (· == sp) }
            match parseHeadersAs sse maxHeaders true rest with
            | .error e => { written with ret := e.ret }
            | .ok (headers, rest) =>
              { written with headers, ret := toInt (buf.length - rest.length) }

/-! ## What a search passes -/

/-- A search from `buf` ended at `rest`: it passed bytes with `P`, and one without it is next if it
was found. -/
def Passed (P : UInt8 → Bool) (buf rest : Bytes) (found : Bool) : Prop :=
  ∃ passed, buf = passed ++ rest ∧ (∀ c ∈ passed, P c = true) ∧
    (found = true → ∃ c later, rest = c :: later ∧ P c = false)

variable {P : UInt8 → Bool} {buf rest : Bytes}

theorem Passed.refl (P : UInt8 → Bool) (buf : Bytes) : Passed P buf buf false :=
  ⟨[], rfl, fun _ hc => absurd hc List.not_mem_nil, nofun⟩

theorem Passed.append {found : Bool} (h : Passed P buf rest found) {passed : Bytes}
    (hpassed : ∀ c ∈ passed, P c = true) : Passed P (passed ++ buf) rest found := by
  obtain ⟨more, rfl, hmore, hfound⟩ := h
  refine ⟨passed ++ more, (List.append_assoc ..).symm, fun c hc => ?_, hfound⟩
  rcases List.mem_append.1 hc with hc | hc
  · exact hpassed c hc
  · exact hmore c hc

theorem upTo_append (passed rest : Bytes) : upTo (passed ++ rest) rest = passed := by
  rw [upTo, List.length_append, Nat.add_sub_cancel, List.take_left]

theorem findBlocks_passed (ranges : Ranges) {blocks : Nat} {buf : Bytes}
    (h : blocks * 16 ≤ buf.length) :
    Passed (fun c => !inRanges ranges c) buf (findBlocks ranges blocks buf).1
      (findBlocks ranges blocks buf).2 := by
  induction blocks generalizing buf with
  | zero => exact .refl _ _
  | succ blocks ih =>
    have hlen : (buf.take 16).length = 16 := by
      rw [List.length_take]
      omega
    unfold findBlocks cmpestri
    dsimp only
    split
    · next hr =>
      have hlt : (buf.take 16).findIdx (inRanges ranges) < (buf.take 16).length :=
        Nat.lt_of_le_of_ne List.findIdx_le_length fun heq => hr (heq.trans hlen)
      have hbuf : (buf.take 16).findIdx (inRanges ranges) < buf.length := by omega
      refine ⟨_, (List.take_append_drop _ buf).symm, fun c hc => ?_, fun _ => ?_⟩
      · obtain ⟨i, hi, rfl⟩ := List.mem_take_iff_getElem.1 hc
        have hnot := List.not_of_lt_findIdx (Nat.lt_of_lt_of_le hi (Nat.min_le_left ..))
        rw [List.getElem_take] at hnot
        exact congrArg not hnot
      · refine ⟨_, _, List.drop_eq_getElem_cons hbuf, ?_⟩
        have hyes := List.findIdx_getElem (w := hlt)
        rw [List.getElem_take] at hyes
        exact congrArg not hyes
    · next hr =>
      rw [not_not] at hr
      have hnone := List.findIdx_eq_length.1 (hr.trans hlen.symm)
      have hleft : blocks * 16 ≤ (buf.drop 16).length := by
        rw [List.length_drop]
        omega
      have hblock : ∀ c ∈ buf.take 16, (!inRanges ranges c) = true :=
        fun c hc => congrArg not (hnone c hc)
      have hrest := (ih hleft).append hblock
      rwa [List.take_append_drop] at hrest

/-- In both builds `findchar_fast` passes only bytes outside of the ranges. -/
theorem findcharFast_passed (sse : Bool) (ranges : Ranges) (buf : Bytes) :
    Passed (fun c => !inRanges ranges c) buf (findcharFast sse ranges buf).1
      (findcharFast sse ranges buf).2 := by
  unfold findcharFast
  split
  · exact findBlocks_passed ranges (Nat.div_mul_le_self ..)
  · exact .refl _ _

theorem forall_byte {Q : UInt8 → Prop} (h : ∀ n < 256, Q (UInt8.ofNat n)) (c : UInt8) : Q c := by
  have hc := h c.toNat c.toNat_lt
  rwa [UInt8.ofNat_toNat] at hc

/-! ## Tokens -/

/-- A loop that reads a token as `plain` does, from the byte at which it starts. -/
structure ReadsToken (P : UInt8 → Bool) (plain : Bytes → Phr (Bytes × Bytes))
    (loop : Bytes → Phr Bytes) : Prop where
  nil : plain [] = .error .incomplete
  pass : ∀ c buf, P c = true → plain (c :: buf) = (plain buf).map fun r => (c :: r.1, r.2)
  loop_eq : ∀ buf, loop buf = (plain buf).map Prod.snd
  split : ∀ buf token rest, plain buf = .ok (token, rest) → buf = token ++ rest

theorem ReadsToken.passed {plain : Bytes → Phr (Bytes × Bytes)} {loop : Bytes → Phr Bytes}
    (h : ReadsToken P plain loop) {passed : Bytes} (hpassed : ∀ c ∈ passed, P c = true)
    (buf : Bytes) :
    plain (passed ++ buf) = (plain buf).map fun r => (passed ++ r.1, r.2) := by
  induction passed with
  | nil =>
    rw [List.nil_append]
    cases plain buf <;> rfl
  | cons c passed ih =>
    rw [List.cons_append, h.pass c _ (hpassed c List.mem_cons_self),
      ih fun x hx => hpassed x (List.mem_cons_of_mem c hx)]
    cases plain buf <;> rfl

/-- **A search, then the loop** reads the token that the loop alone reads. -/
theorem ReadsToken.search_eq {plain : Bytes → Phr (Bytes × Bytes)} {loop : Bytes → Phr Bytes}
    (h : ReadsToken P plain loop) {found : Bool} (hstart : Passed P buf rest found) :
    (if !found && rest.isEmpty then .error .incomplete
      else do
        let later ← loop rest
        .ok (upTo buf later, later)) = plain buf := by
  obtain ⟨passed, rfl, hpassed, hfound⟩ := hstart
  rw [h.passed hpassed]
  split
  · next hempty =>
    rw [Bool.and_eq_true, List.isEmpty_iff] at hempty
    rw [hempty.2, h.nil]
    rfl
  · rw [h.loop_eq]
    cases hplain : plain rest with
    | error e => rfl
    | ok r =>
      obtain ⟨token, later⟩ := r
      have hsplit := h.split rest token later hplain
      have hupTo : upTo (passed ++ rest) later = passed ++ token := by
        rw [hsplit, ← List.append_assoc, upTo_append]
      exact congrArg (fun x => Except.ok (x, later)) hupTo

theorem parseToken_readsToken {nextChar : UInt8} (hnext : inRanges tokenRanges nextChar = true) :
    ReadsToken (fun c => !inRanges tokenRanges c) (parseToken nextChar) (tokenLoop nextChar) where
  nil := rfl
  pass c buf hc := by
    have htoken : ∀ c, inRanges tokenRanges c = false → isTokenChar c = true :=
      forall_byte (by decide +kernel)
    rw [Bool.not_eq_true'] at hc
    have hne : c ≠ nextChar := by
      rintro rfl
      rw [hnext] at hc
      cases hc
    rw [parseToken, if_neg hne, if_pos (htoken c hc)]
    cases parseToken nextChar buf <;> rfl
  loop_eq buf := by
    induction buf with
    | nil => rfl
    | cons c buf ih =>
      rw [tokenLoop, parseToken]
      split
      · rfl
      · cases isTokenChar c with
        | false => rfl
        | true =>
          rw [if_neg (by decide), if_pos rfl, ih]
          cases parseToken nextChar buf <;> rfl
  split buf := by
    induction buf with
    | nil =>
      intro token rest h
      cases h
    | cons c buf ih =>
      intro token rest h
      rw [parseToken] at h
      split at h
      · cases h
        rfl
      · split at h
        · obtain ⟨⟨token', rest'⟩, hrest, hok⟩ := phr_bind_ok.1 h
          cases hok
          exact congrArg (c :: ·) (ih _ _ hrest)
        · cases h

theorem advanceToken_readsToken :
    ReadsToken (fun c => !inRanges advanceRanges c) advanceToken advanceLoop where
  nil := rfl
  pass c buf hc := by
    have htext : ∀ c, inRanges advanceRanges c = false →
        c ≠ sp ∧ (decide (c < 0x20) || decide (c = del)) = false :=
      forall_byte (by decide +kernel)
    rw [Bool.not_eq_true'] at hc
    obtain ⟨hsp, hctl⟩ := htext c hc
    rw [advanceToken, if_neg hsp, hctl, if_neg Bool.false_ne_true]
    cases advanceToken buf <;> rfl
  loop_eq buf := by
    have hctl : ∀ c, (!isPrintableAscii c && (decide (c < 0x20) || c == del)) =
        (decide (c < 0x20) || decide (c = del)) := forall_byte (by decide +kernel)
    induction buf with
    | nil => rfl
    | cons c buf ih =>
      rw [advanceLoop, advanceToken, hctl]
      split
      · rfl
      · split
        · rfl
        · rw [ih]
          cases advanceToken buf <;> rfl
  split buf := by
    induction buf with
    | nil =>
      intro token rest h
      cases h
    | cons c buf ih =>
      intro token rest h
      rw [advanceToken] at h
      split at h
      · cases h
        rfl
      · split at h
        · cases h
        · obtain ⟨⟨token', rest'⟩, hrest, hok⟩ := phr_bind_ok.1 h
          cases hok
          exact congrArg (c :: ·) (ih _ _ hrest)

theorem parseTokenAs_eq (sse : Bool) {nextChar : UInt8}
    (hnext : inRanges tokenRanges nextChar = true) (buf : Bytes) :
    parseTokenAs sse nextChar buf = parseToken nextChar buf :=
  (parseToken_readsToken hnext).search_eq (findcharFast_passed sse tokenRanges buf)

theorem advanceTokenAs_eq (sse : Bool) (buf : Bytes) :
    advanceTokenAs sse buf = advanceToken buf :=
  advanceToken_readsToken.search_eq (findcharFast_passed sse advanceRanges buf)

/-! ## Lines -/

theorem isCtl_not_printable : ∀ c, (!isPrintableAscii c && isCtl c) = isCtl c :=
  forall_byte (by decide +kernel)

theorem inRanges_eolRanges : ∀ c, inRanges eolRanges c = isCtl c :=
  forall_byte (by decide +kernel)

/-- The line goes on. -/
theorem getTokenToEol_passed {passed : Bytes} (h : ∀ c ∈ passed, (!isCtl c) = true)
    (buf : Bytes) :
    getTokenToEol (passed ++ buf) =
      (getTokenToEol buf).map fun r => (passed ++ r.1, r.2) := by
  induction passed with
  | nil =>
    rw [List.nil_append]
    cases getTokenToEol buf <;> rfl
  | cons c passed ih =>
    have hc := h c List.mem_cons_self
    rw [Bool.not_eq_true'] at hc
    rw [List.cons_append, getTokenToEol]
    unfold isCtl at hc
    rw [hc, if_neg Bool.false_ne_true, ih fun x hx => h x (List.mem_cons_of_mem c hx)]
    cases getTokenToEol buf <;> rfl

/-- A control character ends it. -/
theorem getTokenToEol_ctl {c : UInt8} (hc : isCtl c = true) (buf : Bytes) :
    getTokenToEol (c :: buf) = foundCtl [] (c :: buf) := by
  rw [getTokenToEol]
  unfold isCtl at hc
  rw [hc, if_pos rfl]
  rfl

theorem foundCtl_append (passed buf : Bytes) :
    foundCtl passed buf = (foundCtl [] buf).map fun r => (passed ++ r.1, r.2) := by
  cases buf with
  | nil => rfl
  | cons c buf =>
    have hnil := List.append_nil passed
    by_cases hcr : c = cr
    · rw [foundCtl, foundCtl, if_pos hcr, if_pos hcr]
      cases expectChar lf buf with
      | error e => rfl
      | ok rest => exact congrArg (fun x => Except.ok (x, rest)) hnil.symm
    · rw [foundCtl, foundCtl, if_neg hcr, if_neg hcr]
      split
      · exact congrArg (fun x => Except.ok (x, buf)) hnil.symm
      · rfl

/-- The slow loop stops at the first control character. -/
theorem eolLoop_spec (buf : Bytes) :
    (eolLoop buf = .error .incomplete ∧ ∀ c ∈ buf, (!isCtl c) = true) ∨
      ∃ rest, eolLoop buf = .ok rest ∧ Passed (fun c => !isCtl c) buf rest true := by
  induction buf with
  | nil => exact .inl ⟨rfl, fun _ hc => absurd hc List.not_mem_nil⟩
  | cons c buf ih =>
    rw [eolLoop, isCtl_not_printable]
    cases hc : isCtl c with
    | true =>
      refine .inr ⟨c :: buf, rfl, [], rfl, fun _ hx => absurd hx List.not_mem_nil, fun _ => ?_⟩
      exact ⟨c, buf, rfl, congrArg not hc⟩
    | false =>
      have hone : ∀ x ∈ [c], (!isCtl x) = true := by
        intro x hx
        rw [List.mem_singleton.1 hx, hc]
        rfl
      rcases ih with ⟨hloop, hall⟩ | ⟨rest, hloop, hpassed⟩
      · exact .inl ⟨hloop, List.forall_mem_cons.2 ⟨hone c (List.mem_singleton_self c), hall⟩⟩
      · exact .inr ⟨rest, hloop, hpassed.append hone⟩

theorem doIts_spec (n : Nat) (buf : Bytes) :
    Passed isPrintableAscii buf (doIts n buf).1 (doIts n buf).2 := by
  induction n generalizing buf with
  | zero => exact .refl _ _
  | succ n ih =>
    cases buf with
    | nil => exact .refl _ _
    | cons c buf =>
      unfold doIts
      split
      · next hc =>
        refine ⟨[], rfl, fun _ hx => absurd hx List.not_mem_nil, fun _ => ⟨c, buf, rfl, ?_⟩⟩
        rwa [Bool.not_eq_true'] at hc
      · next hc =>
        rw [Bool.not_eq_true', Bool.not_eq_false] at hc
        have hone : ∀ x ∈ [c], isPrintableAscii x = true := fun x hx => by
          rw [List.mem_singleton.1 hx, hc]
        exact (ih buf).append hone

theorem printable_not_ctl : ∀ c, isPrintableAscii c = true → (!isCtl c) = true :=
  forall_byte (by decide +kernel)

theorem unrolled_passed (fuel : Nat) (buf : Bytes) :
    Passed (fun c => !isCtl c) buf (unrolled fuel buf).1 (unrolled fuel buf).2 := by
  induction fuel generalizing buf with
  | zero => exact .refl _ _
  | succ fuel ih =>
    unfold unrolled
    split
    · exact .refl _ _
    · obtain ⟨passed, hbuf, hpassed, hfound⟩ := doIts_spec 8 buf
      have htext : ∀ c ∈ passed, (!isCtl c) = true :=
        fun c hc => printable_not_ctl c (hpassed c hc)
      split
      · next c rest hdo =>
        rw [hdo] at hbuf
        rw [hbuf]
        split
        · next hctl =>
          refine Passed.append ⟨[], rfl, fun _ hx => absurd hx List.not_mem_nil, fun _ => ?_⟩ htext
          exact ⟨c, rest, rfl, congrArg not hctl⟩
        · next hctl =>
          have hone : ∀ x ∈ [c], (!isCtl x) = true := fun x hx => by
            rw [List.mem_singleton.1 hx, Bool.eq_false_iff.2 hctl]
            rfl
          exact Passed.append ((ih rest).append hone) htext
      · next rest _ _ hdo =>
        rw [hdo] at hbuf
        rw [hbuf]
        exact (ih rest).append htext

theorem getTokenToEol_search {found : Bool} (h : Passed (fun c => !isCtl c) buf rest found) :
    (do
      let later ← if found then .ok rest else eolLoop rest
      foundCtl (upTo buf later) later) = getTokenToEol buf := by
  obtain ⟨passed, rfl, hpassed, hfound⟩ := h
  have hctl : ∀ {more later : Bytes}, (∀ c ∈ more, (!isCtl c) = true) →
      (∃ c tail, later = c :: tail ∧ (!isCtl c) = false) →
      foundCtl (upTo (more ++ later) later) later = getTokenToEol (more ++ later) := by
    rintro more later hmore ⟨c, tail, rfl, hc⟩
    rw [Bool.not_eq_false'] at hc
    rw [upTo_append, getTokenToEol_passed hmore, getTokenToEol_ctl hc, foundCtl_append]
  cases found with
  | true => exact hctl hpassed (hfound rfl)
  | false =>
    rcases eolLoop_spec rest with ⟨hloop, hall⟩ | ⟨later, hloop, more, rfl, hmore, hend⟩
    · have hboth : ∀ c ∈ passed ++ rest, (!isCtl c) = true :=
        fun c hc => (List.mem_append.1 hc).elim (hpassed c) (hall c)
      have hline := getTokenToEol_passed hboth []
      rw [List.append_nil] at hline
      rw [if_neg Bool.false_ne_true, hloop, hline]
      rfl
    · rw [if_neg Bool.false_ne_true, hloop, ← List.append_assoc]
      refine hctl (fun c hc => ?_) (hend rfl)
      exact (List.mem_append.1 hc).elim (hpassed c) (hmore c)

theorem getTokenToEolAs_eq (sse : Bool) (buf : Bytes) :
    getTokenToEolAs sse buf = getTokenToEol buf := by
  cases sse with
  | true =>
    have hpassed := findcharFast_passed true eolRanges buf
    simp only [inRanges_eolRanges] at hpassed
    exact getTokenToEol_search hpassed
  | false => exact getTokenToEol_search (unrolled_passed buf.length buf)

/-! ## Requests and responses -/

theorem parseHeaderNameAs_eq (sse : Bool) (buf : Bytes) :
    parseHeaderNameAs sse buf = parseHeaderName buf := by
  unfold parseHeaderNameAs parseHeaderName
  rw [parseTokenAs_eq sse (by decide)]

theorem parseHeadersAs_eq (sse : Bool) (room : Nat) (first : Bool) (buf : Bytes) :
    parseHeadersAs sse room first buf = parseHeaders room first buf := by
  induction room generalizing first buf with
  | zero =>
    cases buf with
    | nil => rfl
    | cons c buf => rfl
  | succ room ih =>
    cases buf with
    | nil => rfl
    | cons c buf =>
      have hline : headerLineAs sse first c buf = headerLine first c buf := by
        unfold headerLineAs headerLine
        rw [parseHeaderNameAs_eq]
      rw [parseHeadersAs, parseHeaders, hline]
      simp only [getTokenToEolAs_eq, ih]

theorem phrParseRequestAs_eq (sse : Bool) (maxHeaders : Nat) (buf : Bytes) :
    phrParseRequestAs sse maxHeaders buf = phrParseRequest maxHeaders buf := by
  have hmethod : ∀ buf, parseTokenAs sse sp buf = parseToken sp buf :=
    parseTokenAs_eq sse (by decide)
  unfold phrParseRequestAs phrParseRequest
  simp only [hmethod, advanceTokenAs_eq, parseHeadersAs_eq]

theorem phrParseResponseAs_eq (sse : Bool) (maxHeaders : Nat) (buf : Bytes) :
    phrParseResponseAs sse maxHeaders buf = phrParseResponse maxHeaders buf := by
  have hline : getTokenToEolAs sse = getTokenToEol := funext (getTokenToEolAs_eq sse)
  have hheaders : parseHeadersAs sse = parseHeaders :=
    funext fun room => funext fun first => funext (parseHeadersAs_eq sse room first)
  unfold phrParseResponseAs
  rw [hline, hheaders]
  rfl

/-- **The fast searches make no difference**, in both builds: requests and responses are read alike.
After a failure the return values are the same, and of a response also the version, the status and
the message that were written before it. -/
theorem phrParseAs_eq (sse : Bool) (maxHeaders : Nat) (buf : Bytes) :
    phrParseRequestAs sse maxHeaders buf = phrParseRequest maxHeaders buf ∧
      phrParseResponseAs sse maxHeaders buf = phrParseResponse maxHeaders buf :=
  ⟨phrParseRequestAs_eq sse maxHeaders buf, phrParseResponseAs_eq sse maxHeaders buf⟩

end GameServer.Http
