import GameServer.Http.HttpCommon

/-!
# `phr_parse_request`

The request parser of picohttpparser on a complete buffer (`last_len` zero). A pointer into the
buffer is the rest of the bytes from it on, a parsed text is the bytes it spans. The search with
SSE instructions skips bytes that the loop after it would skip, so it is left out.
-/

namespace GameServer.Http

/-- `*ret = -1` and `*ret = -2`. -/
inductive PhrError where
  | failed
  | incomplete
  deriving DecidableEq, Repr

def PhrError.ret : PhrError → Int
  | failed => -1
  | incomplete => -2

abbrev Phr (α : Type) : Type := Except PhrError α

/-- `struct phr_header`; a continued line has no name. -/
structure PhrHeader where
  name : Bytes
  value : Bytes
  deriving DecidableEq, Repr

/-- What `phr_parse_request` writes through its pointers, and the length it returns. -/
structure PhrRequest where
  method : Bytes
  path : Bytes
  minorVersion : Nat
  headers : List PhrHeader
  length : Nat
  deriving DecidableEq, Repr

def sp : UInt8 := 0x20
def htab : UInt8 := 0x09
def cr : UInt8 := 0x0d
def lf : UInt8 := 0x0a
def del : UInt8 := 0x7f

/-- `EXPECT_CHAR`. -/
def expectChar (ch : UInt8) : Bytes → Phr Bytes
  | [] => .error .incomplete
  | c :: buf => if c = ch then .ok buf else .error .failed

/-- `token_char_map`, with its rows cut in two. -/
def tokenCharMap : List Nat :=
  List.replicate 32 0 ++
  [0, 1, 0, 1, 1, 1, 1, 1, 0, 0, 1, 1, 0, 1, 1, 0] ++
  [1, 1, 1, 1, 1, 1, 1, 1, 1, 1, 0, 0, 0, 0, 0, 0] ++
  [0, 1, 1, 1, 1, 1, 1, 1, 1, 1, 1, 1, 1, 1, 1, 1] ++
  [1, 1, 1, 1, 1, 1, 1, 1, 1, 1, 1, 0, 0, 0, 1, 1] ++
  [1, 1, 1, 1, 1, 1, 1, 1, 1, 1, 1, 1, 1, 1, 1, 1] ++
  [1, 1, 1, 1, 1, 1, 1, 1, 1, 1, 1, 0, 1, 0, 1, 0] ++
  List.replicate 128 0

def isTokenChar (c : UInt8) : Bool := tokenCharMap.getD c.toNat 0 != 0

/-- `parse_token`: the token up to `nextChar`, and the rest from `nextChar` on. -/
def parseToken (nextChar : UInt8) : Bytes → Phr (Bytes × Bytes)
  | [] => .error .incomplete
  | c :: buf =>
    if c = nextChar then .ok ([], c :: buf)
    else if isTokenChar c then do
      let (token, rest) ← parseToken nextChar buf
      .ok (c :: token, rest)
    else .error .failed

/-- `ADVANCE_TOKEN`: up to a space, without control characters. -/
def advanceToken : Bytes → Phr (Bytes × Bytes)
  | [] => .error .incomplete
  | c :: buf =>
    if c = sp then .ok ([], c :: buf)
    else if c < 0x20 || c = del then .error .failed
    else do
      let (token, rest) ← advanceToken buf
      .ok (c :: token, rest)

/-- The rest of a run of spaces, after its first one. -/
def skipSpaces : Bytes → Phr Bytes
  | [] => .error .incomplete
  | c :: buf => if c = sp then skipSpaces buf else .ok (c :: buf)

/-- The loop `do ++buf while (*buf == ' ')`, started at a space. -/
def skipFrom : Bytes → Phr Bytes
  | [] => .error .incomplete
  | _ :: buf => skipSpaces buf

/-- `parse_http_version`: the minor version and the rest. -/
def parseHttpVersion (buf : Bytes) : Phr (Nat × Bytes) :=
  if buf.length < 9 then .error .incomplete
  else if buf.take 7 ≠ bytes "HTTP/1." then .error .failed
  else
    match buf.drop 7 with
    | [] => .error .failed
    | c :: rest =>
      if c < 0x30 || 0x39 < c then .error .failed else .ok (c.toNat - 0x30, rest)

def parseEol : Bytes → Phr Bytes
  | [] => .error .failed
  | c :: buf =>
    if c = cr then expectChar lf buf
    else if c = lf then .ok buf
    else .error .failed

/-- `get_token_to_eol`: the bytes up to the line end, and the rest after it. -/
def getTokenToEol : Bytes → Phr (Bytes × Bytes)
  | [] => .error .incomplete
  | c :: buf =>
    if (c < 0x20 && c != htab) || c == del then
      if c = cr then do
        let rest ← expectChar lf buf
        .ok ([], rest)
      else if c = lf then .ok ([], buf)
      else .error .failed
    else do
      let (token, rest) ← getTokenToEol buf
      .ok (c :: token, rest)

def isBlank (c : UInt8) : Bool := c == sp || c == htab

def trimValue (value : Bytes) : Bytes := (value.reverse.dropWhile isBlank).reverse

/-- The spaces and tabs after the colon of a header. -/
def skipBlanks : Bytes → Phr Bytes
  | [] => .error .incomplete
  | c :: buf => if isBlank c then skipBlanks buf else .ok (c :: buf)

/-- The name of a header and the rest after its colon and blanks. -/
def parseHeaderName (buf : Bytes) : Phr (Bytes × Bytes) := do
  let (name, rest) ← parseToken 0x3a buf
  if name.isEmpty then .error .failed
  else do
    let rest ← skipBlanks rest.tail
    .ok (name, rest)

/-- The start of a header line: a line that begins with a blank continues the header before it. -/
def headerLine (first : Bool) (c : UInt8) (buf : Bytes) : Phr (Bytes × Bytes) :=
  if !first && isBlank c then .ok ([], c :: buf) else parseHeaderName (c :: buf)

/-- `parse_headers` with room for so many more; `first` while none was parsed. -/
def parseHeaders : (room : Nat) → (first : Bool) → Bytes → Phr (List PhrHeader × Bytes)
  | _, _, [] => .error .incomplete
  | room, first, c :: buf =>
    if c = cr then do
      let rest ← expectChar lf buf
      .ok ([], rest)
    else if c = lf then .ok ([], buf)
    else
      match room with
      | 0 => .error .failed
      | room + 1 => do
        let (name, line) ← headerLine first c buf
        let (value, rest) ← getTokenToEol line
        let (headers, rest) ← parseHeaders room false rest
        .ok (⟨name, trimValue value⟩ :: headers, rest)

/-- An empty line before the request. -/
def skipEmptyLine : Bytes → Phr Bytes
  | [] => .error .incomplete
  | c :: buf =>
    if c = cr then expectChar lf buf
    else if c = lf then .ok buf
    else .ok (c :: buf)

/-- `phr_parse_request` with room for `maxHeaders` headers. -/
def phrParseRequest (maxHeaders : Nat) (buf : Bytes) : Phr PhrRequest := do
  let rest ← skipEmptyLine buf
  let (method, rest) ← parseToken sp rest
  let rest ← skipFrom rest
  let (path, rest) ← advanceToken rest
  let rest ← skipFrom rest
  if method.isEmpty || path.isEmpty then .error .failed
  else do
    let (minorVersion, rest) ← parseHttpVersion rest
    let rest ← parseEol rest
    let (headers, rest) ← parseHeaders maxHeaders true rest
    .ok ⟨method, path, minorVersion, headers, buf.length - rest.length⟩

/-! ## The parser moves forward -/

theorem phr_bind_ok {α β : Type} {x : Phr α} {f : α → Phr β} {b : β} :
    (x >>= f) = .ok b ↔ ∃ a, x = .ok a ∧ f a = .ok b := by
  cases x <;> simp [bind, Except.bind]

theorem length_expectChar {ch : UInt8} {buf rest : Bytes} (h : expectChar ch buf = .ok rest) :
    rest.length ≤ buf.length := by
  cases buf with
  | nil => cases h
  | cons c buf =>
    simp only [expectChar] at h
    split at h
    · cases h
      exact Nat.le_succ _
    · cases h

theorem length_skipEmptyLine {buf rest : Bytes} (h : skipEmptyLine buf = .ok rest) :
    rest.length ≤ buf.length := by
  cases buf with
  | nil => cases h
  | cons c buf =>
    simp only [skipEmptyLine] at h
    split at h
    · exact Nat.le_succ_of_le (length_expectChar h)
    · split at h
      · cases h
        exact Nat.le_succ _
      · cases h
        exact Nat.le_refl _

theorem length_parseToken {nextChar : UInt8} {buf token rest : Bytes}
    (h : parseToken nextChar buf = .ok (token, rest)) : rest.length ≤ buf.length := by
  induction buf generalizing token rest with
  | nil => cases h
  | cons c buf ih =>
    simp only [parseToken] at h
    split at h
    · cases h
      exact Nat.le_refl _
    · split at h
      · obtain ⟨⟨token', rest'⟩, hrest, hok⟩ := phr_bind_ok.1 h
        cases hok
        exact Nat.le_succ_of_le (ih hrest)
      · cases h

theorem length_advanceToken {buf token rest : Bytes} (h : advanceToken buf = .ok (token, rest)) :
    rest.length ≤ buf.length := by
  induction buf generalizing token rest with
  | nil => cases h
  | cons c buf ih =>
    simp only [advanceToken] at h
    split at h
    · cases h
      exact Nat.le_refl _
    · split at h
      · cases h
      · obtain ⟨⟨token', rest'⟩, hrest, hok⟩ := phr_bind_ok.1 h
        cases hok
        exact Nat.le_succ_of_le (ih hrest)

theorem length_skipSpaces {buf rest : Bytes} (h : skipSpaces buf = .ok rest) :
    rest.length ≤ buf.length := by
  induction buf with
  | nil => cases h
  | cons c buf ih =>
    simp only [skipSpaces] at h
    split at h
    · exact Nat.le_succ_of_le (ih h)
    · cases h
      exact Nat.le_refl _

theorem length_skipFrom {buf rest : Bytes} (h : skipFrom buf = .ok rest) :
    rest.length < buf.length := by
  cases buf with
  | nil => cases h
  | cons c buf => exact Nat.lt_succ_of_le (length_skipSpaces h)

theorem length_parseHttpVersion {buf rest : Bytes} {minorVersion : Nat}
    (h : parseHttpVersion buf = .ok (minorVersion, rest)) : rest.length ≤ buf.length := by
  simp only [parseHttpVersion] at h
  split at h
  · cases h
  · split at h
    · cases h
    · split at h
      · cases h
      · next c tail htail =>
        split at h
        · cases h
        · cases h
          have := congrArg List.length htail
          rw [List.length_drop, List.length_cons] at this
          omega

theorem length_parseEol {buf rest : Bytes} (h : parseEol buf = .ok rest) :
    rest.length ≤ buf.length := by
  cases buf with
  | nil => cases h
  | cons c buf =>
    simp only [parseEol] at h
    split at h
    · exact Nat.le_succ_of_le (length_expectChar h)
    · split at h
      · cases h
        exact Nat.le_succ _
      · cases h

theorem length_getTokenToEol {buf token rest : Bytes} (h : getTokenToEol buf = .ok (token, rest)) :
    rest.length ≤ buf.length := by
  induction buf generalizing token rest with
  | nil => cases h
  | cons c buf ih =>
    simp only [getTokenToEol] at h
    split at h
    · split at h
      · obtain ⟨rest', hrest, hok⟩ := phr_bind_ok.1 h
        cases hok
        exact Nat.le_succ_of_le (length_expectChar hrest)
      · split at h
        · cases h
          exact Nat.le_succ _
        · cases h
    · obtain ⟨⟨token', rest'⟩, hrest, hok⟩ := phr_bind_ok.1 h
      cases hok
      exact Nat.le_succ_of_le (ih hrest)

theorem length_skipBlanks {buf rest : Bytes} (h : skipBlanks buf = .ok rest) :
    rest.length ≤ buf.length := by
  induction buf with
  | nil => cases h
  | cons c buf ih =>
    simp only [skipBlanks] at h
    split at h
    · exact Nat.le_succ_of_le (ih h)
    · cases h
      exact Nat.le_refl _

theorem length_parseHeaderName {buf name rest : Bytes}
    (h : parseHeaderName buf = .ok (name, rest)) : rest.length ≤ buf.length := by
  unfold parseHeaderName at h
  obtain ⟨⟨token, rest₁⟩, htoken, h⟩ := phr_bind_ok.1 h
  dsimp only at h
  split at h
  · cases h
  · obtain ⟨rest₂, hblanks, hok⟩ := phr_bind_ok.1 h
    cases hok
    have h₁ := length_parseToken htoken
    have h₂ := length_skipBlanks hblanks
    rw [List.length_tail] at h₂
    omega

theorem length_headerLine {first : Bool} {c : UInt8} {buf name line : Bytes}
    (h : headerLine first c buf = .ok (name, line)) : line.length ≤ (c :: buf).length := by
  unfold headerLine at h
  split at h
  · cases h
    exact Nat.le_refl _
  · exact length_parseHeaderName h

/-- The headers that are parsed fit into the room for them. -/
theorem length_parseHeaders {room : Nat} {first : Bool} {buf rest : Bytes}
    {headers : List PhrHeader} (h : parseHeaders room first buf = .ok (headers, rest)) :
    rest.length ≤ buf.length ∧ headers.length ≤ room := by
  induction room generalizing first buf rest headers with
  | zero =>
    cases buf with
    | nil => cases h
    | cons c buf =>
      unfold parseHeaders at h
      split at h
      · obtain ⟨rest', hrest, hok⟩ := phr_bind_ok.1 h
        cases hok
        exact ⟨Nat.le_succ_of_le (length_expectChar hrest), Nat.le_refl _⟩
      · split at h
        · cases h
          exact ⟨Nat.le_succ _, Nat.le_refl _⟩
        · cases h
  | succ room ih =>
    cases buf with
    | nil => cases h
    | cons c buf =>
      unfold parseHeaders at h
      split at h
      · obtain ⟨rest', hrest, hok⟩ := phr_bind_ok.1 h
        cases hok
        exact ⟨Nat.le_succ_of_le (length_expectChar hrest), Nat.zero_le _⟩
      · split at h
        · cases h
          exact ⟨Nat.le_succ _, Nat.zero_le _⟩
        · obtain ⟨⟨name, line⟩, hname, h₁⟩ := phr_bind_ok.1 h
          obtain ⟨⟨value, rest₁⟩, hvalue, h₂⟩ := phr_bind_ok.1 h₁
          obtain ⟨⟨headers', rest'⟩, hheaders, hok⟩ := phr_bind_ok.1 h₂
          cases hok
          obtain ⟨hrest, hroom⟩ := ih hheaders
          have hvalue := length_getTokenToEol hvalue
          have hline := length_headerLine hname
          exact ⟨Nat.le_trans hrest (Nat.le_trans hvalue hline), Nat.succ_le_succ hroom⟩

/-- **A request that is accepted** has bytes of its own and no more headers than there is room. -/
theorem phrParseRequest_ok {maxHeaders : Nat} {buf : Bytes} {r : PhrRequest}
    (h : phrParseRequest maxHeaders buf = .ok r) :
    0 < r.length ∧ r.length ≤ buf.length ∧ r.headers.length ≤ maxHeaders := by
  unfold phrParseRequest at h
  obtain ⟨rest₁, hempty, h⟩ := phr_bind_ok.1 h
  obtain ⟨⟨method, rest₂⟩, hmethod, h⟩ := phr_bind_ok.1 h
  obtain ⟨rest₃, hskip, h⟩ := phr_bind_ok.1 h
  obtain ⟨⟨path, rest₄⟩, hpath, h⟩ := phr_bind_ok.1 h
  obtain ⟨rest₅, hskip', h⟩ := phr_bind_ok.1 h
  dsimp only at h
  split at h
  · cases h
  · obtain ⟨⟨minorVersion, rest₆⟩, hversion, h⟩ := phr_bind_ok.1 h
    obtain ⟨rest₇, heol, h⟩ := phr_bind_ok.1 h
    obtain ⟨⟨headers, rest₈⟩, hheaders, h⟩ := phr_bind_ok.1 h
    cases h
    have h₁ := length_skipEmptyLine hempty
    have h₂ := length_parseToken hmethod
    have h₃ := length_skipFrom hskip
    have h₄ := length_advanceToken hpath
    have h₅ := length_skipFrom hskip'
    have h₆ := length_parseHttpVersion hversion
    have h₇ : rest₇.length ≤ rest₆.length := length_parseEol heol
    obtain ⟨h₈, hroom⟩ := length_parseHeaders hheaders
    dsimp only
    exact ⟨by omega, by omega, hroom⟩

end GameServer.Http
