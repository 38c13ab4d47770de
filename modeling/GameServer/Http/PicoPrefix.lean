import GameServer.Http.PicoHttpParser

/-!
# `phr_parse_request` and what follows the head

The parser reads a request up to the empty line after its headers. A text that is accepted is
accepted with the same result when more bytes follow it (`phrParseRequest_more`), so no text
that ends before the head does is accepted (`phrParseRequest_cut`).
-/

namespace GameServer.Http

variable {buf rest : Bytes}

theorem expectChar_more {ch : UInt8} (h : expectChar ch buf = .ok rest) (more : Bytes) :
    expectChar ch (buf ++ more) = .ok (rest ++ more) := by
  cases buf with
  | nil => cases h
  | cons c buf =>
    simp only [expectChar, List.cons_append] at h ⊢
    split at h
    · next heq =>
      cases h
      rw [if_pos heq]
    · cases h

theorem skipEmptyLine_more (h : skipEmptyLine buf = .ok rest) (more : Bytes) :
    skipEmptyLine (buf ++ more) = .ok (rest ++ more) := by
  cases buf with
  | nil => cases h
  | cons c buf =>
    simp only [skipEmptyLine, List.cons_append] at h ⊢
    split at h
    · next hcr =>
      rw [if_pos hcr]
      exact expectChar_more h more
    · next hcr =>
      rw [if_neg hcr]
      split at h
      · next hlf =>
        cases h
        rw [if_pos hlf]
      · next hlf =>
        cases h
        rw [if_neg hlf]
        rfl

theorem parseEol_more (h : parseEol buf = .ok rest) (more : Bytes) :
    parseEol (buf ++ more) = .ok (rest ++ more) := by
  cases buf with
  | nil => cases h
  | cons c buf =>
    simp only [parseEol, List.cons_append] at h ⊢
    split at h
    · next hcr =>
      rw [if_pos hcr]
      exact expectChar_more h more
    · next hcr =>
      rw [if_neg hcr]
      split at h
      · next hlf =>
        cases h
        rw [if_pos hlf]
      · cases h

theorem parseToken_more {nextChar : UInt8} {token : Bytes}
    (h : parseToken nextChar buf = .ok (token, rest)) (more : Bytes) :
    parseToken nextChar (buf ++ more) = .ok (token, rest ++ more) := by
  induction buf generalizing token rest with
  | nil => cases h
  | cons c buf ih =>
    simp only [parseToken, List.cons_append] at h ⊢
    split at h
    · next heq =>
      cases h
      rw [if_pos heq]
      rfl
    · next hne =>
      rw [if_neg hne]
      split at h
      · next htoken =>
        obtain ⟨⟨token', rest'⟩, hrest, hok⟩ := phr_bind_ok.1 h
        cases hok
        rw [if_pos htoken, ih hrest]
        rfl
      · cases h

theorem advanceToken_more {token : Bytes} (h : advanceToken buf = .ok (token, rest))
    (more : Bytes) : advanceToken (buf ++ more) = .ok (token, rest ++ more) := by
  induction buf generalizing token rest with
  | nil => cases h
  | cons c buf ih =>
    simp only [advanceToken, List.cons_append] at h ⊢
    split at h
    · next heq =>
      cases h
      rw [if_pos heq]
      rfl
    · next hne =>
      rw [if_neg hne]
      split at h
      · cases h
      · next hctl =>
        obtain ⟨⟨token', rest'⟩, hrest, hok⟩ := phr_bind_ok.1 h
        cases hok
        rw [if_neg hctl, ih hrest]
        rfl

theorem skipSpaces_more (h : skipSpaces buf = .ok rest) (more : Bytes) :
    skipSpaces (buf ++ more) = .ok (rest ++ more) := by
  induction buf with
  | nil => cases h
  | cons c buf ih =>
    simp only [skipSpaces, List.cons_append] at h ⊢
    split at h
    · next heq =>
      rw [if_pos heq]
      exact ih h
    · next hne =>
      cases h
      rw [if_neg hne]
      rfl

theorem skipFrom_more (h : skipFrom buf = .ok rest) (more : Bytes) :
    skipFrom (buf ++ more) = .ok (rest ++ more) := by
  cases buf with
  | nil => cases h
  | cons c buf => exact skipSpaces_more h more

theorem parseHttpVersion_more {minorVersion : Nat}
    (h : parseHttpVersion buf = .ok (minorVersion, rest)) (more : Bytes) :
    parseHttpVersion (buf ++ more) = .ok (minorVersion, rest ++ more) := by
  simp only [parseHttpVersion] at h ⊢
  split at h
  · cases h
  · next hlen =>
    have hmore : ¬(buf ++ more).length < 9 := by
      rw [List.length_append]
      omega
    have htake : (buf ++ more).take 7 = buf.take 7 := List.take_append_of_le_length (by omega)
    have hdrop : (buf ++ more).drop 7 = buf.drop 7 ++ more :=
      List.drop_append_of_le_length (by omega)
    rw [if_neg hmore, htake, hdrop]
    split at h
    · cases h
    · next hhttp =>
      rw [if_neg hhttp]
      split at h
      · cases h
      · next c tail htail =>
        rw [htail, List.cons_append]
        split at h
        · cases h
        · next hdigit =>
          cases h
          exact if_neg hdigit

theorem getTokenToEol_more {token : Bytes} (h : getTokenToEol buf = .ok (token, rest))
    (more : Bytes) : getTokenToEol (buf ++ more) = .ok (token, rest ++ more) := by
  induction buf generalizing token rest with
  | nil => cases h
  | cons c buf ih =>
    simp only [getTokenToEol, List.cons_append] at h ⊢
    split at h
    · next hctl =>
      rw [if_pos hctl]
      split at h
      · next hcr =>
        obtain ⟨rest', hrest, hok⟩ := phr_bind_ok.1 h
        cases hok
        rw [if_pos hcr, expectChar_more hrest]
        rfl
      · next hcr =>
        rw [if_neg hcr]
        split at h
        · next hlf =>
          cases h
          rw [if_pos hlf]
        · cases h
    · next hctl =>
      obtain ⟨⟨token', rest'⟩, hrest, hok⟩ := phr_bind_ok.1 h
      cases hok
      rw [if_neg hctl, ih hrest]
      rfl

theorem skipBlanks_more (h : skipBlanks buf = .ok rest) (more : Bytes) :
    skipBlanks (buf ++ more) = .ok (rest ++ more) := by
  induction buf with
  | nil => cases h
  | cons c buf ih =>
    simp only [skipBlanks, List.cons_append] at h ⊢
    split at h
    · next hblank =>
      rw [if_pos hblank]
      exact ih h
    · next hblank =>
      cases h
      rw [if_neg hblank]
      rfl

theorem parseHeaderName_more {name : Bytes} (h : parseHeaderName buf = .ok (name, rest))
    (more : Bytes) : parseHeaderName (buf ++ more) = .ok (name, rest ++ more) := by
  unfold parseHeaderName at h ⊢
  obtain ⟨⟨token, rest₁⟩, htoken, h⟩ := phr_bind_ok.1 h
  rw [parseToken_more htoken more]
  refine phr_bind_ok.2 ⟨_, rfl, ?_⟩
  dsimp only at h ⊢
  split at h
  · cases h
  · next hname =>
    obtain ⟨rest₂, hblanks, hok⟩ := phr_bind_ok.1 h
    cases hok
    have htail : (rest₁ ++ more).tail = rest₁.tail ++ more := by
      cases rest₁ with
      | nil => cases hblanks
      | cons c rest₁ => rfl
    rw [if_neg hname, htail, skipBlanks_more hblanks]
    rfl

theorem headerLine_more {first : Bool} {c : UInt8} {name line : Bytes}
    (h : headerLine first c buf = .ok (name, line)) (more : Bytes) :
    headerLine first c (buf ++ more) = .ok (name, line ++ more) := by
  unfold headerLine at h ⊢
  split at h
  · next hblank =>
    cases h
    exact if_pos hblank
  · next hblank =>
    rw [if_neg hblank]
    exact parseHeaderName_more h more

/-- The empty line that ends the headers, whatever room there is for more. -/
theorem parseHeaders_end {room : Nat} {first : Bool} {c : UInt8} (hc : c = cr ∨ c = lf)
    (buf : Bytes) :
    parseHeaders room first (c :: buf) =
      (if c = cr then expectChar lf buf else .ok buf).map fun rest => ([], rest) := by
  have hlf : c ≠ cr → c = lf := hc.resolve_left
  unfold parseHeaders
  split
  · cases expectChar lf buf <;> rfl
  · next hcr =>
    rw [if_pos (hlf hcr)]
    rfl

theorem parseHeaders_end_more {room : Nat} {first : Bool} {c : UInt8} (hc : c = cr ∨ c = lf)
    {headers : List PhrHeader} (h : parseHeaders room first (c :: buf) = .ok (headers, rest))
    (more : Bytes) :
    parseHeaders room first (c :: (buf ++ more)) = .ok (headers, rest ++ more) := by
  rw [parseHeaders_end hc] at h ⊢
  split at h
  · next hcr =>
    cases hline : expectChar lf buf with
    | error e =>
      rw [hline] at h
      cases h
    | ok rest' =>
      rw [hline] at h
      cases h
      rw [if_pos hcr, expectChar_more hline]
      rfl
  · next hcr =>
    cases h
    rw [if_neg hcr]
    rfl

theorem parseHeaders_more {room : Nat} {first : Bool} {headers : List PhrHeader}
    (h : parseHeaders room first buf = .ok (headers, rest)) (more : Bytes) :
    parseHeaders room first (buf ++ more) = .ok (headers, rest ++ more) := by
  induction room generalizing first buf rest headers with
  | zero =>
    cases buf with
    | nil => cases h
    | cons c buf =>
      by_cases hc : c = cr ∨ c = lf
      · exact parseHeaders_end_more hc h more
      · obtain ⟨hcr, hlf⟩ := not_or.1 hc
        rw [parseHeaders, if_neg hcr, if_neg hlf] at h
        cases h
  | succ room ih =>
    cases buf with
    | nil => cases h
    | cons c buf =>
      by_cases hc : c = cr ∨ c = lf
      · exact parseHeaders_end_more hc h more
      · obtain ⟨hcr, hlf⟩ := not_or.1 hc
        rw [parseHeaders, if_neg hcr, if_neg hlf] at h
        obtain ⟨⟨name, line⟩, hname, h⟩ := phr_bind_ok.1 h
        obtain ⟨⟨value, rest₁⟩, hvalue, h⟩ := phr_bind_ok.1 h
        obtain ⟨⟨headers', rest'⟩, hheaders, hok⟩ := phr_bind_ok.1 h
        cases hok
        rw [List.cons_append, parseHeaders, if_neg hcr, if_neg hlf, headerLine_more hname]
        refine phr_bind_ok.2 ⟨_, rfl, phr_bind_ok.2 ⟨_, getTokenToEol_more hvalue more, ?_⟩⟩
        exact phr_bind_ok.2 ⟨_, ih hheaders, rfl⟩

/-- **More bytes do not matter** after a request. -/
theorem phrParseRequest_more {maxHeaders : Nat} {r : PhrRequest}
    (h : phrParseRequest maxHeaders buf = .ok r) (more : Bytes) :
    phrParseRequest maxHeaders (buf ++ more) = .ok r := by
  unfold phrParseRequest at h ⊢
  obtain ⟨rest₁, hempty, h⟩ := phr_bind_ok.1 h
  obtain ⟨⟨method, rest₂⟩, hmethod, h⟩ := phr_bind_ok.1 h
  obtain ⟨rest₃, hskip, h⟩ := phr_bind_ok.1 h
  obtain ⟨⟨path, rest₄⟩, hpath, h⟩ := phr_bind_ok.1 h
  obtain ⟨rest₅, hskip', h⟩ := phr_bind_ok.1 h
  refine phr_bind_ok.2 ⟨_, skipEmptyLine_more hempty more, ?_⟩
  refine phr_bind_ok.2 ⟨_, parseToken_more hmethod more, ?_⟩
  refine phr_bind_ok.2 ⟨_, skipFrom_more hskip more, ?_⟩
  refine phr_bind_ok.2 ⟨_, advanceToken_more hpath more, ?_⟩
  refine phr_bind_ok.2 ⟨_, skipFrom_more hskip' more, ?_⟩
  dsimp only at h ⊢
  split at h
  · cases h
  · next hnames =>
    rw [if_neg hnames]
    obtain ⟨⟨minorVersion, rest₆⟩, hversion, h⟩ := phr_bind_ok.1 h
    obtain ⟨rest₇, heol, h⟩ := phr_bind_ok.1 h
    obtain ⟨⟨headers, rest₈⟩, hheaders, h⟩ := phr_bind_ok.1 h
    cases h
    refine phr_bind_ok.2 ⟨_, parseHttpVersion_more hversion more, ?_⟩
    refine phr_bind_ok.2 ⟨_, parseEol_more heol more, ?_⟩
    refine phr_bind_ok.2 ⟨_, parseHeaders_more hheaders more, ?_⟩
    have hlength : (buf ++ more).length - (rest₈ ++ more).length = buf.length - rest₈.length := by
      rw [List.length_append, List.length_append]
      omega
    rw [hlength]

/-- **A head that is cut off is not accepted.** -/
theorem phrParseRequest_cut {maxHeaders : Nat} {head : Bytes} {r : PhrRequest}
    (h : phrParseRequest maxHeaders head = .ok r) (hwhole : r.length = head.length)
    {more : Bytes} (hhead : buf ++ more = head) (hmore : more ≠ []) (r' : PhrRequest) :
    phrParseRequest maxHeaders buf ≠ .ok r' := by
  intro h'
  have hsame := phrParseRequest_more h' more
  rw [hhead, h] at hsame
  cases hsame
  have hle := (phrParseRequest_ok h').2.1
  have hpos := List.length_pos_of_ne_nil hmore
  rw [hwhole, ← hhead, List.length_append] at hle
  omega

end GameServer.Http
