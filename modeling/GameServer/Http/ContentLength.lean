import GameServer.Util.StringTo

/-!
# `_bodyLen`

`ParseRequest` reads the first `Content-Length` header with `StringTo<int>` and takes 0 where that
gives nothing. A negative number is therefore taken as it is, and a value that is no number, or
one that `int` does not have, is taken for 0; the request is accepted in all these cases.
`bodyLen_right_iff` says that the length is right exactly if the header is missing or is a decimal
text of a number that `int` has.
-/

namespace GameServer.Http

open GameServer.Lib GameServer.Util

/-- The number that a text of decimal digits stands for. -/
def decimalValue (s : Bytes) : Nat := s.foldl (fun n c => n * 10 + (c.toNat - 0x30)) 0

/-- At least one byte, and decimal digits only. -/
def DecimalText (s : Bytes) : Prop := s ≠ [] ∧ ∀ c ∈ s, 0x30 ≤ c ∧ c ≤ 0x39

/-- The value of the first `Content-Length` header, in any letter case, of a request text. -/
def requestContentLength (content : Bytes) : Option Bytes :=
  match phrParseRequest maxHeaderFieldNum content with
  | .error _ => none
  | .ok r =>
    (r.headers.find? fun header =>
      header.name.map toLower == bytes "content-length").map PhrHeader.value

/-- The length that the text of a request asks for. -/
structure BodyLenRight (content : Bytes) (p : HttpParser) : Prop where
  nonneg : 0 ≤ p.bodyLen
  absent : requestContentLength content = none → p.bodyLen = 0
  decimal : ∀ value, requestContentLength content = some value →
    DecimalText value ∧ decimalValue value < 0x80000000 ∧ p.bodyLen = decimalValue value

/-- `Content-Length` is missing or a decimal number of type `int`. -/
def LengthReadable (content : Bytes) : Prop :=
  ∀ value, requestContentLength content = some value →
    DecimalText value ∧ decimalValue value < 0x80000000

/-! ## Digits -/

/-- `fromDigits` reads digits as the number they stand for. -/
theorem fromDigits_eq_foldl {s : Bytes} (h : ∀ c ∈ s, 0x30 ≤ c ∧ c ≤ 0x39) (value : Nat) :
    fromDigits value s = some (s.foldl (fun n c => n * 10 + (c.toNat - 0x30)) value) := by
  induction s generalizing value with
  | nil => rfl
  | cons c s ih =>
    obtain ⟨hlo, hhi⟩ := h c List.mem_cons_self
    have hdigit : ¬(c < 0x30 || 0x39 < c) = true := by
      simp [UInt8.not_lt.2 hlo, UInt8.not_lt.2 hhi]
    rw [fromDigits, if_neg hdigit, ih fun d hd => h d (List.mem_cons_of_mem c hd), List.foldl_cons]

/-- A decimal text does not begin with a sign, so that `StringTo<int>` reads all of it. -/
theorem stringToInt_decimal {s : Bytes} (h : DecimalText s) (hlt : decimalValue s < 0x80000000) :
    stringToInt s = some (decimalValue s : Int) := by
  obtain ⟨hne, hdigits⟩ := h
  have hvalue : fromDigits 0 s = some (decimalValue s) := fromDigits_eq_foldl hdigits 0
  have hempty : s.isEmpty = false := List.isEmpty_eq_false_iff.2 hne
  have hsign : readSign .int32 s = (false, s) := by
    unfold readSign
    split
    · exact absurd (hdigits _ List.mem_cons_self).1 (by decide)
    · rfl
  have hrange : IntType.int32.InRange (decimalValue s : Int) := by
    have hint : ∀ v : Int, IntType.int32.InRange v ↔ -0x80000000 ≤ v ∧ v < 0x80000000 :=
      fun v => Iff.rfl
    rw [hint]
    omega
  rw [stringToInt_eq, stringTo, hsign, readNumber, hempty, hvalue]
  simp [Option.filter, hrange]

/-! ## The header that is found -/

/-- Slots without a name are not found: what is looked up are the headers of the request. -/
theorem getHeaderValue_headerArray (p : HttpParser) (headers : List PhrHeader) {key : Bytes}
    (hkey : stringEqual [] key = false) :
    { p with headers := HttpParser.headerArray headers }.getHeaderValue key =
      ((headers.find? fun header => stringEqual header.name key).map PhrHeader.value).getD [] := by
  have hunused (n : Nat) : (List.replicate n (([], []) : HttpHeader)).find?
      (fun header => stringEqual header.1 key) = none := by
    rw [List.find?_eq_none]
    intro header hmem
    rw [List.eq_of_mem_replicate hmem, hkey]
    exact Bool.false_ne_true
  simp only [HttpParser.getHeaderValue, HttpParser.headerArray, List.find?_append, hunused,
    Option.or_none, List.find?_map]
  cases hfind : headers.find? fun header => stringEqual header.name key with
  | none => simp only [Function.comp_def, hfind, Option.map_none, Option.getD_none]
  | some header => simp only [Function.comp_def, hfind, Option.map_some, Option.getD_some]

/-- The query is parsed after the length was stored, and leaves it. -/
theorem bodyLen_store (p : HttpParser) (content : Bytes) (r : PhrRequest) :
    (p.store content r).bodyLen =
      (stringToInt ({ p with headers := HttpParser.headerArray r.headers }.getHeaderValue
        (bytes "content-length"))).getD 0 := by
  simp only [HttpParser.store, HttpParser.parseQuery]
  split
  · split <;> rfl
  · rfl

/-- **What is stored** of an accepted request: `StringTo<int>` of the first `Content-Length`
header, or 0. -/
theorem bodyLen_parseRequest (p : HttpParser) {content : Bytes}
    (h : (p.parseRequest content).1 ≠ 0) : (p.parseRequest content).2.bodyLen =
      ((requestContentLength content).bind stringToInt).getD 0 := by
  have hlower : (bytes "content-length").map toLower = bytes "content-length" := by decide
  unfold HttpParser.parseRequest requestContentLength at *
  split at h
  · exact absurd rfl h
  · next hne =>
    rw [if_neg hne]
    cases hphr : phrParseRequest maxHeaderFieldNum content with
    | error e =>
      rw [hphr] at h
      exact absurd rfl h
    | ok r =>
      simp only [bodyLen_store]
      rw [getHeaderValue_headerArray p r.headers (by decide)]
      simp only [stringEqual, hlower]
      cases r.headers.find? fun header => header.name.map toLower == bytes "content-length" with
      | none => rfl
      | some header => rfl

/-- **The length of an accepted request** is the one its text asks for, exactly if the first
`Content-Length` header, if there is one, is a decimal number of type `int`. -/
theorem bodyLen_right_iff (p : HttpParser) {content : Bytes}
    (h : (p.parseRequest content).1 ≠ 0) :
    BodyLenRight content (p.parseRequest content).2 ↔ LengthReadable content := by
  have hstored := bodyLen_parseRequest p h
  constructor
  · intro hright value hvalue
    obtain ⟨htext, hlt, -⟩ := hright.decimal value hvalue
    exact ⟨htext, hlt⟩
  · intro hreadable
    cases hvalue : requestContentLength content with
    | none =>
      rw [hvalue, Option.bind_none, Option.getD_none] at hstored
      exact ⟨Int.le_of_eq hstored.symm, fun _ => hstored, fun value hsome => by
        rw [hvalue] at hsome
        cases hsome⟩
    | some value =>
      obtain ⟨htext, hlt⟩ := hreadable value hvalue
      rw [hvalue, Option.bind_some, stringToInt_decimal htext hlt, Option.getD_some] at hstored
      refine ⟨by omega, fun hnone => ?_, fun other hsome => ?_⟩
      · rw [hvalue] at hnone
        cases hnone
      · rw [hvalue, Option.some.injEq] at hsome
        subst hsome
        exact ⟨htext, hlt, hstored⟩

/-- A request with a body of twelve bytes. -/
theorem bodyLen_right_iff_twelve :
    BodyLenRight (bytes "POST / HTTP/1.1\r\ncontent-LENGTH: 12\r\n\r\n")
        (HttpParser.fresh.parseRequest
          (bytes "POST / HTTP/1.1\r\ncontent-LENGTH: 12\r\n\r\n")).2 ↔
      LengthReadable (bytes "POST / HTTP/1.1\r\ncontent-LENGTH: 12\r\n\r\n") :=
  bodyLen_right_iff HttpParser.fresh (by decide +kernel)

/-- A request with a negative length is accepted. -/
theorem negative_bodyLen_accepted : ¬∀ (p : HttpParser) (content : Bytes),
    (p.parseRequest content).1 ≠ 0 → BodyLenRight content (p.parseRequest content).2 := by
  intro h
  have hright := h HttpParser.fresh (bytes "POST / HTTP/1.1\r\nContent-Length: -5\r\n\r\n")
    (by decide +kernel)
  exact absurd hright.nonneg (by decide +kernel)

end GameServer.Http
