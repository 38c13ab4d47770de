import GameServer.Lib.Words
import GameServer.Http.PicoHttpParser

/-!
# `phr_parse_response`

The response parser of picohttpparser on a complete buffer. It writes the version, the status and
the message through its pointers as it gets to them, so a text that is rejected later has written
some of them. The length it returns is cast to an `int`.

The lemmas on `parseToken`, `getTokenToEol` and `parseHeaderName` say what the parsers of a line
make of a line that was written.
-/

namespace GameServer.Http

open GameServer.Lib

/-- What `phr_parse_response` writes through its pointers, and what it returns. -/
structure PhrResponse where
  minorVersion : Int
  status : Int
  msg : Bytes
  headers : List PhrHeader
  ret : Int
  deriving DecidableEq, Repr

/-- `PARSE_INT` of one digit. -/
def parseInt (mul : Nat) : Bytes → Phr (Nat × Bytes)
  | [] => .error .failed
  | c :: buf =>
    if c < 0x30 || 0x39 < c then .error .failed else .ok (mul * (c.toNat - 0x30), buf)

/-- `PARSE_INT_3`: what it wrote, and the rest if there were three digits. -/
def parseInt3 (buf : Bytes) : Nat × Phr Bytes :=
  match parseInt 100 buf with
  | .error e => (0, .error e)
  | .ok (hundreds, buf) =>
    match parseInt 10 buf with
    | .error e => (hundreds, .error e)
    | .ok (tens, buf) =>
      match parseInt 1 buf with
      | .error e => (hundreds + tens, .error e)
      | .ok (ones, buf) => (hundreds + tens + ones, .ok buf)

/-- The spaces between the version and the status. -/
def skipToStatus : Bytes → Phr Bytes
  | [] => .error .failed
  | c :: buf =>
    if c ≠ sp then .error .failed
    else do
      let rest ← skipSpaces buf
      if rest.length < 4 then .error .incomplete else .ok rest

/-- `phr_parse_response` with room for `maxHeaders` headers. -/
def phrParseResponse (maxHeaders : Nat) (buf : Bytes) : PhrResponse :=
  let written : PhrResponse := ⟨-1, 0, [], [], 0⟩
  match parseHttpVersion buf with
  | .error e => { written with ret := e.ret }
  | .ok (minorVersion, rest) =>
    let written := { written with minorVersion }
    match skipToStatus rest with
    | .error e => { written with ret := e.ret }
    | .ok rest =>
      let written := { written with status := (parseInt3 rest).1 }
      match (parseInt3 rest).2 with
      | .error e => { written with ret := e.ret }
      | .ok rest =>
        match getTokenToEol rest with
        | .error e => { written with ret := e.ret }
        | .ok (msg, rest) =>
          if !msg.isEmpty && msg.head? != some sp then
            { written with msg, ret := PhrError.failed.ret }
          else
            let written := { written with msg := msg.dropWhile (· == sp) }
            match parseHeaders maxHeaders true rest with
            | .error e => { written with ret := e.ret }
            | .ok (headers, rest) =>
              { written with headers, ret := toInt (buf.length - rest.length) }

/-! ## Lines that were written -/

/-- No control character; bytes of other alphabets may occur. -/
def isText (c : UInt8) : Bool := 0x20 ≤ c && c != del

theorem parseToken_append {nextChar : UInt8} {token : Bytes}
    (h : ∀ c ∈ token, c ≠ nextChar ∧ isTokenChar c) (rest : Bytes) :
    parseToken nextChar (token ++ nextChar :: rest) = .ok (token, nextChar :: rest) := by
  induction token with
  | nil => exact if_pos rfl
  | cons c token ih =>
    obtain ⟨hne, htoken⟩ := h c List.mem_cons_self
    rw [List.cons_append, parseToken, if_neg hne, if_pos htoken,
      ih fun d hd => h d (List.mem_cons_of_mem _ hd)]
    rfl

theorem getTokenToEol_append {token : Bytes} (h : ∀ c ∈ token, isText c) (rest : Bytes) :
    getTokenToEol (token ++ cr :: lf :: rest) = .ok (token, rest) := by
  induction token with
  | nil => rfl
  | cons c token ih =>
    have hc := h c List.mem_cons_self
    simp only [isText, Bool.and_eq_true, decide_eq_true_eq, bne_iff_ne] at hc
    have hctl : ((c < 0x20 && c != htab) || c == del) = false := by
      rw [decide_eq_false (UInt8.not_lt.2 hc.1), beq_eq_false_iff_ne.2 hc.2]
      rfl
    rw [List.cons_append, getTokenToEol, hctl, if_neg Bool.false_ne_true,
      ih fun d hd => h d (List.mem_cons_of_mem _ hd)]
    rfl

/-- Blanks before a value are skipped, also if there is nothing but blanks. -/
theorem skipBlanks_append (value rest : Bytes) :
    skipBlanks (value ++ cr :: lf :: rest) = .ok (value.dropWhile isBlank ++ cr :: lf :: rest) := by
  induction value with
  | nil => rfl
  | cons c value ih =>
    rw [List.cons_append, skipBlanks, List.dropWhile_cons]
    split
    · exact ih
    · rfl

theorem parseHeaderName_append {name : Bytes} (hne : name ≠ [])
    (h : ∀ c ∈ name, isTokenChar c) (value rest : Bytes) :
    parseHeaderName (name ++ 0x3a :: (value ++ cr :: lf :: rest)) =
      .ok (name, value.dropWhile isBlank ++ cr :: lf :: rest) := by
  have hname : ∀ c ∈ name, c ≠ 0x3a ∧ isTokenChar c := by
    intro c hc
    refine ⟨?_, h c hc⟩
    rintro rfl
    exact absurd (h _ hc) (by decide)
  have hempty : name.isEmpty = false := List.isEmpty_eq_false_iff.2 hne
  unfold parseHeaderName
  rw [parseToken_append hname]
  simp only [bind, Except.bind, hempty, Bool.false_eq_true, if_false, List.tail_cons,
    skipBlanks_append]

end GameServer.Http
