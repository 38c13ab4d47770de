import GameServer.Lib.Words
import GameServer.Http.PicoHttpParser

/-!
# `HttpParser` and `HttpRequest`

A request object is parsed into again and again: `ParseRequest` writes its fields only after
picohttpparser accepted the text, so a rejected text leaves the method, the path, the headers and
the queries of an earlier request in place (`parse_rejected`).

The string views stored in the parser are read as the text they had when they were set. The length
of the head is a `Nat`: `phr_parse_request` casts it to `int`, which keeps it as it is for every
text of less than 2^31 bytes (`toInt_length`), and a session does not receive more in one read.
-/

namespace GameServer.Http

open GameServer.Lib

/-- `g_MaxHeaderFieldNum`. -/
def maxHeaderFieldNum : Nat := 100

abbrev HttpHeader : Type := Bytes × Bytes

structure HttpParser where
  method : Bytes
  originalUrl : Bytes
  path : Bytes
  queries : List (Bytes × Bytes)
  headers : List HttpHeader
  minorVersion : Int
  headerLen : Int
  bodyLen : Int
  /-- Of a response only, as `msg`. -/
  status : Int
  msg : Bytes
  deriving DecidableEq, Repr

/-! ## Texts -/

/-- `std::tolower` of a byte. -/
def toLower (c : UInt8) : UInt8 := if 0x41 ≤ c && c ≤ 0x5a then c + 0x20 else c

/-- `Util::StringEqual`: equal up to case. -/
def stringEqual (s t : Bytes) : Bool := s.map toLower == t.map toLower

/-- The value of a text of digits, `none` if another byte occurs. -/
def fromDigits (value : Nat) : Bytes → Option Nat
  | [] => some value
  | c :: s => if c < 0x30 || 0x39 < c then none else fromDigits (value * 10 + (c.toNat - 0x30)) s

/-- `Util::StringTo<int>`: the whole text is a number, possibly negative, of 32 bits. -/
def stringToInt (s : Bytes) : Option Int :=
  let (negative, digits) := match s with
    | 0x2d :: digits => (true, digits)
    | digits => (false, digits)
  if digits.isEmpty then none
  else
    match fromDigits 0 digits with
    | none => none
    | some n =>
      if negative then if n ≤ 0x80000000 then some (-n) else none
      else if n < 0x80000000 then some n else none

namespace HttpParser

def fresh : HttpParser :=
  { method := [], originalUrl := [], path := [], queries := []
    headers := List.replicate maxHeaderFieldNum ([], []), minorVersion := -1, headerLen := 0
    bodyLen := 0, status := 0, msg := [] }

def getHeaderValue (p : HttpParser) (key : Bytes) : Bytes :=
  match p.headers.find? fun header => stringEqual header.1 key with
  | some header => header.2
  | none => []

def trimSpace (s : Bytes) : Bytes :=
  ((s.dropWhile (· == sp)).reverse.dropWhile (· == sp)).reverse

/-- `emplace` and `try_emplace` on the queries: a key that is there keeps its value. -/
def emplace (queries : List (Bytes × Bytes)) (key val : Bytes) : List (Bytes × Bytes) :=
  if queries.any fun q => q.1 == key then queries else queries ++ [(key, val)]

/-- The loop of `ParseQuery`. `piece` holds the bytes since `pos`, and `cut` says whether `pos`
was moved. -/
def queryLoop (queries : List (Bytes × Bytes)) (key piece : Bytes) (cut : Bool) :
    Bytes → List (Bytes × Bytes)
  | [] =>
    if !cut then queries
    else if piece.isEmpty then emplace queries key []
    else emplace queries key (trimSpace piece)
  | chr :: str =>
    if chr == 0x3d then queryLoop queries (trimSpace piece) [] true str
    else if chr == 0x26 then queryLoop (emplace queries key (trimSpace piece)) key [] true str
    else queryLoop queries key (piece ++ [chr]) cut str

def parseQuery (p : HttpParser) (str : Bytes) : HttpParser :=
  if str.isEmpty then p else { p with queries := queryLoop p.queries [] [] false str }

/-- The headers as stored: an array of fixed size. -/
def headerArray (headers : List PhrHeader) : List HttpHeader :=
  headers.map (fun h => (h.name, h.value)) ++
    List.replicate (maxHeaderFieldNum - headers.length) ([], [])

def queryPos (path : Bytes) : Nat := path.findIdx (· == 0x3f)

/-- What `ParseRequest` stores of a text that picohttpparser accepted. -/
def store (p : HttpParser) (originalUrl : Bytes) (r : PhrRequest) : HttpParser :=
  let p := { p with
    headerLen := r.length
    method := r.method
    path := r.path
    minorVersion := r.minorVersion
    originalUrl
    headers := headerArray r.headers }
  let p := { p with bodyLen := (stringToInt (p.getHeaderValue (bytes "content-length"))).getD 0 }
  if queryPos r.path < r.path.length then
    { p.parseQuery (r.path.drop (queryPos r.path + 1)) with path := r.path.take (queryPos r.path) }
  else p

/-- `ParseRequest`, with the length it returns. -/
def parseRequest (p : HttpParser) (originalUrl : Bytes) : Nat × HttpParser :=
  if originalUrl.isEmpty then (0, p)
  else
    match phrParseRequest maxHeaderFieldNum originalUrl with
    | .error e => (0, { p with headerLen := e.ret })
    | .ok r => (r.length, p.store originalUrl r)

/-- The cast at the end of `phr_parse_request`. -/
theorem toInt_length {content : Bytes} {r : PhrRequest}
    (h : phrParseRequest maxHeaderFieldNum content = .ok r) (hlt : content.length < 0x80000000) :
    toInt r.length = r.length :=
  toInt_of_lt (Nat.lt_of_le_of_lt (phrParseRequest_ok h).2.1 hlt)

@[simp] theorem store_method (p : HttpParser) (originalUrl : Bytes) (r : PhrRequest) :
    (p.store originalUrl r).method = r.method := by
  simp only [store, parseQuery]
  split
  · split <;> rfl
  · rfl

@[simp] theorem store_path (p : HttpParser) (originalUrl : Bytes) (r : PhrRequest) :
    (p.store originalUrl r).path = r.path.take (queryPos r.path) := by
  simp only [store]
  split
  · rfl
  · next hpos => exact (List.take_of_length_le (Nat.not_lt.1 hpos)).symm

end HttpParser

structure HttpRequest where
  parser : HttpParser
  deriving DecidableEq, Repr

namespace HttpRequest

def fresh : HttpRequest := ⟨.fresh⟩

def getMethod (req : HttpRequest) : Bytes := req.parser.method

def getPath (req : HttpRequest) : Bytes := req.parser.path

def getVersion (req : HttpRequest) : Bytes :=
  if req.parser.minorVersion = 1 then bytes "HTTP/1.1" else bytes "HTTP/1.0"

def getHeader (req : HttpRequest) (headerType : Bytes) : Bytes :=
  req.parser.getHeaderValue headerType

def parse (req : HttpRequest) (content : Bytes) : Status × HttpRequest :=
  if content.isEmpty then (.BadRequest, req)
  else
    let (headerLen, parser) := req.parser.parseRequest content
    if headerLen = 0 then (.InternalServerError, ⟨parser⟩) else (.Ok, ⟨parser⟩)

/-- The key that the router looks up. -/
def key (req : HttpRequest) : Bytes := req.getMethod ++ bytes " " ++ req.getPath

end HttpRequest

/-! ## What parsing does to the key -/

/-- The method and path of a text, if it is a request: the path ends before its query. -/
def requestKey (content : Bytes) : Option Bytes :=
  match phrParseRequest maxHeaderFieldNum content with
  | .error _ => none
  | .ok r => some (r.method ++ bytes " " ++ r.path.take (HttpParser.queryPos r.path))

namespace HttpRequest

variable {content k : Bytes}

theorem parse_accepted (req : HttpRequest) {r : PhrRequest}
    (h : phrParseRequest maxHeaderFieldNum content = .ok r) :
    req.parse content = (.Ok, ⟨req.parser.store content r⟩) := by
  have hne : content.isEmpty = false := by
    cases content with
    | nil => cases h
    | cons c content => rfl
  have hlen : r.length ≠ 0 := Nat.ne_of_gt (phrParseRequest_ok h).1
  simp only [parse, HttpParser.parseRequest, hne, h, Bool.false_eq_true, if_false, hlen]

/-- A text that is a request is parsed with `Ok`, and the key is its own. -/
theorem parse_request (req : HttpRequest) (h : requestKey content = some k) :
    (req.parse content).1 = .Ok ∧ (req.parse content).2.key = k := by
  unfold requestKey at h
  cases hr : phrParseRequest maxHeaderFieldNum content with
  | error e => rw [hr] at h; cases h
  | ok r =>
    rw [hr, Option.some.injEq] at h
    rw [req.parse_accepted hr]
    refine ⟨rfl, ?_⟩
    simp only [key, getMethod, getPath, HttpParser.store_method, HttpParser.store_path]
    exact h

/-- A text that is no request is not parsed with `Ok`, and leaves method, path, headers and
queries as they were. -/
theorem parse_rejected (req : HttpRequest) (h : requestKey content = none) :
    (req.parse content).1 ≠ .Ok ∧ ∃ headerLen,
      (req.parse content).2 = ⟨{ req.parser with headerLen }⟩ := by
  unfold requestKey at h
  cases content with
  | nil => exact ⟨nofun, req.parser.headerLen, rfl⟩
  | cons c content =>
    cases hr : phrParseRequest maxHeaderFieldNum (c :: content) with
    | ok r => rw [hr] at h; cases h
    | error e =>
      simp only [parse, HttpParser.parseRequest, hr, List.isEmpty_cons, Bool.false_eq_true,
        if_false, if_true]
      exact ⟨nofun, e.ret, rfl⟩

/-- `Parse` accepts exactly the texts that are requests, whatever was parsed before. -/
theorem parse_ok_iff (req : HttpRequest) :
    (req.parse content).1 = .Ok ↔ (requestKey content).isSome := by
  cases h : requestKey content with
  | none => exact iff_of_false (parse_rejected req h).1 nofun
  | some k => exact iff_of_true (parse_request req h).1 rfl

theorem key_of_rejected (req : HttpRequest) (h : requestKey content = none) :
    (req.parse content).2.key = req.key := by
  obtain ⟨-, headerLen, hreq⟩ := parse_rejected req h
  rw [hreq]
  rfl

end HttpRequest

end GameServer.Http
