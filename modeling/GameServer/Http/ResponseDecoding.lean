import GameServer.Http.PicoResponse
import GameServer.Http.ResponseFraming

/-!
# Reading back a payload

`ParseResponse` gets the headers of a response in a local array and looks for the length of the
body in the headers that the parser stored before, with `ParseRequest`. It reads the head of
every payload to its end (`parseHeaders_joinLines`), so it decodes the payload exactly if the
stored headers happen to name the right length (`decodes_iff`).
-/

namespace GameServer.Http

open GameServer.Lib GameServer.Util

namespace HttpParser

/-- `_bodyLen`: the length that the stored headers name. -/
def storedLength (p : HttpParser) : Int :=
  (stringToInt (p.getHeaderValue (bytes "content-length"))).getD 0

/-- `ParseResponse`, with the length it returns. -/
def parseResponse (p : HttpParser) (originalUrl : Bytes) : Nat × HttpParser :=
  if originalUrl.isEmpty then (0, p)
  else
    let r := phrParseResponse maxHeaderFieldNum originalUrl
    let p := { p with headerLen := r.ret, status := r.status, msg := r.msg }
    let p := { p with bodyLen := p.storedLength }
    if r.ret < 0 then (0, p) else (r.ret.toNat, { p with minorVersion := r.minorVersion })

/-- The parser read `payload` as an answer with that status and body. -/
structure Decodes (p : HttpParser) (payload : Bytes) (status : Status) (body : Bytes) : Prop where
  length : (p.parseResponse payload).1 = payload.length - body.length
  status : (p.parseResponse payload).2.status = status.toUnderlying
  bodyLen : (p.parseResponse payload).2.bodyLen = body.length

end HttpParser

/-- A name of token characters and a value without control characters. -/
structure TokenHeader (header : ResponseHeader) : Prop where
  name_ne : header.1 ≠ []
  name : ∀ c ∈ header.1, isTokenChar c
  value : ∀ c ∈ header.2, isText c

/-! ## The head is read to its end -/

/-- What a header becomes that was written and read. -/
def readHeader (header : ResponseHeader) : PhrHeader :=
  ⟨header.1, trimValue (header.2.dropWhile isBlank)⟩

theorem parseHeaders_empty_line (room : Nat) (first : Bool) (rest : Bytes) :
    parseHeaders room first (cr :: lf :: rest) = .ok ([], rest) := by
  cases room <;> rfl

theorem parseHeaders_fieldLine {header : ResponseHeader} (h : TokenHeader header) (room : Nat)
    (first : Bool) (rest : Bytes) :
    parseHeaders (room + 1) first (fieldLine header ++ cr :: lf :: rest) =
      (parseHeaders room false rest).map fun r => (readHeader header :: r.1, r.2) := by
  have hline : fieldLine header ++ cr :: lf :: rest =
      header.1 ++ 0x3a :: (header.2 ++ cr :: lf :: rest) := by
    have hcolon : bytes ":" = [0x3a] := by decide
    simp [fieldLine, hcolon]
  have hname := parseHeaderName_append h.name_ne h.name header.2 rest
  have hvalue : ∀ c ∈ header.2.dropWhile isBlank, isText c :=
    fun c hc => h.value c ((List.dropWhile_sublist _).subset hc)
  obtain ⟨c, name, hc⟩ := List.exists_cons_of_ne_nil h.name_ne
  have htoken : isTokenChar c := h.name c (hc ▸ List.mem_cons_self)
  have hcr : c ≠ cr := by
    rintro rfl
    exact absurd htoken (by decide)
  have hlf : c ≠ lf := by
    rintro rfl
    exact absurd htoken (by decide)
  have hblank : isBlank c = false := by
    refine Bool.eq_false_iff.2 fun hb => ?_
    rcases Bool.or_eq_true_iff.1 hb with hb | hb <;> rw [eq_of_beq hb] at htoken <;>
      exact absurd htoken (by decide)
  have hfirst (buf : Bytes) : headerLine first c buf = parseHeaderName (c :: buf) := by
    rw [headerLine, hblank, Bool.and_false, if_neg Bool.false_ne_true]
  rw [hline]
  rw [hc, List.cons_append] at hname ⊢
  rw [parseHeaders, if_neg hcr, if_neg hlf, hfirst, hname]
  simp only [bind, Except.bind, getTokenToEol_append hvalue]
  cases parseHeaders room false rest with
  | error e => rfl
  | ok r =>
    rw [← hc]
    rfl

/-- **All headers are read**, if there is room for them. -/
theorem parseHeaders_joinLines {headers : List ResponseHeader}
    (h : ∀ header ∈ headers, TokenHeader header) {room : Nat} (hroom : headers.length ≤ room)
    (first : Bool) (rest : Bytes) :
    parseHeaders room first (joinLines cr lf (headers.map fieldLine) ++ cr :: lf :: rest) =
      .ok (headers.map readHeader, rest) := by
  induction headers generalizing room first with
  | nil => exact parseHeaders_empty_line room first rest
  | cons header headers ih =>
    obtain ⟨room, rfl⟩ : ∃ n, room = n + 1 := Nat.exists_eq_add_one_of_ne_zero
      (Nat.ne_of_gt (Nat.lt_of_lt_of_le (Nat.succ_pos _) hroom))
    have hcons : joinLines cr lf ((header :: headers).map fieldLine) ++ cr :: lf :: rest =
        fieldLine header ++ cr :: lf ::
          (joinLines cr lf (headers.map fieldLine) ++ cr :: lf :: rest) := by
      simp [joinLines]
    rw [hcons, parseHeaders_fieldLine (h header List.mem_cons_self),
      ih (fun x hx => h x (List.mem_cons_of_mem _ hx)) (Nat.le_of_succ_le_succ hroom)]
    rfl

/-! ## The status line is read -/

theorem parseHttpVersion_append {rest : Bytes} (hne : rest ≠ []) :
    parseHttpVersion (bytes "HTTP/1.1" ++ rest) = .ok (1, rest) := by
  have hversion : bytes "HTTP/1.1" = bytes "HTTP/1." ++ [0x31] := by decide
  have hlen : (bytes "HTTP/1.").length = 7 := by decide
  have hpos := List.length_pos_of_ne_nil hne
  have hlong : ¬(bytes "HTTP/1." ++ ([0x31] ++ rest)).length < 9 := by
    rw [List.length_append, hlen, List.length_append, List.length_singleton]
    omega
  rw [hversion, List.append_assoc, parseHttpVersion, if_neg hlong, ← hlen, List.take_left,
    List.drop_left, if_neg (not_not_intro rfl)]
  rfl

/-- A status code of three digits. -/
def Status.ThreeDigits (status : Status) : Prop := 100 ≤ status.toUnderlying

instance (status : Status) : Decidable status.ThreeDigits :=
  inferInstanceAs (Decidable (100 ≤ status.toUnderlying))

theorem length_decimal_status {status : Status} (h : status.ThreeDigits) :
    (decimal status.toUnderlying).length = 3 := by
  cases status with
  | Unknown => exact absurd h (by decide)
  | _ => decide

theorem parseInt3_status {status : Status} (h : status.ThreeDigits) (rest : Bytes) :
    parseInt3 (decimal status.toUnderlying ++ rest) = (status.toUnderlying, .ok rest) := by
  cases status with
  | Unknown => exact absurd h (by decide)
  | _ => rfl

theorem skipToStatus_status {status : Status} (h : status.ThreeDigits) {rest : Bytes}
    (hne : rest ≠ []) :
    skipToStatus (sp :: (decimal status.toUnderlying ++ rest)) =
      .ok (decimal status.toUnderlying ++ rest) := by
  have hskip : skipSpaces (decimal status.toUnderlying ++ rest) =
      .ok (decimal status.toUnderlying ++ rest) := by
    cases status <;> rfl
  have hpos := List.length_pos_of_ne_nil hne
  have hlong : ¬(decimal status.toUnderlying ++ rest).length < 4 := by
    rw [List.length_append, length_decimal_status h]
    omega
  rw [skipToStatus, if_neg (not_not_intro rfl), hskip]
  exact if_neg hlong

theorem isText_enumName (status : Status) : ∀ c ∈ sp :: status.enumName, isText c := by
  cases status <;> decide +kernel

/-- **What is parsed of a payload**: everything up to the body. -/
theorem phrParseResponse_written {status : Status} (h : status.ThreeDigits)
    {headers : List ResponseHeader} (hheaders : ∀ header ∈ headers, TokenHeader header)
    {maxHeaders : Nat} (hroom : headers.length ≤ maxHeaders) (body : Bytes) :
    let payload := joinLines cr lf (HttpResponse.statusLine status :: headers.map fieldLine) ++
      ([cr, lf] ++ body)
    phrParseResponse maxHeaders payload =
      ⟨1, status.toUnderlying, status.enumName, headers.map readHeader,
        toInt (payload.length - body.length)⟩ := by
  intro payload
  have hpayload : payload = bytes "HTTP/1.1" ++ (sp :: (decimal status.toUnderlying ++
      ((sp :: status.enumName) ++ cr :: lf ::
        (joinLines cr lf (headers.map fieldLine) ++ cr :: lf :: body)))) := by
    have hversion : bytes "HTTP/1.1 " = bytes "HTTP/1.1" ++ [sp] := by decide
    have hspace : bytes " " = [sp] := by decide
    simp [payload, joinLines, HttpResponse.statusLine, hversion, hspace]
  have hname : ((sp :: status.enumName).dropWhile (· == sp)) = status.enumName := by
    cases status <;> decide
  have hmsg : (!(sp :: status.enumName).isEmpty && (sp :: status.enumName).head? != some sp) =
      false := rfl
  have hversion := parseHttpVersion_append (List.cons_ne_nil sp (decimal status.toUnderlying ++
    ((sp :: status.enumName) ++ cr :: lf ::
      (joinLines cr lf (headers.map fieldLine) ++ cr :: lf :: body))))
  rw [← hpayload] at hversion
  have hstatus := skipToStatus_status h (List.append_ne_nil_of_left_ne_nil
    (List.cons_ne_nil sp status.enumName) (cr :: lf ::
      (joinLines cr lf (headers.map fieldLine) ++ cr :: lf :: body)))
  simp only [phrParseResponse, hversion, hstatus, parseInt3_status h,
    getTokenToEol_append (isText_enumName status), hmsg, Bool.false_eq_true, if_false,
    parseHeaders_joinLines hheaders hroom, hname]
  rfl

/-! ## What is decoded -/

theorem isText_of_isPrintable {c : UInt8} (h : isPrintable c) : isText c := by
  rw [isPrintable, Bool.and_eq_true, decide_eq_true_eq, decide_eq_true_eq] at h
  rw [isText, Bool.and_eq_true, decide_eq_true_eq, bne_iff_ne]
  refine ⟨h.1, ?_⟩
  rintro rfl
  exact absurd h.2 (by decide)

/-- The headers that are generated can be read. -/
theorem tokenHeader_generated (resp : HttpResponse) (t : GmtTime) :
    ∀ header ∈ resp.generatedHeaders (getGmtTimeStr t), TokenHeader header := by
  intro header hmem
  have hnames : ∀ name ∈ [bytes "Content-Length", bytes "Date", bytes "Content-Type"],
      name ≠ [] ∧ ∀ c ∈ name, isTokenChar c := by decide +kernel
  simp only [List.mem_cons, List.not_mem_nil, or_false, forall_eq_or_imp, forall_eq] at hnames
  obtain ⟨hlength, hdate, htype⟩ := hnames
  have hvalue : Printable (HttpResponse.contentTypeValue resp.contentType) := by
    cases resp.contentType <;> decide +kernel
  rw [HttpResponse.generatedHeaders, HttpResponse.contentLength_eq] at hmem
  rcases List.mem_append.1 hmem with hmem | hmem
  · split at hmem
    · cases hmem
    · rw [List.mem_singleton.1 hmem]
      constructor <;> decide +kernel
  · simp only [List.mem_cons, List.not_mem_nil, or_false] at hmem
    rcases hmem with rfl | rfl | rfl
    · exact ⟨hlength.1, hlength.2, fun c hc => isText_of_isPrintable (printable_decimal _ c hc)⟩
    · exact ⟨hdate.1, hdate.2, fun c hc => isText_of_isPrintable (printable_getGmtTimeStr t c hc)⟩
    · exact ⟨htype.1, htype.2, fun c hc => isText_of_isPrintable (hvalue c hc)⟩

theorem HttpParser.parseResponse_fields (p : HttpParser) {payload : Bytes} (hne : payload ≠ []) :
    (p.parseResponse payload).1 = (phrParseResponse maxHeaderFieldNum payload).ret.toNat ∧
      (p.parseResponse payload).2.status = (phrParseResponse maxHeaderFieldNum payload).status ∧
      (p.parseResponse payload).2.bodyLen = p.storedLength := by
  have hempty : payload.isEmpty = false := List.isEmpty_eq_false_iff.2 hne
  simp only [parseResponse, hempty, Bool.false_eq_true, if_false]
  split
  · next hneg => exact ⟨(Int.toNat_of_nonpos (Int.le_of_lt hneg)).symm, rfl, rfl⟩
  · exact ⟨rfl, rfl, rfl⟩

theorem HttpResponse.payload_ne_nil (resp : HttpResponse) (date : Bytes) :
    (resp.getPayload date).1 ≠ [] := by
  rw [payload_eq]
  exact List.append_ne_nil_of_right_ne_nil _
    (List.append_ne_nil_of_right_ne_nil _ (List.cons_ne_nil _ _))

open HttpResponse in
/-- **A payload is decoded** by a parser, whatever it parsed before, exactly if the head is
shorter than 2^31 bytes and the headers that the parser stored before name the length of the
body. -/
theorem decodes_iff (p : HttpParser) (effects : List ResponseEffect) (t : GmtTime)
    (hset : ∀ effect ∈ effects, effect.IsSetter)
    (htoken : ∀ header ∈ addedHeaders effects, TokenHeader header)
    (hcount : (addedHeaders effects).length < 95)
    (hstatus : (effects.foldl apply HttpResponse.fresh).status.ThreeDigits) :
    let resp := effects.foldl apply HttpResponse.fresh
    let payload := (resp.getPayload (getGmtTimeStr t)).1
    let body := addErrorPage resp.status resp.content
    p.Decodes payload resp.status body ↔
      payload.length - body.length < 0x80000000 ∧ p.storedLength = body.length := by
  obtain ⟨hhead, hheaders⟩ := foldl_setters hset HttpResponse.fresh
  intro resp payload body
  have hhead : resp.head = [] := hhead
  have hheaders : resp.headers = addedHeaders effects := hheaders
  have hfields : ∀ header ∈ addedHeaders effects ++ resp.generatedHeaders (getGmtTimeStr t),
      TokenHeader header := by
    intro header hmem
    rcases List.mem_append.1 hmem with hmem | hmem
    · exact htoken header hmem
    · exact tokenHeader_generated resp t header hmem
  have hroom : (addedHeaders effects ++ resp.generatedHeaders (getGmtTimeStr t)).length ≤
      maxHeaderFieldNum := by
    have hgenerated : (resp.generatedHeaders (getGmtTimeStr t)).length ≤ 4 := by
      rw [generatedHeaders, List.length_append]
      split <;> simp
    rw [List.length_append, maxHeaderFieldNum]
    omega
  have hpayload : payload = joinLines cr lf (statusLine resp.status ::
      (addedHeaders effects ++ resp.generatedHeaders (getGmtTimeStr t)).map fieldLine) ++
        ([cr, lf] ++ body) := by
    simp only [payload, payload_eq, hhead, hheaders, List.nil_append, body]
  have hparse := phrParseResponse_written hstatus hfields hroom body
  simp only at hparse
  rw [← hpayload] at hparse
  obtain ⟨hlength, hcode, hbody⟩ := p.parseResponse_fields (payload_ne_nil resp _)
  change _ = (phrParseResponse maxHeaderFieldNum payload).ret.toNat at hlength
  change _ = (phrParseResponse maxHeaderFieldNum payload).status at hcode
  rw [hparse] at hlength hcode
  rw [← toInt_toNat_eq_iff, ← hlength, ← hbody]
  exact ⟨fun h => ⟨h.length, h.bodyLen⟩, fun h => ⟨h.1, hcode, h.2⟩⟩

/-- After a request with a body of one byte, an answer with one is decoded. -/
theorem decodes_after_request :
    let p := (HttpParser.fresh.parseRequest
      (bytes "POST /a HTTP/1.1\r\nContent-Length: 1\r\n\r\nx")).2
    let resp := ([.setStatusCode .Ok, .setContent (bytes "y")] : List ResponseEffect).foldl
      HttpResponse.apply HttpResponse.fresh
    p.Decodes (resp.getPayload (getGmtTimeStr ⟨3, 24, 9, 2023, 16, 34, 7⟩)).1 .Ok (bytes "y") :=
  (decodes_iff _ [.setStatusCode .Ok, .setContent (bytes "y")] ⟨3, 24, 9, 2023, 16, 34, 7⟩
    (by decide) nofun (by decide) (by decide)).2 ⟨by decide +kernel, by decide +kernel⟩

/-- A new parser misses the one byte of an answer. -/
theorem bodyLen_not_decoded :
    ¬∀ (p : HttpParser) (effects : List ResponseEffect) (t : GmtTime),
      (∀ effect ∈ effects, effect.IsSetter) →
      (∀ header ∈ addedHeaders effects, TokenHeader header ∧
        stringEqual header.1 (bytes "Content-Length") = false) →
      (addedHeaders effects).length < 95 →
      (effects.foldl HttpResponse.apply HttpResponse.fresh).status.ThreeDigits →
      let resp := effects.foldl HttpResponse.apply HttpResponse.fresh
      let body := HttpResponse.addErrorPage resp.status resp.content
      body.length < 0x80000000 →
      p.Decodes (resp.getPayload (getGmtTimeStr t)).1 resp.status body := by
  intro h
  have hdecodes := h .fresh [.setStatusCode .Ok, .setContent (bytes "y")]
    ⟨3, 24, 9, 2023, 16, 34, 7⟩ (by decide) nofun (by decide) (by decide) (by decide)
  have hstored : HttpParser.fresh.storedLength = 1 :=
    (HttpParser.fresh.parseResponse_fields (HttpResponse.payload_ne_nil _ _)).2.2.symm.trans
      hdecodes.bodyLen
  revert hstored
  decide

end GameServer.Http
