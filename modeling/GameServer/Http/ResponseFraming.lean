import GameServer.Lib.Lines
import GameServer.Util.TimeUtil
import GameServer.Http.HttpParser
import GameServer.Http.HttpResponse

/-!
# The frame of an answer

A client reads an answer as a status line, header lines and a body, cut at the first empty line.
The payload of a response that was only set is such an answer (`getPayload_framed`): the lines are
the headers that were set, in order, and generated ones, and the length that one of them names is
the length of the body.

* `payload_eq` writes a payload as lines and a body.
* `Framed` lists what the client reads of it.
-/

namespace GameServer.Http

open GameServer.Lib GameServer.Util

/-- An answer as it is read. -/
structure Message where
  statusLine : Bytes
  lines : List Bytes
  body : Bytes
  deriving DecidableEq, Repr

def readMessage (payload : Bytes) : Option Message :=
  match splitMessage cr lf payload with
  | some (statusLine :: lines, body) => some ⟨statusLine, lines, body⟩
  | _ => none

/-- A header as a line, without its end. -/
def fieldLine (header : ResponseHeader) : Bytes := header.1 ++ bytes ":" ++ header.2

/-- The values of the headers with that name, in any letter case. -/
def valuesOf (key : Bytes) (headers : List ResponseHeader) : List Bytes :=
  (headers.filter fun header => stringEqual header.1 key).map Prod.snd

/-- Effects of the setters. -/
def ResponseEffect.IsSetter : ResponseEffect → Bool
  | .getPayload _ => false
  | .assign _ => false
  | _ => true

/-- The headers that effects add, in order. -/
def addedHeaders (effects : List ResponseEffect) : List ResponseHeader :=
  effects.filterMap fun
    | .setHeader fieldName fieldVal => some (fieldName, fieldVal)
    | _ => none

/-- No line end inside, and no name that `GetPayload` generates itself. -/
structure PlainHeader (header : ResponseHeader) : Prop where
  cr : cr ∉ header.1 ++ header.2
  lf : lf ∉ header.1 ++ header.2
  contentLength : stringEqual header.1 (bytes "Content-Length") = false
  contentType : stringEqual header.1 (bytes "Content-Type") = false

/-- What a client reads of the payload of `resp` that had `added` headers. -/
structure Framed (resp : HttpResponse) (added generated : List ResponseHeader) (m : Message) :
    Prop where
  statusLine : m.statusLine =
    bytes "HTTP/1.1 " ++ decimal resp.status.toUnderlying ++ bytes " " ++ resp.status.enumName
  lines : m.lines = (added ++ generated).map fieldLine
  body : m.body = resp.content ++
    if 404 ≤ resp.status.toUnderlying then statusToResponseContent resp.status else []
  contentLength : valuesOf (bytes "Content-Length") generated = [decimal m.body.length]
  contentType : (valuesOf (bytes "Content-Type") generated).length = 1
  /-- No header that was set is taken for a generated one. -/
  added : valuesOf (bytes "Content-Length") added = [] ∧ valuesOf (bytes "Content-Type") added = []

namespace HttpResponse

/-! ## The payload as lines -/

def contentTypeValue : ContentType → Bytes
  | .String => bytes " text/plain; charset=UTF-8"
  | .Html => bytes " text/html; charset=UTF-8"
  | .Json => bytes " application/json; charset=UTF-8"

/-- The headers that `GetPayload` adds to those that are there. -/
def generatedHeaders (resp : HttpResponse) (date : Bytes) : List ResponseHeader :=
  (if hasHost resp.headers then [] else [(bytes "Host", bytes "Harold")]) ++
    [(bytes "Content-Length", contentLength (addErrorPage resp.status resp.content)),
      (bytes "Date", date), (bytes "Content-Type", contentTypeValue resp.contentType)]

def statusLine (status : Status) : Bytes :=
  bytes "HTTP/1.1 " ++ decimal status.toUnderlying ++ bytes " " ++ status.enumName

theorem crlf_eq : crlf = [cr, lf] := by decide

theorem contentTypeString_eq (type : ContentType) :
    contentTypeString type = headerLine (bytes "Content-Type", contentTypeValue type) := by
  cases type <;> decide

theorem headerLines_eq (headers : List ResponseHeader) :
    headerLines headers = joinLines cr lf (headers.map fieldLine) := by
  rw [joinLines, List.flatMap_map, ← crlf_eq]
  rfl

/-- **The payload** of a response is what its head held before, the status line and all headers
as lines, an empty line and the content. -/
theorem payload_eq (resp : HttpResponse) (date : Bytes) :
    (resp.getPayload date).1 = resp.head ++
      (joinLines cr lf (statusLine resp.status ::
          (resp.headers ++ resp.generatedHeaders date).map fieldLine) ++
        ([cr, lf] ++ addErrorPage resp.status resp.content)) := by
  have hhost : addHost resp.headers =
      resp.headers ++ if hasHost resp.headers then [] else [(bytes "Host", bytes "Harold")] := by
    unfold addHost
    split
    · exact (List.append_nil _).symm
    · rfl
  have hlines : joinLines cr lf (statusLine resp.status ::
      (resp.headers ++ resp.generatedHeaders date).map fieldLine) =
        statusToResponseHead resp.status ++
          headerLines (resp.headers ++ resp.generatedHeaders date) := by
    rw [headerLines_eq, joinLines, joinLines, List.flatMap_cons, ← crlf_eq]
    rfl
  have hheaders : resp.headers ++ resp.generatedHeaders date = addHost resp.headers ++
      [(bytes "Content-Length", contentLength (addErrorPage resp.status resp.content)),
        (bytes "Date", date), (bytes "Content-Type", contentTypeValue resp.contentType)] := by
    rw [generatedHeaders, ← List.append_assoc, ← hhost]
  rw [hlines, hheaders]
  simp only [getPayload, buildResponseHead, contentTypeString_eq, headerLines,
    List.flatMap_append, List.flatMap_cons, List.flatMap_nil, List.append_nil, List.append_assoc,
    crlf_eq]

/-! ## What is set and what is generated -/

theorem apply_setter {effect : ResponseEffect} (h : effect.IsSetter) (resp : HttpResponse) :
    (resp.apply effect).head = resp.head ∧
      (resp.apply effect).headers = resp.headers ++ addedHeaders [effect] := by
  cases effect with
  | setHeader fieldName fieldVal => exact ⟨rfl, rfl⟩
  | getPayload date => cases h
  | assign other => cases h
  | _ => exact ⟨rfl, (List.append_nil _).symm⟩

/-- Setters leave the head alone and add their headers. -/
theorem foldl_setters {effects : List ResponseEffect} (h : ∀ effect ∈ effects, effect.IsSetter)
    (resp : HttpResponse) :
    (effects.foldl apply resp).head = resp.head ∧
      (effects.foldl apply resp).headers = resp.headers ++ addedHeaders effects := by
  induction effects generalizing resp with
  | nil => exact ⟨rfl, (List.append_nil _).symm⟩
  | cons effect effects ih =>
    obtain ⟨hhead, hheaders⟩ := apply_setter (h effect List.mem_cons_self) resp
    obtain ⟨ihhead, ihheaders⟩ :=
      ih (fun e he => h e (List.mem_cons_of_mem _ he)) (resp.apply effect)
    have hadded : addedHeaders (effect :: effects) =
        addedHeaders [effect] ++ addedHeaders effects := List.filterMap_append (l := [effect])
    rw [List.foldl_cons, ihhead, ihheaders, hhead, hheaders, hadded, List.append_assoc]
    exact ⟨rfl, rfl⟩

theorem contentLength_eq (content : Bytes) : contentLength content = decimal content.length := by
  cases content with
  | nil => decide
  | cons c content => rfl

theorem addErrorPage_eq (status : Status) (content : Bytes) :
    addErrorPage status content = content ++
      if 404 ≤ status.toUnderlying then statusToResponseContent status else [] := by
  unfold addErrorPage
  have hnotFound : Status.NotFound.toUnderlying = 404 := rfl
  rw [hnotFound]
  split
  · rfl
  · exact (List.append_nil _).symm

theorem valuesOf_append (key : Bytes) (headers more : List ResponseHeader) :
    valuesOf key (headers ++ more) = valuesOf key headers ++ valuesOf key more := by
  rw [valuesOf, List.filter_append, List.map_append]
  rfl

/-- One length and one content type are generated. -/
theorem valuesOf_generated (resp : HttpResponse) (date : Bytes) :
    valuesOf (bytes "Content-Length") (resp.generatedHeaders date) =
        [decimal (addErrorPage resp.status resp.content).length] ∧
      (valuesOf (bytes "Content-Type") (resp.generatedHeaders date)).length = 1 := by
  have hhost : valuesOf (bytes "Content-Length")
      (if hasHost resp.headers then [] else [(bytes "Host", bytes "Harold")]) = [] ∧
      valuesOf (bytes "Content-Type")
        (if hasHost resp.headers then [] else [(bytes "Host", bytes "Harold")]) = [] := by
    split <;> decide
  rw [generatedHeaders, valuesOf_append, valuesOf_append, hhost.1, hhost.2, contentLength_eq]
  exact ⟨rfl, rfl⟩

/-! ## Lines have no end inside -/

theorem cr_not_mem_of_printable {s : Bytes} (h : Printable s) : cr ∉ s :=
  fun hmem => absurd (h cr hmem) (by decide)

theorem cr_not_mem_statusLine (status : Status) : cr ∉ statusLine status := by
  cases status <;> decide

theorem cr_not_mem_fieldLine {header : ResponseHeader} (h : cr ∉ header.1 ++ header.2) :
    cr ∉ fieldLine header := by
  obtain ⟨hname, hval⟩ := not_or.1 (mt List.mem_append.2 h)
  simp only [fieldLine, List.mem_append, not_or]
  exact ⟨⟨hname, by decide⟩, hval⟩

theorem fieldLine_ne_nil (header : ResponseHeader) : fieldLine header ≠ [] :=
  List.append_ne_nil_of_left_ne_nil (List.append_ne_nil_of_right_ne_nil _ (by decide)) _

/-- What is generated has no line end inside. -/
theorem cr_not_mem_generated (resp : HttpResponse) (t : GmtTime) :
    ∀ header ∈ resp.generatedHeaders (getGmtTimeStr t), cr ∉ header.1 ++ header.2 := by
  intro header hmem
  have hdate := cr_not_mem_of_printable (printable_getGmtTimeStr t)
  have hlength := cr_not_mem_of_printable
    (printable_decimal (addErrorPage resp.status resp.content).length)
  have htype : cr ∉ contentTypeValue resp.contentType := by
    cases resp.contentType <;> decide
  rw [generatedHeaders, contentLength_eq] at hmem
  rcases List.mem_append.1 hmem with hmem | hmem
  · split at hmem
    · cases hmem
    · rw [List.mem_singleton.1 hmem]
      decide
  · simp only [List.mem_cons, List.not_mem_nil, or_false] at hmem
    have hnames : cr ∉ bytes "Content-Length" ∧ cr ∉ bytes "Date" ∧ cr ∉ bytes "Content-Type" := by
      decide
    rw [List.mem_append, not_or]
    rcases hmem with rfl | rfl | rfl
    · exact ⟨hnames.1, hlength⟩
    · exact ⟨hnames.2.1, hdate⟩
    · exact ⟨hnames.2.2, htype⟩

end HttpResponse

open HttpResponse

theorem valuesOf_plain {headers : List ResponseHeader}
    (h : ∀ header ∈ headers, PlainHeader header) :
    valuesOf (bytes "Content-Length") headers = [] ∧
      valuesOf (bytes "Content-Type") headers = [] := by
  unfold valuesOf
  rw [List.map_eq_nil_iff, List.map_eq_nil_iff, List.filter_eq_nil_iff, List.filter_eq_nil_iff]
  exact ⟨fun header hmem => by rw [(h header hmem).contentLength]; exact Bool.false_ne_true,
    fun header hmem => by rw [(h header hmem).contentType]; exact Bool.false_ne_true⟩

/-- **An answer is framed.** A new response that was only set, with plain headers, gives a payload
whose head is the status line, the headers that were set and generated ones, among them one length
and one content type, and whose body has that length. -/
theorem getPayload_framed (effects : List ResponseEffect) (t : GmtTime)
    (hset : ∀ effect ∈ effects, effect.IsSetter)
    (hplain : ∀ header ∈ addedHeaders effects, PlainHeader header) :
    ∃ m generated,
      readMessage ((effects.foldl apply HttpResponse.fresh).getPayload (getGmtTimeStr t)).1 =
          some m ∧
        Framed (effects.foldl apply HttpResponse.fresh) (addedHeaders effects) generated m := by
  obtain ⟨hhead, hheaders⟩ := foldl_setters hset HttpResponse.fresh
  generalize effects.foldl apply HttpResponse.fresh = resp at hhead hheaders ⊢
  have hhead : resp.head = [] := hhead
  have hheaders : resp.headers = addedHeaders effects := hheaders
  have hfields : ∀ header ∈ addedHeaders effects ++ resp.generatedHeaders (getGmtTimeStr t),
      cr ∉ header.1 ++ header.2 := by
    intro header hmem
    rcases List.mem_append.1 hmem with hmem | hmem
    · exact (hplain header hmem).cr
    · exact cr_not_mem_generated resp t header hmem
  have hlines : ∀ line ∈ statusLine resp.status ::
      (addedHeaders effects ++ resp.generatedHeaders (getGmtTimeStr t)).map fieldLine,
      line ≠ [] ∧ cr ∉ line := by
    intro line hmem
    rcases List.mem_cons.1 hmem with rfl | hmem
    · exact ⟨by cases resp.status <;> decide, cr_not_mem_statusLine _⟩
    · obtain ⟨header, hheader, rfl⟩ := List.mem_map.1 hmem
      exact ⟨fieldLine_ne_nil header, cr_not_mem_fieldLine (hfields header hheader)⟩
  have hsplit := splitMessage_lines (by decide : cr ≠ lf) (List.cons_ne_nil _ _) hlines
    (addErrorPage resp.status resp.content)
  have hread : readMessage (resp.getPayload (getGmtTimeStr t)).1 =
      some ⟨statusLine resp.status,
        (addedHeaders effects ++ resp.generatedHeaders (getGmtTimeStr t)).map fieldLine,
        addErrorPage resp.status resp.content⟩ := by
    rw [payload_eq, hhead, hheaders, List.nil_append, readMessage, hsplit]
  obtain ⟨hlength, htype⟩ := valuesOf_generated resp (getGmtTimeStr t)
  exact ⟨_, resp.generatedHeaders (getGmtTimeStr t), hread, rfl, rfl,
    addErrorPage_eq resp.status resp.content, hlength, htype, valuesOf_plain hplain⟩

/-- A missing page whose content looks like the end of a head, with a header of its own. -/
theorem getPayload_framed_notFound :
    ∃ m generated,
      readMessage ((([.setHeader (bytes "Server") (bytes "demo"), .setContent (crlf ++ crlf),
          .setStatusCode .NotFound, .setContentType .Html] : List ResponseEffect).foldl apply
            HttpResponse.fresh).getPayload (getGmtTimeStr ⟨3, 24, 9, 2023, 16, 34, 7⟩)).1 =
          some m ∧
        Framed (([.setHeader (bytes "Server") (bytes "demo"), .setContent (crlf ++ crlf),
          .setStatusCode .NotFound, .setContentType .Html] : List ResponseEffect).foldl apply
            HttpResponse.fresh) [(bytes "Server", bytes "demo")] generated m := by
  refine getPayload_framed _ _ (by decide) fun header hmem => ?_
  rw [List.mem_singleton.1 hmem]
  constructor <;> decide

end GameServer.Http
