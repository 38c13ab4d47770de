import GameServer.Http.HttpCommon

/-!
# `HttpResponse`

The response of a session is built by its setters and by `GetPayload`, which appends to the
head it built before. Handlers only have the public members, so what a handler does to its
response is a list of `ResponseEffect`s.

* `Used` holds of every response that has given a payload (`used_getPayload`).
* `Outweighs u f` compares a used response `u` with one that started fresh, `f`. It holds at
  the start (`Used.outweighs`), survives every effect that does not assign a whole response
  (`Outweighs.apply`), and makes the payload of `u` the longer one (`Outweighs.getPayload`).
-/

namespace GameServer.Http

abbrev ResponseHeader : Type := Bytes × Bytes

structure HttpResponse where
  status : Status
  contentType : ContentType
  head : Bytes
  content : Bytes
  headers : List ResponseHeader
  deriving DecidableEq, Repr

namespace HttpResponse

def fresh : HttpResponse := ⟨.Unknown, .String, [], [], []⟩

def setStatusCode (resp : HttpResponse) (status : Status) : HttpResponse := { resp with status }

def setHeader (resp : HttpResponse) (fieldName fieldVal : Bytes) : HttpResponse :=
  { resp with headers := resp.headers ++ [(fieldName, fieldVal)] }

def setContentType (resp : HttpResponse) (contentType : ContentType) : HttpResponse :=
  { resp with contentType }

def setContent (resp : HttpResponse) (content : Bytes) : HttpResponse := { resp with content }

def fillResponse (resp : HttpResponse) (status : Status) (contentType : ContentType)
    (content : Bytes) : HttpResponse :=
  { resp with status, contentType, content }

def hasHost (headers : List ResponseHeader) : Bool :=
  headers.any fun header => header.1 == bytes "Host"

/-- The `Host` header, unless there is one. -/
def addHost (headers : List ResponseHeader) : List ResponseHeader :=
  if hasHost headers then headers else headers ++ [(bytes "Host", bytes "Harold")]

/-- The page of an error status, appended to the content. -/
def addErrorPage (status : Status) (content : Bytes) : Bytes :=
  if Status.NotFound.toUnderlying ≤ status.toUnderlying then
    content ++ statusToResponseContent status
  else content

def contentLength (content : Bytes) : Bytes :=
  if content.isEmpty then bytes "0" else decimal content.length

def headerLine (header : ResponseHeader) : Bytes := header.1 ++ bytes ":" ++ header.2 ++ crlf

def headerLines (headers : List ResponseHeader) : Bytes := headers.flatMap headerLine

def buildResponseHead (resp : HttpResponse) (date : Bytes) : HttpResponse :=
  let headers := addHost resp.headers
  let content := addErrorPage resp.status resp.content
  let headers := headers ++ [(bytes "Content-Length", contentLength content)]
  let headers := headers ++ [(bytes "Date", date)]
  { resp with
    head := resp.head ++ statusToResponseHead resp.status ++ headerLines headers
    content
    headers }

/-- `GetPayload` at the time `date`. -/
def getPayload (resp : HttpResponse) (date : Bytes) : Bytes × HttpResponse :=
  let resp := resp.buildResponseHead date
  let head := resp.head ++ contentTypeString resp.contentType ++ crlf ++ resp.content
  (head, { resp with head })

end HttpResponse

/-- What a handler can do to the response it is given. -/
inductive ResponseEffect where
  | setStatusCode (status : Status)
  | setHeader (fieldName fieldVal : Bytes)
  | setContentType (type : ContentType)
  | setContent (content : Bytes)
  | fillResponse (status : Status) (type : ContentType) (content : Bytes)
  | getPayload (date : Bytes)
  | assign (other : HttpResponse)
  deriving DecidableEq, Repr

namespace HttpResponse

def apply (resp : HttpResponse) : ResponseEffect → HttpResponse
  | .setStatusCode status => resp.setStatusCode status
  | .setHeader fieldName fieldVal => resp.setHeader fieldName fieldVal
  | .setContentType type => resp.setContentType type
  | .setContent content => resp.setContent content
  | .fillResponse status type content => resp.fillResponse status type content
  | .getPayload date => (resp.getPayload date).2
  | .assign other => other

def Assigns (effects : List ResponseEffect) : Prop := ∃ other, .assign other ∈ effects

/-- Effects that replace the whole response end in the same one wherever they start. -/
theorem foldl_apply_of_assigns {effects : List ResponseEffect} (h : Assigns effects)
    (u f : HttpResponse) : effects.foldl apply u = effects.foldl apply f := by
  induction effects generalizing u f with
  | nil => exact absurd h.choose_spec List.not_mem_nil
  | cons effect effects ih =>
    obtain ⟨other, hmem⟩ := h
    rw [List.foldl_cons, List.foldl_cons]
    rcases List.mem_cons.1 hmem with rfl | hmem
    · rfl
    · exact ih ⟨other, hmem⟩ _ _

/-! ## The length of a payload -/

variable {u f : HttpResponse}

@[simp] theorem hasHost_append (headers : List ResponseHeader) (header : ResponseHeader) :
    hasHost (headers ++ [header]) = (hasHost headers || header.1 == bytes "Host") := by
  simp [hasHost]

theorem hasHost_addHost (headers : List ResponseHeader) : hasHost (addHost headers) = true := by
  unfold addHost
  split
  · assumption
  · rw [hasHost_append, beq_self_eq_true, Bool.or_true]

/-- `BuildResponseHead` leaves a `Host` header behind. -/
theorem hasHost_getPayload (resp : HttpResponse) (date : Bytes) :
    hasHost (resp.getPayload date).2.headers = true := by
  simp only [getPayload, buildResponseHead, hasHost_append, hasHost_addHost, Bool.true_or]

theorem length_headerLine (header : ResponseHeader) :
    (headerLine header).length = header.1.length + header.2.length + 3 := by
  have h₁ : (bytes ":").length = 1 := rfl
  have h₂ : crlf.length = 2 := rfl
  simp only [headerLine, List.length_append, h₁, h₂]
  omega

theorem length_headerLines_append (headers : List ResponseHeader) (header : ResponseHeader) :
    (headerLines (headers ++ [header])).length =
      (headerLines headers).length + (header.1.length + header.2.length + 3) := by
  simp [headerLines, length_headerLine]

theorem length_headerLines_addHost (headers : List ResponseHeader) :
    (headerLines (addHost headers)).length =
      (headerLines headers).length + if hasHost headers then 0 else 13 := by
  unfold addHost
  split
  · rfl
  · rw [length_headerLines_append]
    rfl

/-- A header set before `Host` is added makes the lines longer by no more than itself. -/
theorem length_headerLines_addHost_append (headers : List ResponseHeader)
    (header : ResponseHeader) : (headerLines (addHost (headers ++ [header]))).length ≤
      (headerLines (addHost headers)).length + (header.1.length + header.2.length + 3) := by
  rw [length_headerLines_addHost, length_headerLines_addHost, length_headerLines_append,
    hasHost_append]
  cases hasHost headers <;> cases header.1 == bytes "Host" <;>
    simp only [Bool.or_true, Bool.or_false, Bool.false_eq_true, if_true, if_false] <;> omega

theorem length_headerLines_of_hasHost {headers : List ResponseHeader} (h : hasHost headers) :
    7 ≤ (headerLines headers).length := by
  have hname : (bytes "Host").length = 4 := rfl
  obtain ⟨header, hmem, hhost⟩ := List.any_eq_true.1 h
  have hline : (headerLine header).length ≤ (headerLines headers).length := by
    rw [headerLines, List.flatMap_def]
    exact (List.sublist_flatten_of_mem (List.mem_map_of_mem hmem)).length_le
  rw [length_headerLine, eq_of_beq hhost, hname] at hline
  omega

/-- What `BuildResponseHead` appends to the header lines besides `Host`. -/
theorem length_headerLines_getPayload (resp : HttpResponse) (date : Bytes) :
    (headerLines (resp.getPayload date).2.headers).length =
      (headerLines (addHost resp.headers)).length + (24 +
        (contentLength (addErrorPage resp.status resp.content)).length + date.length) := by
  have h₁ : (bytes "Content-Length").length = 14 := rfl
  have h₂ : (bytes "Date").length = 4 := rfl
  simp only [getPayload, buildResponseHead, length_headerLines_append, h₁, h₂]
  omega

/-- A payload is everything so far, a status line, the headers and the content. -/
theorem length_payload (resp : HttpResponse) (date : Bytes) :
    (resp.getPayload date).1.length = resp.head.length +
      (statusToResponseHead resp.status).length +
      (headerLines (resp.getPayload date).2.headers).length +
      (contentTypeString resp.contentType).length + 2 +
      (addErrorPage resp.status resp.content).length := by
  have hcrlf : crlf.length = 2 := rfl
  simp only [getPayload, buildResponseHead, List.length_append, hcrlf]

theorem length_contentLength_pos (content : Bytes) : 0 < (contentLength content).length := by
  unfold contentLength
  split
  · exact Nat.one_pos
  · exact length_decimal_pos _

theorem length_contentLength_le {c d : Bytes} (h : c.length ≤ d.length) :
    (contentLength c).length ≤ (contentLength d).length := by
  cases c with
  | nil => exact length_contentLength_pos d
  | cons a c =>
    cases d with
    | nil => exact absurd h (Nat.not_succ_le_zero _)
    | cons b d => exact length_decimal_le h

theorem length_le_addErrorPage (status : Status) (content : Bytes) :
    content.length ≤ (addErrorPage status content).length := by
  unfold addErrorPage
  split
  · rw [List.length_append]
    exact Nat.le_add_right _ _
  · exact Nat.le_refl _

/-! ## A used response against a fresh one -/

/-- The headers of an earlier payload are there. -/
structure Used (u : HttpResponse) : Prop where
  host : hasHost u.headers
  headers_le : 32 ≤ (headerLines u.headers).length

/-- Every response that has given a payload is used. -/
theorem used_getPayload (resp : HttpResponse) (date : Bytes) : Used (resp.getPayload date).2 := by
  refine ⟨hasHost_getPayload resp date, ?_⟩
  have hhost := length_headerLines_of_hasHost (hasHost_addHost resp.headers)
  have hpos := length_contentLength_pos (addErrorPage resp.status resp.content)
  rw [length_headerLines_getPayload]
  omega

/-- `u` agrees with `f` wherever `f` was set, and is longer by an earlier payload. -/
structure Outweighs (u f : HttpResponse) : Prop where
  host : hasHost u.headers
  status : u.status = f.status ∨ f.status = .Unknown
  contentType : u.contentType = f.contentType ∨ f.contentType = .String
  head_le : f.head.length ≤ u.head.length
  content_le : f.content.length ≤ u.content.length
  /-- Even after `f` got its `Host` header. -/
  headers_le : (headerLines (addHost f.headers)).length + 6 ≤ (headerLines u.headers).length

theorem Used.outweighs (h : Used u) : Outweighs u fresh where
  host := h.host
  status := .inr rfl
  contentType := .inr rfl
  head_le := Nat.zero_le _
  content_le := Nat.zero_le _
  headers_le := by
    have hle := h.headers_le
    rw [length_headerLines_addHost]
    exact Nat.le_trans (by decide) hle

namespace Outweighs

theorem setHeader (h : Outweighs u f) (fieldName fieldVal : Bytes) :
    Outweighs (u.setHeader fieldName fieldVal) (f.setHeader fieldName fieldVal) where
  host := by
    have hhost : hasHost u.headers = true := h.host
    simp only [HttpResponse.setHeader, hasHost_append, hhost, Bool.true_or]
  status := h.status
  contentType := h.contentType
  head_le := h.head_le
  content_le := h.content_le
  headers_le := by
    have hf := length_headerLines_addHost_append f.headers (fieldName, fieldVal)
    have hle := h.headers_le
    simp only [HttpResponse.setHeader, length_headerLines_append] at hf ⊢
    omega

/-- The error page is appended to both contents, or to the one of `u` alone. -/
theorem addErrorPage_le (h : Outweighs u f) :
    (addErrorPage f.status f.content).length ≤ (addErrorPage u.status u.content).length := by
  have hle := h.content_le
  rcases h.status with hs | hs
  · unfold addErrorPage
    rw [hs]
    split
    · rw [List.length_append, List.length_append]
      omega
    · exact hle
  · have hf : addErrorPage f.status f.content = f.content := if_neg (by rw [hs]; decide)
    rw [hf]
    exact Nat.le_trans hle (length_le_addErrorPage _ _)

theorem headerLines_getPayload (h : Outweighs u f) (date : Bytes) :
    (headerLines (f.getPayload date).2.headers).length + 6 ≤
      (headerLines (u.getPayload date).2.headers).length := by
  have hle := h.headers_le
  have hcontent := length_contentLength_le h.addErrorPage_le
  have hu : addHost u.headers = u.headers := if_pos h.host
  rw [length_headerLines_getPayload, length_headerLines_getPayload, hu]
  omega

/-- **The payload of a used response is the longer one.** -/
theorem payload_lt (h : Outweighs u f) (date : Bytes) :
    (f.getPayload date).1.length < (u.getPayload date).1.length := by
  have hhead := h.head_le
  have hheaders := h.headerLines_getPayload date
  have hcontent := h.addErrorPage_le
  have hstatus : (statusToResponseHead f.status).length ≤
      (statusToResponseHead u.status).length + 3 := by
    rcases h.status with hs | hs
    · rw [hs]
      exact Nat.le_add_right _ _
    · rw [hs]
      exact length_statusToResponseHead _
  have htype : (contentTypeString f.contentType).length ≤
      (contentTypeString u.contentType).length + 1 := by
    rcases h.contentType with ht | ht
    · rw [ht]
      exact Nat.le_add_right _ _
    · rw [ht]
      exact length_contentTypeString _
  rw [length_payload, length_payload]
  omega

theorem getPayload (h : Outweighs u f) (date : Bytes) :
    Outweighs (u.getPayload date).2 (f.getPayload date).2 where
  host := hasHost_getPayload u date
  status := h.status
  contentType := h.contentType
  head_le := Nat.le_of_lt (h.payload_lt date)
  content_le := h.addErrorPage_le
  headers_le := by
    have hf : addHost (f.getPayload date).2.headers = (f.getPayload date).2.headers :=
      if_pos (hasHost_getPayload f date)
    rw [hf]
    exact h.headerLines_getPayload date

theorem apply (h : Outweighs u f) (effect : ResponseEffect)
    (hne : ∀ other, effect ≠ .assign other) : Outweighs (u.apply effect) (f.apply effect) := by
  cases effect with
  | setStatusCode status => exact { h with status := .inl rfl }
  | setHeader fieldName fieldVal => exact h.setHeader fieldName fieldVal
  | setContentType type => exact { h with contentType := .inl rfl }
  | setContent content => exact { h with content_le := Nat.le_refl _ }
  | fillResponse status type content =>
    exact { h with status := .inl rfl, contentType := .inl rfl, content_le := Nat.le_refl _ }
  | getPayload date => exact h.getPayload date
  | assign other => exact absurd rfl (hne other)

/-- Effects that replace no whole response keep `u` ahead of `f`. -/
theorem foldl_apply {effects : List ResponseEffect} (hne : ¬Assigns effects)
    (h : Outweighs u f) : Outweighs (effects.foldl HttpResponse.apply u)
      (effects.foldl HttpResponse.apply f) := by
  induction effects generalizing u f with
  | nil => exact h
  | cons effect effects ih =>
    have hhead : ∀ other, effect ≠ .assign other := by
      rintro other rfl
      exact hne ⟨other, List.mem_cons_self⟩
    have htail : ¬Assigns effects := by
      rintro ⟨other, hmem⟩
      exact hne ⟨other, List.mem_cons_of_mem _ hmem⟩
    exact ih htail (h.apply effect hhead)

end Outweighs

end HttpResponse

end GameServer.Http
