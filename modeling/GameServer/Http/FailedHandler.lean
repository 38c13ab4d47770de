import GameServer.Util.StringTo
import GameServer.Http.Registrations
import GameServer.Http.ResponseFraming

/-!
# The answer of a handler that throws

`Route` catches what a handler throws and sets the status. The headers, the content type and the
content that the handler has set by then stay in the response, and `GetPayload` sends them.
`failed_payload_iff` says when nothing of them can be seen: the handler left the response as it
was, up to a `Host` header that is the generated one.

The payload is compared from the front. The generated lines begin with `Host:Harold`, and lines of
other headers would have to end where this one does (`line_eq_host`).
-/

namespace GameServer.Http

open GameServer.Lib GameServer.Util

namespace HttpResponse

/-- What a payload has after the lines of the headers that were set and of `Host`. -/
def afterHeaders (type : ContentType) (content date : Bytes) : Bytes :=
  bytes "Content-Length" ++ bytes ":" ++ (contentLength content ++ (crlf ++
    (headerLine (bytes "Date", date) ++ (contentTypeString type ++ (crlf ++ content)))))

theorem getPayload_eq (resp : HttpResponse) (date : Bytes) :
    (resp.getPayload date).1 = resp.head ++ statusToResponseHead resp.status ++
      (headerLines (addHost resp.headers) ++
        afterHeaders resp.contentType (addErrorPage resp.status resp.content) date) := by
  simp only [getPayload, buildResponseHead, afterHeaders, headerLines, headerLine,
    List.flatMap_append, List.flatMap_cons, List.flatMap_nil, List.append_nil, List.append_assoc]

theorem length_afterHeaders (type : ContentType) (content date : Bytes) :
    (afterHeaders type content date).length = (contentLength content).length +
      (contentTypeString type).length + content.length + (date.length + 26) := by
  have hname : (bytes "Content-Length").length = 14 := rfl
  have hcolon : (bytes ":").length = 1 := rfl
  have hdate : (bytes "Date").length = 4 := rfl
  have hcrlf : crlf.length = 2 := rfl
  simp only [afterHeaders, List.length_append, length_headerLine, hname, hcolon, hdate, hcrlf]
  omega

/-! ## The lines before the generated ones -/

/-- A text that ends a line and begins a payload of a new response is its first line. -/
theorem line_eq_host {text rest : Bytes} (tail : Bytes) (hlen : text.length < 14)
    (h : text ++ [lf] ++ rest = bytes "Host:Harold\r\nC" ++ tail) :
    text ++ [lf] = bytes "Host:Harold\r\n" := by
  have hends : ∀ i < 14, (bytes "Host:Harold\r\nC")[i]? = some lf → i = 12 := by decide
  have hsize : (bytes "Host:Harold\r\nC").length = 14 := rfl
  have hlast : (bytes "Host:Harold\r\nC")[text.length]? = some lf := by
    have hleft : (bytes "Host:Harold\r\nC" ++ tail)[text.length]? =
        (bytes "Host:Harold\r\nC")[text.length]? :=
      List.getElem?_append_left (by rw [hsize]; exact hlen)
    rw [← hleft, ← h, List.append_assoc, List.getElem?_append_right (Nat.le_refl _), Nat.sub_self]
    rfl
  have hlength : (text ++ [lf]).length = 13 := by
    rw [List.length_append, hends _ hlen hlast]
    rfl
  have htake := congrArg (List.take 13) h
  rw [← hlength, List.take_left', hlength] at htake
  · exact htake
  · rfl

theorem headerLine_eq (header : ResponseHeader) :
    headerLine header = fieldLine header ++ [cr] ++ [lf] := by
  rw [List.append_assoc]
  rfl

theorem exists_headerLines {headers : List ResponseHeader} (h : headers ≠ []) :
    ∃ text, headerLines headers = text ++ [lf] := by
  obtain ⟨front, header, rfl⟩ := (List.eq_nil_or_concat' headers).resolve_left h
  refine ⟨headerLines front ++ (fieldLine header ++ [cr]), ?_⟩
  rw [headerLines, List.flatMap_append, List.append_assoc, ← headerLine_eq]
  simp only [List.flatMap_cons, List.flatMap_nil, List.append_nil, headerLines]

/-- The lines of a `Host` header that are the generated one. -/
theorem eq_of_headerLines {headers : List ResponseHeader} (hhost : hasHost headers = true)
    (h : headerLines headers = bytes "Host:Harold\r\n") :
    headers = [(bytes "Host", bytes "Harold")] := by
  cases headers with
  | nil => cases hhost
  | cons header rest =>
    have hcons : headerLine header ++ headerLines rest = bytes "Host:Harold\r\n" := h
    have hsize : (bytes "Host:Harold\r\n").length = 13 := rfl
    have hlength := congrArg List.length hcons
    rw [List.length_append, hsize, headerLine_eq, List.length_append, List.length_singleton]
      at hlength
    have hfirst : headerLine header = bytes "Host:Harold\r\n" := by
      have htext : fieldLine header ++ [cr] ++ [lf] ++ (headerLines rest ++ bytes "C") =
          bytes "Host:Harold\r\nC" ++ [] := by
        rw [← headerLine_eq, ← List.append_assoc, hcons]
        rfl
      rw [headerLine_eq]
      exact line_eq_host _ (by omega) htext
    have hrest : rest = [] := by
      by_contra hne
      obtain ⟨text, htext⟩ := exists_headerLines hne
      rw [hfirst, htext] at hcons
      have := congrArg List.length hcons
      simp at this
    subst hrest
    have hname : header.1 = bytes "Host" := by
      simpa [hasHost] using hhost
    have hvalue : bytes "Host:" ++ header.2 ++ crlf = bytes "Host:" ++ bytes "Harold" ++ crlf := by
      rw [headerLine, hname] at hfirst
      exact hfirst
    rw [List.append_cancel_right_eq, List.append_cancel_left_eq] at hvalue
    rw [← hname, ← hvalue]

theorem decimal_injective {m n : Nat} (h : decimal m = decimal n) : m = n := by
  have hm := fromDigits_decimal m
  rw [h, fromDigits_decimal n] at hm
  exact (Option.some.inj hm).symm

/-- The number of a line, which its end follows. -/
theorem decimal_crlf_injective {m n : Nat} {s t : Bytes}
    (h : decimal m ++ (crlf ++ s) = decimal n ++ (crlf ++ t)) : m = n ∧ s = t := by
  have hcr (k : Nat) : cr ∉ decimal k := cr_not_mem_of_printable (printable_decimal k)
  obtain ⟨hdigits, hrest⟩ := append_cons_inj (hcr m) (hcr n) h
  exact ⟨decimal_injective hdigits, List.append_cancel_left hrest⟩

theorem contentTypeString_injective {s t : ContentType}
    (h : contentTypeString s = contentTypeString t) : s = t := by
  cases s <;> cases t <;> first | rfl | exact absurd h (by decide)

/-- The generated lines after the headers tell the content type and the content. -/
theorem afterHeaders_injective {s t : ContentType} {c d page date : Bytes}
    (h : afterHeaders s (c ++ page) date = afterHeaders t (d ++ page) date) : s = t ∧ c = d := by
  simp only [afterHeaders, List.append_assoc, List.append_cancel_left_eq, contentLength_eq] at h
  obtain ⟨hlength, hrest⟩ := decimal_crlf_injective h
  obtain ⟨htype, hcontent⟩ := List.append_inj' (List.append_cancel_left hrest)
    (by simp only [List.length_append] at hlength ⊢; omega)
  exact ⟨contentTypeString_injective htype,
    List.append_cancel_right (List.append_cancel_left hcontent)⟩

/-- **Where the headers end.** A payload that is the one of a new response has its header lines. -/
theorem headerLines_eq_host {headers : List ResponseHeader} {type : ContentType}
    {content content' date : Bytes} (hhost : hasHost headers = true)
    (hle : content'.length ≤ content.length)
    (h : headerLines headers ++ afterHeaders type content date =
      bytes "Host:Harold\r\n" ++ afterHeaders .String content' date) :
    headerLines headers = bytes "Host:Harold\r\n" := by
  have hne : headers ≠ [] := by
    rintro rfl
    cases hhost
  obtain ⟨text, htext⟩ := exists_headerLines hne
  have hsize : (bytes "Host:Harold\r\n").length = 13 := rfl
  have hlength := congrArg List.length h
  have hdigits := length_contentLength_le hle
  have htype := length_contentTypeString type
  rw [List.length_append, List.length_append, length_afterHeaders, length_afterHeaders, htext,
    List.length_append, List.length_singleton, hsize] at hlength
  rw [htext] at h ⊢
  refine line_eq_host (afterHeaders .String content' date).tail (by omega) (h.trans ?_)
  rfl

/-- What can be told from the answer: no header but the generated `Host`, the content type and the
content of a new response. -/
structure Unmarked (resp : HttpResponse) : Prop where
  headers : resp.headers = [] ∨ resp.headers = [(bytes "Host", bytes "Harold")]
  contentType : resp.contentType = .String
  content : resp.content = []

/-- Headers to which the generated `Host` is added, or that are it. -/
theorem addHost_eq_host {headers : List ResponseHeader} :
    addHost headers = [(bytes "Host", bytes "Harold")] ↔
      headers = [] ∨ headers = [(bytes "Host", bytes "Harold")] := by
  unfold addHost
  split
  · next hhost =>
    refine ⟨.inr, fun h => h.resolve_left ?_⟩
    rintro rfl
    cases hhost
  · next hhost =>
    constructor
    · intro h
      exact .inl (List.append_left_eq_self.1 h)
    · rintro (rfl | rfl)
      · rfl
      · exact absurd rfl hhost

/-- **What a failed handler leaves behind.** -/
theorem payload_eq_iff_unmarked (resp : HttpResponse) (hhead : resp.head = []) (date : Bytes) :
    ((resp.setStatusCode .ServiceUnavailable).getPayload date).1 =
      ((HttpResponse.fresh.setStatusCode .ServiceUnavailable).getPayload date).1 ↔
        resp.Unmarked := by
  rw [getPayload_eq, getPayload_eq]
  simp only [setStatusCode, hhead, HttpResponse.fresh, List.append_cancel_left_eq]
  have hpage (content : Bytes) : addErrorPage .ServiceUnavailable content =
      content ++ statusToResponseContent .ServiceUnavailable := rfl
  have hlines : headerLines (addHost []) = bytes "Host:Harold\r\n" := rfl
  rw [hpage, hpage, hlines]
  constructor
  · intro h
    have hheaders := headerLines_eq_host (hasHost_addHost resp.headers)
      (by simp only [List.length_append, List.length_nil]; omega) h
    rw [hheaders, List.append_cancel_left_eq] at h
    obtain ⟨htype, hcontent⟩ := afterHeaders_injective h
    exact ⟨addHost_eq_host.1 (eq_of_headerLines (hasHost_addHost resp.headers) hheaders), htype,
      hcontent⟩
  · rintro ⟨hheaders, htype, hcontent⟩
    rw [addHost_eq_host.2 hheaders, htype, hcontent]
    rfl

end HttpResponse

open HttpResponse

variable {router : HttpRouter} {turn : Nat} {req : HttpRequest} {handler : HttpHandlerFunc}

/-- **A handler that throws.** The answer is the one of a new response with the status
`ServiceUnavailable` exactly if the calls of the handler left no other header than the generated
`Host`, the content type `String` and an empty content. -/
theorem failed_payload_iff (hfind : router.find req.key = some handler)
    (hthrows : (handler turn req).throws = true)
    (hset : ∀ effect ∈ (handler turn req).effects, effect.IsSetter) (date : Bytes) :
    ((router.route turn req HttpResponse.fresh).getPayload date).1 =
        ((HttpResponse.fresh.setStatusCode .ServiceUnavailable).getPayload date).1 ↔
      ((handler turn req).effects.foldl apply HttpResponse.fresh).Unmarked := by
  obtain ⟨hhead, -⟩ := foldl_setters hset HttpResponse.fresh
  have hroute : router.route turn req HttpResponse.fresh =
      ((handler turn req).effects.foldl apply HttpResponse.fresh).setStatusCode
        .ServiceUnavailable := by
    simp only [HttpRouter.route, hfind, HttpRouter.answer, hthrows, if_true]
  rw [hroute]
  exact payload_eq_iff_unmarked _ hhead date

theorem find_rootRequest (handler : HttpHandlerFunc) :
    (HttpRouter.fresh.addHttpHandler .GET (bytes "/") handler).find rootRequest.key =
      some handler := rfl

/-- A handler that sets `Host` to the generated value and another status before it throws. -/
theorem failed_payload_iff_host :
    (((HttpRouter.fresh.addHttpHandler .GET (bytes "/") fun _ _ =>
        ⟨[.setStatusCode .Ok, .setHeader (bytes "Host") (bytes "Harold")], true⟩).route 0
          rootRequest HttpResponse.fresh).getPayload []).1 =
        ((HttpResponse.fresh.setStatusCode .ServiceUnavailable).getPayload []).1 ↔
      (([.setStatusCode .Ok, .setHeader (bytes "Host") (bytes "Harold")] :
        List ResponseEffect).foldl apply HttpResponse.fresh).Unmarked :=
  failed_payload_iff (find_rootRequest _) rfl (by decide) []

/-- A handler that sets the content and throws: the content is sent with the error page. -/
theorem failed_content_sent : ¬∀ (router : HttpRouter) (turn : Nat) (req : HttpRequest)
    (handler : HttpHandlerFunc), router.find req.key = some handler →
    (handler turn req).throws = true →
    (∀ effect ∈ (handler turn req).effects, effect.IsSetter) → ∀ date,
    ((router.route turn req HttpResponse.fresh).getPayload date).1 =
      ((HttpResponse.fresh.setStatusCode .ServiceUnavailable).getPayload date).1 := by
  intro h
  have hsent := h (HttpRouter.fresh.addHttpHandler .GET (bytes "/") fun _ _ =>
    ⟨[.setContent (bytes "secret")], true⟩) 0 rootRequest _ (find_rootRequest _) rfl (by decide) []
  have hroute := find_rootRequest fun _ _ => ⟨[.setContent (bytes "secret")], true⟩
  simp only [HttpRouter.route, hroute, HttpRouter.answer, if_true] at hsent
  have hunmarked := (payload_eq_iff_unmarked (HttpResponse.fresh.setContent (bytes "secret"))
    rfl []).1 hsent
  exact absurd hunmarked.content (by decide)

end GameServer.Http
