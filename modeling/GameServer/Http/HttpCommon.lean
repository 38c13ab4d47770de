import Mathlib.Data.List.Basic

/-!
# Common definitions of the HTTP code

Texts are lists of bytes. `bytes` reads a literal of the source, `decimal` prints a number.

* `Status`, `ContentType` and `HttpMethod` are the enumerations of `HttpCommon.h`, with the names
  that `magic_enum::enum_name` gives for a status.
* `statusToResponseHead`, `contentTypeString` and `statusToResponseContent` are the texts of
  `HttpUtil.hpp`.
-/

namespace GameServer.Http

abbrev Bytes := List UInt8

/-- The bytes of an ASCII literal. -/
def bytes (s : String) : Bytes := s.toList.map fun c => c.toNat.toUInt8

theorem length_bytes_ofList (s : List Char) : (bytes (String.ofList s)).length = s.length := by
  rw [bytes, String.toList_ofList, List.length_map]

/-- A number in decimal digits. -/
def decimal (n : Nat) : Bytes := (Nat.toDigits 10 n).map fun c => c.toNat.toUInt8

/-- A larger number has no fewer digits. -/
theorem length_decimal_le {m n : Nat} (h : m ≤ n) : (decimal m).length ≤ (decimal n).length := by
  simp only [decimal, List.length_map]
  rw [Nat.length_toDigits_le_iff (by omega) Nat.length_toDigits_pos]
  exact Nat.lt_of_le_of_lt h
    ((Nat.length_toDigits_le_iff (by omega) Nat.length_toDigits_pos).1 (Nat.le_refl _))

theorem length_decimal_pos (n : Nat) : 0 < (decimal n).length := by
  rw [decimal, List.length_map]
  exact Nat.length_toDigits_pos

theorem mem_decimal {n : Nat} {c : UInt8} (h : c ∈ decimal n) : 0x30 ≤ c ∧ c ≤ 0x39 := by
  obtain ⟨d, hd, rfl⟩ := List.mem_map.1 h
  have hdigit := Nat.isDigit_of_mem_toDigits (by decide) (by decide) hd
  rw [Char.isDigit_iff_toNat] at hdigit
  have hlo : 48 ≤ d.toNat := hdigit.1
  have hhi : d.toNat ≤ 57 := hdigit.2
  have hval : d.toNat.toUInt8.toNat = d.toNat := by
    rw [Nat.toUInt8, UInt8.toNat_ofNat', Nat.mod_eq_of_lt (by omega)]
  rw [UInt8.le_iff_toNat_le, UInt8.le_iff_toNat_le, hval]
  exact ⟨hlo, hhi⟩

/-! ## Printable texts -/

/-- A printable ASCII character or a space. -/
def isPrintable (c : UInt8) : Bool := 0x20 ≤ c && c < 0x7f

def Printable (s : Bytes) : Prop := ∀ c ∈ s, isPrintable c

instance (s : Bytes) : Decidable (Printable s) := inferInstanceAs (Decidable (∀ c ∈ s, _))

theorem Printable.append {s t : Bytes} (hs : Printable s) (ht : Printable t) :
    Printable (s ++ t) := by
  intro c hc
  rcases List.mem_append.1 hc with hc | hc
  · exact hs c hc
  · exact ht c hc

theorem printable_decimal (n : Nat) : Printable (decimal n) := by
  intro c hc
  obtain ⟨hlo, hhi⟩ := mem_decimal hc
  rw [isPrintable, Bool.and_eq_true, decide_eq_true_eq, decide_eq_true_eq]
  exact ⟨UInt8.le_trans (by decide) hlo, UInt8.lt_of_le_of_lt hhi (by decide)⟩

/-! ## Status codes -/

inductive Status where
  | Unknown
  | SwitchingProtocols
  | Ok
  | Created
  | Accepted
  | NoContent
  | PartialContent
  | MultipleChoices
  | MovedPermanently
  | MovedTemporarily
  | NotModified
  | TemporaryRedirect
  | BadRequest
  | Unauthorized
  | Forbidden
  | NotFound
  | Conflict
  | InternalServerError
  | NotImplemented
  | BadGateway
  | ServiceUnavailable
  deriving DecidableEq, Repr

namespace Status

def toUnderlying : Status → Nat
  | Unknown => 0
  | SwitchingProtocols => 101
  | Ok => 200
  | Created => 201
  | Accepted => 202
  | NoContent => 204
  | PartialContent => 206
  | MultipleChoices => 300
  | MovedPermanently => 301
  | MovedTemporarily => 302
  | NotModified => 304
  | TemporaryRedirect => 307
  | BadRequest => 400
  | Unauthorized => 401
  | Forbidden => 403
  | NotFound => 404
  | Conflict => 409
  | InternalServerError => 500
  | NotImplemented => 501
  | BadGateway => 502
  | ServiceUnavailable => 503

def enumName : Status → Bytes
  | Unknown => bytes "Unknown"
  | SwitchingProtocols => bytes "SwitchingProtocols"
  | Ok => bytes "Ok"
  | Created => bytes "Created"
  | Accepted => bytes "Accepted"
  | NoContent => bytes "NoContent"
  | PartialContent => bytes "PartialContent"
  | MultipleChoices => bytes "MultipleChoices"
  | MovedPermanently => bytes "MovedPermanently"
  | MovedTemporarily => bytes "MovedTemporarily"
  | NotModified => bytes "NotModified"
  | TemporaryRedirect => bytes "TemporaryRedirect"
  | BadRequest => bytes "BadRequest"
  | Unauthorized => bytes "Unauthorized"
  | Forbidden => bytes "Forbidden"
  | NotFound => bytes "NotFound"
  | Conflict => bytes "Conflict"
  | InternalServerError => bytes "InternalServerError"
  | NotImplemented => bytes "NotImplemented"
  | BadGateway => bytes "BadGateway"
  | ServiceUnavailable => bytes "ServiceUnavailable"

end Status

def crlf : Bytes := bytes "\r\n"

def statusToResponseHead (status : Status) : Bytes :=
  bytes "HTTP/1.1 " ++ decimal status.toUnderlying ++ bytes " " ++ status.enumName ++ crlf

def statusToResponseContent (status : Status) : Bytes :=
  bytes "\n                <html>\n                <head><title>" ++ status.enumName ++
    bytes "</title></head>\n                <body><h1>" ++ decimal status.toUnderlying ++
    bytes " " ++ status.enumName ++ bytes "</h1></body>\n                </html>"

/-- No status line is much shorter than the one of `Status::Unknown`. -/
theorem length_statusToResponseHead (status : Status) :
    (statusToResponseHead .Unknown).length ≤ (statusToResponseHead status).length + 3 := by
  cases status <;> decide

/-! ## Content types and methods -/

inductive ContentType where
  | String
  | Html
  | Json
  deriving DecidableEq, Repr

def contentTypeString : ContentType → Bytes
  | .String => bytes "Content-Type: text/plain; charset=UTF-8\r\n"
  | .Html => bytes "Content-Type: text/html; charset=UTF-8\r\n"
  | .Json => bytes "Content-Type: application/json; charset=UTF-8\r\n"

theorem length_contentTypeString (type : ContentType) :
    (contentTypeString .String).length ≤ (contentTypeString type).length + 1 := by
  cases type <;> decide

inductive HttpMethod where
  | UNKNOWN
  | DELETE
  | GET
  | HEAD
  | POST
  | PUT
  | PATCH
  | CONNECT
  | OPTIONS
  deriving DecidableEq, Repr

def httpMethodToString : HttpMethod → Bytes
  | .UNKNOWN => bytes "UNKNOWN"
  | .DELETE => bytes "DELETE"
  | .GET => bytes "GET"
  | .HEAD => bytes "HEAD"
  | .POST => bytes "POST"
  | .PUT => bytes "PUT"
  | .PATCH => bytes "PATCH"
  | .CONNECT => bytes "CONNECT"
  | .OPTIONS => bytes "OPTIONS"

end GameServer.Http
