import Mathlib.Algebra.Order.Ring.Nat
import GameServer.Http.PicoHttpParser
import GameServer.Lib.Transducer

/-!
# `phr_decode_chunked`

The decoder of chunked bodies. It works in place: what it decodes goes to `dst`, which follows the
position `src` of the next byte, and in the end the bytes that it did not read are moved behind it.
The cases of the `switch` that fall through call the next one. The loop has fuel; it needs no more
than one turn for each byte, and one.

`chunkedStep` is what the decoder does with one byte.
-/

namespace GameServer.Http

open GameServer.Lib

/-- `CHUNKED_IN_CHUNK_SIZE` and the other states. -/
inductive ChunkedState where
  | inChunkSize
  | inChunkExt
  | inChunkData
  | inChunkCrlf
  | inTrailersLineHead
  | inTrailersLineMiddle
  deriving DecidableEq, Repr

/-- `struct phr_chunked_decoder`. -/
structure PhrChunkedDecoder where
  bytesLeftInChunk : Nat
  consumeTrailer : Bool
  hexCount : Nat
  state : ChunkedState
  deriving DecidableEq, Repr

/-- A decoder that was set to zero, but for `consume_trailer`. -/
def PhrChunkedDecoder.zero (consumeTrailer : Bool) : PhrChunkedDecoder :=
  ⟨0, consumeTrailer, 0, .inChunkSize⟩

/-- `decode_hex`; -1 is `none`. -/
def decodeHex (ch : UInt8) : Option Nat :=
  if 0x30 ≤ ch ∧ ch ≤ 0x39 then some (ch.toNat - 0x30)
  else if 0x41 ≤ ch ∧ ch ≤ 0x46 then some (ch.toNat - 0x41 + 0xa)
  else if 0x61 ≤ ch ∧ ch ≤ 0x66 then some (ch.toNat - 0x61 + 0xa)
  else none

/-- `bytes_left_in_chunk * 16 + v`. -/
def PhrChunkedDecoder.addDigit (d : PhrChunkedDecoder) (v : Nat) : PhrChunkedDecoder :=
  { d with
    bytesLeftInChunk := (d.bytesLeftInChunk * 16 + v) % 2 ^ 64
    hexCount := d.hexCount + 1 }

/-- `memmove(buf + dst, buf + src, n)`. -/
def memmove (buf : Bytes) (dst src n : Nat) : Bytes :=
  buf.take dst ++ (buf.drop src).take n ++ buf.drop (dst + n)

/-- The variables of the function; `bufsz` is the length of `buf`. -/
structure ChunkedLocals where
  decoder : PhrChunkedDecoder
  buf : Bytes
  dst : Nat
  src : Nat

/-- Where a case of the `switch` ends. -/
inductive ChunkedFlow where
  /-- `break`, and so the next turn of the loop. -/
  | turn (l : ChunkedLocals)
  /-- `goto Exit`. -/
  | exit (ret : Int) (l : ChunkedLocals)
  /-- `goto Complete`. -/
  | complete (l : ChunkedLocals)

structure ChunkedResult where
  ret : Int
  decoder : PhrChunkedDecoder
  buf : Bytes
  bufsz : Nat
  deriving DecidableEq, Repr

/-- `for (;; ++src)` until a byte has `p`; `none` at the end of the buffer. -/
def scan (p : UInt8 → Bool) : (rest : Bytes) → (src : Nat) → Option Nat
  | [], _ => none
  | c :: rest, src => if p c then some src else scan p rest (src + 1)

/-- The loop over the digits of a size: where it ends, and what it returns if it ends there. -/
def sizeLoop (d : PhrChunkedDecoder) : (rest : Bytes) → (src : Nat) →
    Option Int × PhrChunkedDecoder × Nat
  | [], src => (some (-2), d, src)
  | c :: rest, src =>
    match decodeHex c with
    | none => if d.hexCount = 0 then (some (-1), d, src) else (none, d, src)
    | some v =>
      if d.hexCount = 16 then (some (-1), d, src) else sizeLoop (d.addDigit v) rest (src + 1)

namespace ChunkedLocals

/-- The bytes from `src` on. -/
def rest (l : ChunkedLocals) : Bytes := l.buf.drop l.src

/-- The bytes before `dst`. -/
def decoded (l : ChunkedLocals) : Bytes := l.buf.take l.dst

/-- The end of the buffer while a loop looks for a byte. -/
def exhausted (l : ChunkedLocals) : ChunkedFlow := .exit (-2) { l with src := l.buf.length }

def setState (l : ChunkedLocals) (state : ChunkedState) : ChunkedLocals :=
  { l with decoder := { l.decoder with state } }

/-- `if (dst != src) memmove(buf + dst, buf + src, n)`. -/
def moveDown (l : ChunkedLocals) (n : Nat) : Bytes :=
  if l.dst ≠ l.src then memmove l.buf l.dst l.src n else l.buf

def inChunkCrlf (l : ChunkedLocals) : ChunkedFlow :=
  match scan (fun c => c != cr) l.rest l.src with
  | none => l.exhausted
  | some src =>
    if l.buf.getD src 0 ≠ lf then .exit (-1) { l with src }
    else .turn ({ l with src := src + 1 }.setState .inChunkSize)

/-- Takes `n` bytes of the chunk, and counts them with `left`. -/
def takeData (l : ChunkedLocals) (n left : Nat) : ChunkedLocals where
  decoder := { l.decoder with bytesLeftInChunk := left }
  buf := l.moveDown n
  dst := l.dst + n
  src := l.src + n

def inChunkData (l : ChunkedLocals) : ChunkedFlow :=
  let avail := l.buf.length - l.src
  let left := l.decoder.bytesLeftInChunk
  if avail < left then .exit (-2) (l.takeData avail (left - avail))
  else ((l.takeData left 0).setState .inChunkCrlf).inChunkCrlf

def inChunkExt (l : ChunkedLocals) : ChunkedFlow :=
  match scan (fun c => c == lf) l.rest l.src with
  | none => l.exhausted
  | some src =>
    let l := { l with src := src + 1 }
    if l.decoder.bytesLeftInChunk = 0 then
      if l.decoder.consumeTrailer then .turn (l.setState .inTrailersLineHead) else .complete l
    else (l.setState .inChunkData).inChunkData

def inChunkSize (l : ChunkedLocals) : ChunkedFlow :=
  match sizeLoop l.decoder l.rest l.src with
  | (some ret, decoder, src) => .exit ret { l with decoder, src }
  | (none, decoder, src) =>
    { l with decoder := { decoder with hexCount := 0, state := .inChunkExt }, src }.inChunkExt

def inTrailersLineMiddle (l : ChunkedLocals) : ChunkedFlow :=
  match scan (fun c => c == lf) l.rest l.src with
  | none => l.exhausted
  | some src => .turn ({ l with src := src + 1 }.setState .inTrailersLineHead)

def inTrailersLineHead (l : ChunkedLocals) : ChunkedFlow :=
  match scan (fun c => c != cr) l.rest l.src with
  | none => l.exhausted
  | some src =>
    let byte := l.buf.getD src 0
    let l := { l with src := src + 1 }
    if byte = lf then .complete l else (l.setState .inTrailersLineMiddle).inTrailersLineMiddle

/-- The `switch`. -/
def switch (l : ChunkedLocals) : ChunkedFlow :=
  match l.decoder.state with
  | .inChunkSize => l.inChunkSize
  | .inChunkExt => l.inChunkExt
  | .inChunkData => l.inChunkData
  | .inChunkCrlf => l.inChunkCrlf
  | .inTrailersLineHead => l.inTrailersLineHead
  | .inTrailersLineMiddle => l.inTrailersLineMiddle

/-- From the label `Exit` on. -/
def leave (l : ChunkedLocals) (ret : Int) : ChunkedResult :=
  ⟨ret, l.decoder, l.moveDown (l.buf.length - l.src), l.dst⟩

/-- `while (1)`. -/
def loop : (fuel : Nat) → ChunkedLocals → Option ChunkedResult
  | 0, _ => none
  | fuel + 1, l =>
    match l.switch with
    | .turn l => loop fuel l
    | .exit ret l => some (l.leave ret)
    | .complete l => some (l.leave (l.buf.length - l.src : Nat))

end ChunkedLocals

/-- `phr_decode_chunked` on a buffer of which all bytes are given. -/
def phrDecodeChunked (decoder : PhrChunkedDecoder) (buf : Bytes) : Option ChunkedResult :=
  ChunkedLocals.loop (buf.length + 1) ⟨decoder, buf, 0, 0⟩

def phrDecodeChunkedIsInData (decoder : PhrChunkedDecoder) : Bool :=
  decoder.state == .inChunkData

/-! ## One byte -/

/-- A byte of an extension. -/
def chunkedExtStep (d : PhrChunkedDecoder) (c : UInt8) : Verdict PhrChunkedDecoder UInt8 :=
  if c = lf then
    if d.bytesLeftInChunk = 0 then
      if d.consumeTrailer then .next { d with state := .inTrailersLineHead } [] else .stop d
    else .next { d with state := .inChunkData } []
  else .next d []

def chunkedStep (d : PhrChunkedDecoder) (c : UInt8) : Verdict PhrChunkedDecoder UInt8 :=
  match d.state with
  | .inChunkSize =>
    match decodeHex c with
    | some v => if d.hexCount = 16 then .refuse else .next (d.addDigit v) []
    | none =>
      if d.hexCount = 0 then .refuse
      else chunkedExtStep { d with hexCount := 0, state := .inChunkExt } c
  | .inChunkExt => chunkedExtStep d c
  | .inChunkData =>
    .next { d with
      bytesLeftInChunk := d.bytesLeftInChunk - 1
      state := if d.bytesLeftInChunk = 1 then .inChunkCrlf else .inChunkData } [c]
  | .inChunkCrlf =>
    if c = cr then .next d []
    else if c = lf then .next { d with state := .inChunkSize } []
    else .refuse
  | .inTrailersLineHead =>
    if c = cr then .next d []
    else if c = lf then .stop d
    else .next { d with state := .inTrailersLineMiddle } []
  | .inTrailersLineMiddle =>
    if c = lf then .next { d with state := .inTrailersLineHead } [] else .next d []

/-- In a chunk there is a byte left; between chunks there is none, and a size has as many digits as
were counted. -/
structure PhrChunkedDecoder.Wf (d : PhrChunkedDecoder) : Prop where
  digits : d.hexCount ≤ 16
  size : d.state = .inChunkSize → d.bytesLeftInChunk < 16 ^ d.hexCount
  ext : d.state ≠ .inChunkSize → d.hexCount = 0 ∧ d.bytesLeftInChunk < 2 ^ 64
  data : d.state = .inChunkData → 0 < d.bytesLeftInChunk
  crlf : d.state ≠ .inChunkSize → d.state ≠ .inChunkExt → d.state ≠ .inChunkData →
    d.bytesLeftInChunk = 0

/-- `phr_decode_chunked_is_in_data` tells whether the next byte is data, whatever it is. -/
theorem phrDecodeChunkedIsInData_iff (d : PhrChunkedDecoder) (c : UInt8) :
    phrDecodeChunkedIsInData d = true ↔ ∃ t, chunkedStep d c = .next t [c] := by
  have hext : ∀ (e t : PhrChunkedDecoder), chunkedExtStep e c ≠ .next t [c] := by
    intro e t h
    unfold chunkedExtStep at h
    split at h
    · split at h
      · split at h <;> cases h
      · cases h
    · cases h
  unfold phrDecodeChunkedIsInData
  rw [beq_iff_eq]
  constructor
  · intro hstate
    exact ⟨_, by simp only [chunkedStep, hstate]; rfl⟩
  · rintro ⟨t, h⟩
    unfold chunkedStep at h
    split at h
    · split at h
      · split at h <;> cases h
      · split at h
        · cases h
        · exact absurd h (hext _ t)
    · exact absurd h (hext _ t)
    · next hstate => exact hstate
    · split at h
      · cases h
      · split at h <;> cases h
    · split at h
      · cases h
      · split at h <;> cases h
    · split at h <;> cases h

theorem PhrChunkedDecoder.wf_zero (consumeTrailer : Bool) :
    (PhrChunkedDecoder.zero consumeTrailer).Wf :=
  ⟨Nat.zero_le _, fun _ => Nat.one_pos, fun h => absurd rfl h, nofun, fun h => absurd rfl h⟩

end GameServer.Http
