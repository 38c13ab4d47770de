import Mathlib.Data.List.Basic

/-!
# `NetMessage::Message`

The wire form of the messages and what the code relies on of protobuf. A message is written as its
fields in order of their numbers, where a field with its default value is left out; it is read as
a sequence of complete fields, of which a later one replaces an earlier one of the same number.

* `Field.encode` writes a field, `readField` and `readFields` read them back.
* `Protobuf` is the generated code as the session uses it; `Protobuf.wire` is one that reads the
  two fields of the message and no others.
-/

namespace GameServer.Net

/-- `message Message`. -/
structure Message where
  header : UInt32
  content : List UInt8
  deriving DecidableEq, Repr

inductive Field where
  | header (value : UInt32)
  | content (value : List UInt8)
  deriving DecidableEq, Repr

/-- A number in groups of seven bits, the lowest first, of at most so many groups. -/
def varintGroups : (fuel : Nat) → Nat → List UInt8
  | 0, _ => []
  | fuel + 1, n =>
    if n < 0x80 then [n.toUInt8] else (n % 0x80 + 0x80).toUInt8 :: varintGroups fuel (n / 0x80)

/-- The base 128 varint of a number. -/
def varint (n : Nat) : List UInt8 := varintGroups (n + 1) n

namespace Field

/-- The key of the field and its value: `fixed32` with number 1, `bytes` with number 2. -/
def encode : Field → List UInt8
  | header value =>
    [0x0d, value.toUInt8, (value >>> 8).toUInt8, (value >>> 16).toUInt8, (value >>> 24).toUInt8]
  | content value => 0x12 :: (varint value.length ++ value)

def isHeader : Field → Bool
  | header _ => true
  | content _ => false

theorem encode_ne_nil (f : Field) : f.encode ≠ [] := by
  cases f <;> exact List.cons_ne_nil _ _

end Field

def encodeFields (fields : List Field) : List UInt8 := fields.flatMap Field.encode

namespace Message

/-- The fields that are written. -/
def fields (m : Message) : List Field :=
  (if m.header = 0 then [] else [.header m.header]) ++
    if m.content = [] then [] else [.content m.content]

def wire (m : Message) : List UInt8 := encodeFields m.fields

def setField (m : Message) : Field → Message
  | .header value => { m with header := value }
  | .content value => { m with content := value }

/-- What a sequence of fields is read as. -/
def ofFields (fields : List Field) : Message := fields.foldl setField ⟨0, []⟩

theorem header_foldl {fields : List Field} (h : ∀ f ∈ fields, f.isHeader = false) (m : Message) :
    (fields.foldl setField m).header = m.header := by
  induction fields generalizing m with
  | nil => rfl
  | cons f fields ih =>
    rw [List.foldl_cons, ih fun g hg => h g (List.mem_cons_of_mem _ hg)]
    cases f with
    | header value => cases h _ List.mem_cons_self
    | content value => rfl

theorem content_foldl {fields : List Field} (h : ∀ f ∈ fields, f.isHeader) (m : Message) :
    (fields.foldl setField m).content = m.content := by
  induction fields generalizing m with
  | nil => rfl
  | cons f fields ih =>
    rw [List.foldl_cons, ih fun g hg => h g (List.mem_cons_of_mem _ hg)]
    cases f with
    | header value => rfl
    | content value => cases h _ List.mem_cons_self

end Message

/-- The generated code of the message: what it gives for the sizes that an `int` can hold. -/
structure Protobuf where
  /-- `SerializeToArray`, `none` where it fails. -/
  serializeToArray : Message → Option (List UInt8)
  /-- `ParseFromArray` of an array and a size. -/
  parseFromArray : List UInt8 → Int → Option Message
  serialize_wire : ∀ m : Message, m.wire.length < 0x80000000 → serializeToArray m = some m.wire
  parse_fields : ∀ fields, (encodeFields fields).length < 0x80000000 →
    parseFromArray (encodeFields fields) (encodeFields fields).length =
      some (Message.ofFields fields)
  /-- An array that ends within a field is not accepted. -/
  parse_cut : ∀ fields cut more, ∀ f : Field, cut ≠ [] → more ≠ [] → cut ++ more = f.encode →
    (encodeFields fields ++ cut).length < 0x80000000 →
    parseFromArray (encodeFields fields ++ cut) (encodeFields fields ++ cut).length = none

/-! ## Reading the fields back -/

def readVarint : List UInt8 → Option (Nat × List UInt8)
  | [] => none
  | b :: bs =>
    if b < 0x80 then some (b.toNat, bs)
    else (readVarint bs).map fun r => (b.toNat - 0x80 + 0x80 * r.1, r.2)

def readField : List UInt8 → Option (Field × List UInt8)
  | 0x0d :: b₀ :: b₁ :: b₂ :: b₃ :: rest =>
    some (.header (.ofNat (b₀.toNat + 0x100 * (b₁.toNat + 0x100 * (b₂.toNat + 0x100 * b₃.toNat)))),
      rest)
  | 0x12 :: rest =>
    (readVarint rest).bind fun r =>
      if r.1 ≤ r.2.length then some (.content (r.2.take r.1), r.2.drop r.1) else none
  | _ => none

/-- At most so many fields. -/
def readFields : (fuel : Nat) → List UInt8 → Option (List Field)
  | _, [] => some []
  | 0, _ :: _ => none
  | fuel + 1, b :: bs =>
    (readField (b :: bs)).bind fun r => (readFields fuel r.2).map (r.1 :: ·)

theorem readVarint_groups {fuel n : Nat} (h : n < fuel) (rest : List UInt8) :
    readVarint (varintGroups fuel n ++ rest) = some (n, rest) := by
  induction fuel generalizing n with
  | zero => omega
  | succ fuel ih =>
    unfold varintGroups
    split
    · next hlt =>
      have hval : n.toUInt8.toNat = n := by
        rw [Nat.toUInt8, UInt8.toNat_ofNat', Nat.mod_eq_of_lt (by omega)]
      have hlast : n.toUInt8 < 0x80 := UInt8.lt_iff_toNat_lt.2 (hval.symm ▸ hlt)
      rw [List.singleton_append, readVarint, if_pos hlast, hval]
    · next hge =>
      have hval : (n % 0x80 + 0x80).toUInt8.toNat = n % 0x80 + 0x80 := by
        rw [Nat.toUInt8, UInt8.toNat_ofNat', Nat.mod_eq_of_lt (by omega)]
      have hmore : ¬(n % 0x80 + 0x80).toUInt8 < 0x80 := by
        intro hlt
        have := UInt8.lt_iff_toNat_lt.1 hlt
        rw [hval] at this
        exact absurd this (Nat.not_lt.2 (Nat.le_add_left _ _))
      have hsum : n % 0x80 + 0x80 - 0x80 + 0x80 * (n / 0x80) = n := by omega
      rw [List.cons_append, readVarint, if_neg hmore, ih (by omega), Option.map_some, hval, hsum]

theorem readField_encode (f : Field) (rest : List UInt8) :
    readField (f.encode ++ rest) = some (f, rest) := by
  cases f with
  | header value =>
    have hsum : value.toUInt8.toNat + 0x100 * ((value >>> 8).toUInt8.toNat + 0x100 *
        ((value >>> 16).toUInt8.toNat + 0x100 * (value >>> 24).toUInt8.toNat)) = value.toNat := by
      have hlt := value.toNat_lt
      simp only [UInt32.toNat_toUInt8, UInt32.toNat_shiftRight, Nat.shiftRight_eq_div_pow,
        UInt32.reduceToNat, Nat.reduceMod, Nat.reducePow] at hlt ⊢
      omega
    have hread : readField ((Field.header value).encode ++ rest) = some (.header (.ofNat
        (value.toUInt8.toNat + 0x100 * ((value >>> 8).toUInt8.toNat + 0x100 *
          ((value >>> 16).toUInt8.toNat + 0x100 * (value >>> 24).toUInt8.toNat)))), rest) := rfl
    rw [hread, hsum, UInt32.ofNat_toNat]
  | content value =>
    have hread : readField ((Field.content value).encode ++ rest) =
        (readVarint (varint value.length ++ (value ++ rest))).bind fun r =>
          if r.1 ≤ r.2.length then some (.content (r.2.take r.1), r.2.drop r.1) else none := by
      rw [← List.append_assoc]
      rfl
    have hlen : value.length ≤ (value ++ rest).length := by
      rw [List.length_append]
      exact Nat.le_add_right _ _
    rw [hread, varint, readVarint_groups (Nat.lt_succ_self _), Option.bind_some, if_pos hlen,
      List.take_left, List.drop_left]

/-- **Fields are read back**, with enough fuel. -/
theorem readFields_encode {fields : List Field} {fuel : Nat} (h : fields.length ≤ fuel) :
    readFields fuel (encodeFields fields) = some fields := by
  induction fields generalizing fuel with
  | nil => cases fuel <;> rfl
  | cons f fields ih =>
    obtain ⟨fuel, rfl⟩ : ∃ n, fuel = n + 1 := Nat.exists_eq_add_one_of_ne_zero
      (Nat.ne_of_gt (Nat.lt_of_lt_of_le (Nat.succ_pos _) h))
    obtain ⟨b, bs, hb⟩ := List.exists_cons_of_ne_nil f.encode_ne_nil
    have hcons : encodeFields (f :: fields) = b :: (bs ++ encodeFields fields) := by
      rw [encodeFields, List.flatMap_cons, hb]
      rfl
    have hread := readField_encode f (encodeFields fields)
    rw [hb, List.cons_append] at hread
    rw [hcons, readFields, hread, Option.bind_some, ih (Nat.le_of_succ_le_succ h)]
    rfl

/-! ## An array that ends within a field -/

theorem readVarint_more {bs rest : List UInt8} {n : Nat} (h : readVarint bs = some (n, rest))
    (more : List UInt8) : readVarint (bs ++ more) = some (n, rest ++ more) := by
  induction bs generalizing n rest with
  | nil => cases h
  | cons b bs ih =>
    simp only [readVarint, List.cons_append] at h ⊢
    split at h
    · next hlast =>
      cases h
      rw [if_pos hlast]
    · next hmore =>
      obtain ⟨r, hr, heq⟩ := Option.map_eq_some_iff.1 h
      cases heq
      rw [if_neg hmore, ih hr]
      rfl

theorem readField_more {bs rest : List UInt8} {f : Field} (h : readField bs = some (f, rest))
    (more : List UInt8) : readField (bs ++ more) = some (f, rest ++ more) := by
  unfold readField at h
  split at h
  · cases h
    rfl
  · next tail =>
    obtain ⟨r, hr, hcontent⟩ := Option.bind_eq_some_iff.1 h
    split at hcontent
    · next hlen =>
      cases hcontent
      have hread : readField (0x12 :: tail ++ more) = (readVarint (tail ++ more)).bind fun r =>
          if r.1 ≤ r.2.length then some (.content (r.2.take r.1), r.2.drop r.1) else none := rfl
      have hmore : r.1 ≤ (r.2 ++ more).length := by
        rw [List.length_append]
        omega
      rw [hread, readVarint_more hr, Option.bind_some, if_pos hmore,
        List.take_append_of_le_length hlen, List.drop_append_of_le_length hlen]
    · cases hcontent
  · cases h

/-- A field that is cut off is not read. -/
theorem readField_cut {f : Field} {cut more : List UInt8} (h : cut ++ more = f.encode)
    (hmore : more ≠ []) : readField cut = none := by
  cases hread : readField cut with
  | none => rfl
  | some r =>
    have hwhole := readField_encode f []
    rw [List.append_nil, ← h, readField_more hread more, Option.some.injEq, Prod.mk.injEq] at hwhole
    exact absurd (List.append_eq_nil_iff.1 hwhole.2).2 hmore

theorem readFields_cut {fields : List Field} {f : Field} {cut more : List UInt8} (hcut : cut ≠ [])
    (h : cut ++ more = f.encode) (hmore : more ≠ []) (fuel : Nat) :
    readFields fuel (encodeFields fields ++ cut) = none := by
  induction fields generalizing fuel with
  | nil =>
    obtain ⟨b, bs, rfl⟩ := List.exists_cons_of_ne_nil hcut
    cases fuel with
    | zero => rfl
    | succ fuel =>
      rw [encodeFields, List.flatMap_nil, List.nil_append, readFields, readField_cut h hmore]
      rfl
  | cons g fields ih =>
    obtain ⟨b, bs, hb⟩ := List.exists_cons_of_ne_nil g.encode_ne_nil
    have hread := readField_encode g (encodeFields fields ++ cut)
    have hcons : encodeFields (g :: fields) ++ cut = b :: (bs ++ (encodeFields fields ++ cut)) := by
      rw [encodeFields, List.flatMap_cons, hb, List.append_assoc]
      rfl
    rw [hb, List.cons_append] at hread
    cases fuel with
    | zero =>
      rw [hcons]
      rfl
    | succ fuel =>
      rw [hcons, readFields, hread, Option.bind_some, ih]
      rfl

theorem length_le_encodeFields (fields : List Field) :
    fields.length ≤ (encodeFields fields).length := by
  induction fields with
  | nil => exact Nat.zero_le _
  | cons f fields ih =>
    have hpos := List.length_pos_of_ne_nil f.encode_ne_nil
    rw [encodeFields, List.flatMap_cons, List.length_append, List.length_cons]
    unfold encodeFields at ih
    omega

/-- Generated code that knows the two fields of the message only. -/
def Protobuf.wire : Protobuf where
  serializeToArray m := if m.wire.length < 0x80000000 then some m.wire else none
  parseFromArray array size :=
    if size = array.length then (readFields array.length array).map Message.ofFields else none
  serialize_wire _ h := if_pos h
  parse_fields fields _ := by
    rw [if_pos rfl, readFields_encode (length_le_encodeFields fields)]
    rfl
  parse_cut fields cut more f hcut hmore h _ := by
    rw [if_pos rfl, readFields_cut hcut h hmore]
    rfl

end GameServer.Net
