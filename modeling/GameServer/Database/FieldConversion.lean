import GameServer.Database.Field

/-!
# What the getters make of integer columns

`CheckType<T>` casts the stored value to `T` and compares it with what it was. Where the comparison
converts a negative operand to an unsigned type, a value that `T` does not have compares equal to
its cast, and the getter hands out another number without reporting it (`converts_iff`).

A text and a binary field with one value are read alike, but only the text one is read without an
access to memory where the value is NULL (`protocols_agree_iff`).
-/

namespace GameServer.Database

open GameServer.Lib GameServer.Http

/-- How a value arrives: as text, perhaps with leading zeros, or as its object representation. -/
inductive FieldForm where
  | text (zeros : Fin 256) (rest : Bytes)
  | binary (length : Nat) (rest : Bytes)
  deriving DecidableEq, Repr

def FieldForm.field (form : FieldForm) {s : IntType} (v : Option s.Value) : Field :=
  match form with
  | text zeros rest => .ofText s v zeros rest
  | binary length rest => .ofBinary s v length rest

/-- The integer type `t` is offered exactly the values it has, and no other value is handed out. -/
structure Converts (floating : FloatingCheck) {s : IntType} (t : IntType) (v : s.Value)
    (f : Field) : Prop where
  represented : t.InRange v.val → f.checkType floating t = .ok (true, v.val)
  refused : ¬t.InRange v.val → f.checkType floating t = .ok (false, 0)
  handedOut : ∀ result, f.get floating t = .ok result → result = v.val

/-- One result, which both fields give without an access to memory that is not theirs. -/
def Agree (floating : FloatingCheck) (t : IntType) (f g : Field) : Prop :=
  ∃ result, f.checkType floating t = .ok result ∧ g.checkType floating t = .ok result

variable {floating : FloatingCheck} {s t : IntType}

namespace Field

theorem castTo_of_inRange {v : s.Value} (h : t.InRange v.val) :
    castTo t s v.val = (true, v.val) := by
  have hequal : t.equal (t.wrap v.val) s v.val = true :=
    (IntType.equal_wrap_iff v.inRange).2 (.inl h)
  rw [IntType.wrap_eq_self_iff.2 h] at hequal
  simp [castTo, hequal, IntType.wrap_eq_self_iff.2 h]

theorem castTo_of_not_inRange {v : s.Value} (h : ¬t.InRange v.val)
    (hread : ¬IntType.Misread s t v.val) : castTo t s v.val = (false, 0) := by
  have hequal : t.equal (t.wrap v.val) s v.val ≠ true := by
    intro heq
    rcases (IntType.equal_wrap_iff v.inRange).1 heq with hrange | hmisread
    · exact h hrange
    · exact hread hmisread
  simp [castTo, hequal]

/-- A misread value passes the check as another one. -/
theorem castTo_of_misread {v : s.Value} (h : IntType.Misread s t v.val) :
    castTo t s v.val = (true, t.wrap v.val) := by
  have hequal : t.equal (t.wrap v.val) s v.val = true :=
    (IntType.equal_wrap_iff v.inRange).2 (.inr h)
  simp [castTo, hequal]

/-- Both forms of a value are read as the value. -/
theorem checkType_field (form : FieldForm) (v : s.Value) :
    (form.field (some v)).checkType floating t = .ok (castTo t s v.val) := by
  cases form with
  | text zeros rest =>
    have hsource := source_ofText zeros rest v
    simp only [FieldForm.field, ofText] at hsource ⊢
    rw [checkType_filled, hsource]
    rfl
  | binary length rest =>
    have hsource := source_ofBinary length rest v
    simp only [FieldForm.field, ofBinary] at hsource ⊢
    rw [checkType_filled, hsource]
    rfl

/-- NULL as text counts as zero, which every type has. -/
theorem checkType_text_null (zeros : Fin 256) (rest : Bytes) :
    (ofText s none zeros rest).checkType floating t = .ok (true, 0) := by
  have hsource := source_ofText_none (s := s) zeros rest
  have hzero : ∀ t : IntType, t.InRange 0 := by
    intro t
    cases t <;> decide
  simp only [ofText] at hsource ⊢
  rw [checkType_filled, hsource]
  exact congrArg Except.ok (castTo_of_inRange (v := ⟨0, hzero s⟩) (hzero t))

/-- NULL in binary form is an object at the null pointer. -/
theorem checkType_binary_null (length : Nat) (rest : Bytes) :
    (ofBinary s none length rest).checkType floating t = .error .fault := by
  have hsource := source_ofBinary_none (s := s) length rest
  simp only [ofBinary] at hsource ⊢
  rw [checkType_filled, hsource]
  rfl

end Field

/-- **`CheckType` tells a value that `T` does not have**, for every column type, `T` and value,
exactly if the comparison does not convert a negative operand to an unsigned type. -/
theorem converts_iff (floating : FloatingCheck) (s t : IntType) (v : s.Value) (form : FieldForm) :
    Converts floating t v (form.field (some v)) ↔ ¬IntType.Misread s t v.val := by
  have hcheck : (form.field (some v)).checkType floating t = .ok (Field.castTo t s v.val) :=
    Field.checkType_field form v
  constructor
  · intro h hmisread
    have hrefused := h.refused hmisread.not_inRange
    rw [hcheck, Field.castTo_of_misread hmisread] at hrefused
    cases hrefused
  · intro hread
    refine ⟨?_, ?_, ?_⟩
    · intro hrange
      rw [hcheck, Field.castTo_of_inRange hrange]
    · intro hrange
      rw [hcheck, Field.castTo_of_not_inRange hrange hread]
    · intro result hget
      by_cases hrange : t.InRange v.val
      · rw [Field.get, hcheck, Field.castTo_of_inRange hrange] at hget
        exact (Except.ok.inj hget).symm
      · rw [Field.get, hcheck, Field.castTo_of_not_inRange hrange hread] at hget
        cases hget

/-- The value `-1` of an `INT` column is handed out as 4294967295. -/
theorem negative_handed_out : ¬∀ (floating : FloatingCheck) (s t : IntType) (v : s.Value)
    (form : FieldForm), Converts floating t v (form.field (some v)) := by
  intro h
  have hrefused := (h (fun _ _ _ _ => .ok (true, 0)) .int32 .uint32 ⟨-1, by decide⟩
    (.text 0 [0])).refused (by decide)
  rw [Field.checkType_field] at hrefused
  revert hrefused
  decide

/-! ## The two protocols -/

/-- **The protocols agree** on every value of every integer column and on no absent one. -/
theorem protocols_agree_iff (floating : FloatingCheck) (s t : IntType) (v : Option s.Value)
    (zeros : Fin 256) (textRest : Bytes) (length : Nat) (binaryRest : Bytes) :
    Agree floating t (.ofText s v zeros textRest) (.ofBinary s v length binaryRest) ↔
      v ≠ none := by
  cases v with
  | none =>
    refine iff_of_false ?_ (fun h => h rfl)
    rintro ⟨result, -, hbinary⟩
    rw [Field.checkType_binary_null] at hbinary
    cases hbinary
  | some v =>
    refine iff_of_true ⟨Field.castTo t s v.val, ?_, ?_⟩ nofun
    · exact Field.checkType_field (.text zeros textRest) v
    · exact Field.checkType_field (.binary length binaryRest) v

/-- NULL in a `TINYINT` column: as text it counts as zero. -/
theorem null_dereferenced : ¬∀ (floating : FloatingCheck) (s t : IntType) (v : Option s.Value)
    (zeros : Fin 256) (textRest : Bytes) (length : Nat) (binaryRest : Bytes),
    Agree floating t (.ofText s v zeros textRest) (.ofBinary s v length binaryRest) := by
  intro h
  obtain ⟨result, -, hbinary⟩ := h (fun _ _ _ _ => .ok (true, 0)) .uint8 .uint8 none 0 [] 0 []
  cases hbinary

end GameServer.Database
