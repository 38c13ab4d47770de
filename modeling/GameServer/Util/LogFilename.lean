import GameServer.Util.StringTo
import GameServer.Util.TimeUtil

/-!
# Names of log files

`calc_filename` of `HtmlFormatSink` reads the clock and names a file after the second it reads and
an index: `name2023_10_25_16_34_07.0.html`. Two names are the same only if the second and the index
are (`calcFilename_inj`).
-/

namespace GameServer.Util

open GameServer.Http

/-- A reading of the wall clock, as the fields of `std::tm`. -/
structure LocalTime where
  year : Nat
  /-- Month and day count from zero. -/
  month : Fin 12
  day : Fin 31
  hour : Fin 24
  minute : Fin 60
  /-- With a leap second. -/
  second : Fin 61
  deriving DecidableEq, Repr

namespace LocalTime

/-- The position of the reading in the order of time. -/
def count (t : LocalTime) : Nat :=
  ((((t.year * 12 + t.month) * 31 + t.day) * 24 + t.hour) * 60 + t.minute) * 61 + t.second

theorem count_inj {t u : LocalTime} (h : t.count = u.count) : t = u := by
  obtain ⟨year, month, day, hour, minute, second⟩ := t
  obtain ⟨year', month', day', hour', minute', second'⟩ := u
  simp only [count] at h
  obtain ⟨rfl, hmonth, hday, hhour, hminute, hsecond⟩ :
      year = year' ∧ (month : Nat) = month' ∧ (day : Nat) = day' ∧ (hour : Nat) = hour' ∧
        (minute : Nat) = minute' ∧ (second : Nat) = second' := by omega
  rw [Fin.ext hmonth, Fin.ext hday, Fin.ext hhour, Fin.ext hminute, Fin.ext hsecond]

end LocalTime

/-- The numbers of `%Y_%m_%d_%H_%M_%S`. -/
def timeFields (t : LocalTime) : List Bytes :=
  [decimal t.year, padded 2 (t.month + 1), padded 2 (t.day + 1), padded 2 t.hour,
    padded 2 t.minute, padded 2 t.second]

def strftime (t : LocalTime) : Bytes := [0x5f].intercalate (timeFields t)

/-- The base name and the extension of the log files. -/
structure LogName where
  basename : Bytes
  ext : Bytes
  deriving DecidableEq, Repr

/-- `calc_filename` at the reading `t`. -/
def LogName.calcFilename (name : LogName) (t : LocalTime) (index : Nat) : Bytes :=
  name.basename ++ ([0x2e].intercalate [strftime t, decimal index] ++ name.ext)

/-! ## Different names -/

theorem decimal_inj {m n : Nat} (h : decimal m = decimal n) : m = n := by
  have hread := fromDigits_decimal m
  rw [h, fromDigits_decimal] at hread
  exact (Option.some.inj hread).symm

theorem padded_inj {width m n : Nat} (h : padded width m = padded width n) : m = n := by
  have hread : fromDigits 0 (padded width m) = some m := by
    rw [padded, fromDigits_zeros, fromDigits_decimal]
  rw [h, padded, fromDigits_zeros, fromDigits_decimal] at hread
  exact (Option.some.inj hread).symm

/-- A number has neither `_` nor `.` in it. -/
theorem mem_padded {width n : Nat} {c : UInt8} (h : c ∈ padded width n) :
    0x30 ≤ c ∧ c ≤ 0x39 := by
  rcases List.mem_append.1 h with h | h
  · rw [List.eq_of_mem_replicate h]
    decide
  · exact mem_decimal h

theorem mem_timeFields {t : LocalTime} {field : Bytes} (h : field ∈ timeFields t) {c : UInt8}
    (hc : c ∈ field) : 0x30 ≤ c ∧ c ≤ 0x39 := by
  simp only [timeFields, List.mem_cons, List.not_mem_nil, or_false] at h
  rcases h with rfl | rfl | rfl | rfl | rfl | rfl
  · exact mem_decimal hc
  all_goals exact mem_padded hc

theorem timeFields_inj {t u : LocalTime} (h : timeFields t = timeFields u) : t = u := by
  obtain ⟨year, month, day, hour, minute, second⟩ := t
  obtain ⟨year', month', day', hour', minute', second'⟩ := u
  simp only [timeFields, List.cons.injEq, and_true] at h
  obtain ⟨hyear, hmonth, hday, hhour, hminute, hsecond⟩ := h
  have hm := Nat.succ.inj (padded_inj hmonth)
  have hd := Nat.succ.inj (padded_inj hday)
  rw [decimal_inj hyear, Fin.ext hm, Fin.ext hd, Fin.ext (padded_inj hhour),
    Fin.ext (padded_inj hminute), Fin.ext (padded_inj hsecond)]

theorem strftime_inj {t u : LocalTime} (h : strftime t = strftime u) : t = u := by
  have hfields : ∀ t : LocalTime, (strftime t).splitOn 0x5f = timeFields t := by
    intro t
    refine List.splitOn_intercalate _ (fun field hfield hmem => ?_) (List.cons_ne_nil _ _)
    exact absurd (mem_timeFields hfield hmem).2 (by decide)
  refine timeFields_inj ?_
  rw [← hfields, h, hfields]

/-- There is no `.` in the time. -/
theorem dot_not_mem_strftime (t : LocalTime) : 0x2e ∉ strftime t := by
  intro hmem
  have hfield : ∀ field ∈ timeFields t, 0x2e ∉ field :=
    fun field hfield hdot => absurd (mem_timeFields hfield hdot).1 (by decide)
  simp only [timeFields, List.forall_mem_cons] at hfield
  simp [strftime, timeFields, List.intercalate, hfield] at hmem

/-- **A name tells its second and its index.** -/
theorem calcFilename_inj {name : LogName} {t u : LocalTime} {i j : Nat}
    (h : name.calcFilename t i = name.calcFilename u j) : t = u ∧ i = j := by
  have hparts : ∀ (t : LocalTime) (i : Nat),
      ([0x2e].intercalate [strftime t, decimal i]).splitOn 0x2e = [strftime t, decimal i] := by
    intro t i
    refine List.splitOn_intercalate _ (fun part hpart hmem => ?_) (List.cons_ne_nil _ _)
    simp only [List.mem_cons, List.not_mem_nil, or_false] at hpart
    rcases hpart with rfl | rfl
    · exact dot_not_mem_strftime t hmem
    · exact absurd (mem_decimal hmem).1 (by decide)
  have hmiddle := List.append_cancel_right (List.append_cancel_left h)
  have hsplit := hparts t i
  rw [hmiddle, hparts u j] at hsplit
  obtain ⟨htime, hindex⟩ := List.cons.inj hsplit
  exact ⟨(strftime_inj htime).symm, (decimal_inj (List.cons.inj hindex).1).symm⟩

@[simp] theorem calcFilename_eq_iff {name : LogName} {t u : LocalTime} {i j : Nat} :
    name.calcFilename t i = name.calcFilename u j ↔ t = u ∧ i = j := by
  constructor
  · exact calcFilename_inj
  · rintro ⟨rfl, rfl⟩
    rfl

end GameServer.Util
