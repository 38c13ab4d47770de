import GameServer.Http.HttpCommon

/-!
# `Util::TimeUtil::GetGmtTimeStr`

The text that `std::format` makes of a point in time for `%a, %d %b %Y %H:%M:%OS GMT`, in the
classic locale. `%OS` prints whole seconds.
-/

namespace GameServer.Util

open GameServer.Http

/-- A point in time, as the fields of the format. -/
structure GmtTime where
  weekday : Fin 7
  /-- From zero. -/
  day : Fin 31
  month : Fin 12
  year : Int
  hour : Fin 24
  minute : Fin 60
  second : Fin 60
  deriving DecidableEq, Repr

def weekdayNames : List Bytes :=
  [bytes "Sun", bytes "Mon", bytes "Tue", bytes "Wed", bytes "Thu", bytes "Fri", bytes "Sat"]

def monthNames : List Bytes :=
  [bytes "Jan", bytes "Feb", bytes "Mar", bytes "Apr", bytes "May", bytes "Jun", bytes "Jul",
    bytes "Aug", bytes "Sep", bytes "Oct", bytes "Nov", bytes "Dec"]

/-- A number of at least so many digits. -/
def padded (width n : Nat) : Bytes :=
  List.replicate (width - (decimal n).length) 0x30 ++ decimal n

def yearText (year : Int) : Bytes :=
  (if year < 0 then bytes "-" else []) ++ padded 4 year.natAbs

def getGmtTimeStr (t : GmtTime) : Bytes :=
  weekdayNames.getD t.weekday [] ++ bytes ", " ++ padded 2 (t.day + 1) ++ bytes " " ++
    monthNames.getD t.month [] ++ bytes " " ++ yearText t.year ++ bytes " " ++
    padded 2 t.hour ++ bytes ":" ++ padded 2 t.minute ++ bytes ":" ++ padded 2 t.second ++
    bytes " GMT"

example : getGmtTimeStr ⟨3, 24, 9, 2023, 16, 34, 7⟩ = bytes "Wed, 25 Oct 2023 16:34:07 GMT" := by
  decide +kernel

theorem printable_padded (width n : Nat) : Printable (padded width n) := by
  refine Printable.append ?_ (printable_decimal n)
  intro c hc
  rw [List.eq_of_mem_replicate hc]
  decide

theorem printable_yearText (year : Int) : Printable (yearText year) := by
  refine Printable.append ?_ (printable_padded 4 _)
  split <;> decide +kernel

theorem printable_getGmtTimeStr (t : GmtTime) : Printable (getGmtTimeStr t) := by
  have hweekday : ∀ d : Fin 7, Printable (weekdayNames.getD d []) := by decide +kernel
  have hmonth : ∀ m : Fin 12, Printable (monthNames.getD m []) := by decide +kernel
  have hsep : Printable (bytes ", ") ∧ Printable (bytes " ") ∧ Printable (bytes ":") ∧
      Printable (bytes " GMT") := by decide +kernel
  obtain ⟨hcomma, hspace, hcolon, hzone⟩ := hsep
  have hdate : Printable (weekdayNames.getD t.weekday [] ++ bytes ", " ++ padded 2 (t.day + 1) ++
      bytes " " ++ monthNames.getD t.month [] ++ bytes " " ++ yearText t.year ++ bytes " ") :=
    ((((((((hweekday _).append hcomma).append (printable_padded _ _)).append hspace).append
      (hmonth _)).append hspace).append (printable_yearText _)).append hspace)
  exact (((((hdate.append (printable_padded _ _)).append hcolon).append
    (printable_padded _ _)).append hcolon).append (printable_padded _ _)).append hzone

end GameServer.Util
