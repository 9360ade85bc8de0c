import BbbXinu.Lib.Gregorian
import BbbXinu.Properties.DateText

/-!
# The date and the calendar

The loops of {lit}`ascdate` find the year and the month in which a time lies.  Up to 2099
every fourth year is a leap year.  The hour that is added for daylight savings time is
carried to the day and the month, but not to the day of the week.
-/

namespace BbbXinu

open Gregorian Intervals Stdio

variable {now year month : Nat}

/-!
## The loops
-/

/-- The fields before daylight savings time are those of the calendar. -/
structure DateVars.Civil (t : DateVars) (now : Nat) : Prop where
  date : dateOf (now / SECPERDY) = { year := t.year, month := t.month, day := t.day }
  valid : ({ year := t.year, month := t.month, day := t.day } : Date).Valid
  year_lt : t.year < 2100
  hour : t.hour = now / 3600 % 24
  minute : t.minute = now / 60 % 60
  second : t.second = now % 60
  dayofweek : t.dayofweek = weekdayOf (now / SECPERDY)

theorem DateVars.Civil.inRange {t : DateVars} (h : t.Civil now) : t.InRange := by
  have hday : t.day ≤ monthLength t.year t.month := h.valid.day_le
  have hlength := monthLength_le t.year t.month h.valid.month
  have hyear := h.year_lt
  have hhour := h.hour
  have hminute := h.minute
  have hsecond := h.second
  refine ⟨?_, Nat.le_of_lt h.valid.month, ?_, ?_, ?_, ?_, ?_⟩
  · rw [h.dayofweek]
    exact Nat.mod_lt _ (by decide)
  · omega
  · omega
  · omega
  · omega
  · omega

def weekdayName (d : Nat) : List Char :=
  [['S', 'u', 'n'], ['M', 'o', 'n'], ['T', 'u', 'e'], ['W', 'e', 'd'], ['T', 'h', 'u'],
    ['F', 'r', 'i'], ['S', 'a', 't']].getD d []

def monthName (m : Nat) : List Char :=
  [['J', 'a', 'n'], ['F', 'e', 'b'], ['M', 'a', 'r'], ['A', 'p', 'r'], ['M', 'a', 'y'],
    ['J', 'u', 'n'], ['J', 'u', 'l'], ['A', 'u', 'g'], ['S', 'e', 'p'], ['O', 'c', 't'],
    ['N', 'o', 'v'], ['D', 'e', 'c']].getD m []

/-- The date and the time of day, so many seconds after the beginning of 1970. -/
def civil (now : Nat) : PrintedDate where
  weekday := weekdayName (weekdayOf (now / SECPERDY))
  month := monthName (dateOf (now / SECPERDY)).month
  day := (dateOf (now / SECPERDY)).day
  hour := now / 3600 % 24
  minute := now / 60 % 60
  second := now % 60
  year := (dateOf (now / SECPERDY)).year

theorem dateNameAt_weekday :
    ∀ d < 7, dateNameAt (UInt32.ofNat (dnamAddr d)) = weekdayName d := by decide

theorem dateNameAt_month :
    ∀ m < 12, dateNameAt (UInt32.ofNat (mnamAddr m)) = monthName m := by decide

theorem DateVars.Civil.printed_eq {t : DateVars} (h : t.Civil now) : t.printed = civil now := by
  unfold DateVars.printed civil
  rw [dateNameAt_weekday _ h.inRange.dayofweek, dateNameAt_month _ h.valid.month, h.date,
    h.dayofweek, h.hour, h.minute, h.second]

variable {daylight : Int}

end BbbXinu
