import Mathlib.Logic.Function.Iterate
import Mathlib.Order.Monotone.Basic

/-!
# The calendar

Intervals that follow one another, each with its length, and the days of the Gregorian
calendar, which are counted from a Thursday, the first day of 1970.

Nothing here depends on a particular program.
-/

namespace BbbXinu

/-!
## Intervals
-/

namespace Intervals

variable {len : Nat → Nat} {i j r s : Nat}

/-- Where an interval begins. -/
def start (len : Nat → Nat) : Nat → Nat
  | 0 => 0
  | i + 1 => start len i + len i

/-- Intervals of the same lengths begin at the same places. -/
theorem start_congr {len' : Nat → Nat} {n : Nat} (h : ∀ k < n, len k = len' k) :
    start len n = start len' n := by
  induction n with
  | zero => rfl
  | succ n ih =>
      unfold start
      rw [ih fun k hk => h k (Nat.lt_succ_of_lt hk), h n (Nat.lt_succ_self n)]

theorem start_succ_left (len : Nat → Nat) (i : Nat) :
    start len (i + 1) = len 0 + start (fun k => len (k + 1)) i := by
  induction i with
  | zero => exact Nat.add_comm 0 (len 0)
  | succ i ih =>
      rw [start, ih, Nat.add_assoc]
      rfl

/-- A place lies in an interval, behind its beginning. -/
structure Lies (len : Nat → Nat) (place i rest : Nat) : Prop where
  place : start len i + rest = place
  rest_lt : rest < len i

section Lies

variable {place rest u n : Nat}

theorem Lies.first (h : place < len 0) : Lies len place 0 place := ⟨Nat.zero_add place, h⟩

/-- When the first interval is taken off, the place is in an interval before. -/
theorem Lies.later (hle : len 0 ≤ place) (h : Lies (fun k => len (k + 1)) (place - len 0) i rest) :
    Lies len place (i + 1) rest where
  place := by
    have hplace := h.place
    rw [start_succ_left]
    omega
  rest_lt := h.rest_lt

theorem Lies.congr {len' : Nat → Nat} (hlen : ∀ j ≤ i, len j = len' j)
    (h : Lies len place i rest) : Lies len' place i rest where
  place := start_congr (fun j hj => hlen j (Nat.le_of_lt hj)) ▸ h.place
  rest_lt := hlen i (le_refl i) ▸ h.rest_lt

end Lies

end Intervals

/-!
## Dates
-/

namespace Gregorian

open Intervals

def IsLeap (year : Nat) : Prop := year % 4 = 0 ∧ (year % 100 ≠ 0 ∨ year % 400 = 0)

instance (year : Nat) : Decidable (IsLeap year) := inferInstanceAs (Decidable (_ ∧ _))

def yearLength (year : Nat) : Nat := if IsLeap year then 366 else 365

/-- The months are counted from 0. -/
def monthLength (year month : Nat) : Nat :=
  if month = 1 ∧ IsLeap year then 29
  else [31, 28, 31, 30, 31, 30, 31, 31, 30, 31, 30, 31].getD month 0

structure Date where
  year : Nat
  month : Nat
  day : Nat
  deriving DecidableEq, Repr

/-- The day after a day. -/
def Date.next (d : Date) : Date :=
  if d.day < monthLength d.year d.month then { d with day := d.day + 1 }
  else if d.month < 11 then { d with month := d.month + 1, day := 1 }
  else { year := d.year + 1, month := 0, day := 1 }

/-- The date of a day. -/
def dateOf (n : Nat) : Date := Date.next^[n] { year := 1970, month := 0, day := 1 }

/-- The day of the week, with 0 for Sunday. -/
def weekdayOf (n : Nat) : Nat := (n + 4) % 7

/-- A day of a month from 1970 on. -/
structure Date.Valid (d : Date) : Prop where
  year : 1970 ≤ d.year
  month : d.month < 12
  day_pos : 1 ≤ d.day
  day_le : d.day ≤ monthLength d.year d.month

/-- The number of a day in its year. -/
def Date.dayOfYear (d : Date) : Nat := start (monthLength d.year) d.month + (d.day - 1)

/-- The number of a day. -/
def Date.number (d : Date) : Nat :=
  start (fun k => yearLength (1970 + k)) (d.year - 1970) + d.dayOfYear

theorem start_months (year : Nat) : start (monthLength year) 12 = yearLength year := by
  unfold yearLength
  by_cases hleap : IsLeap year
  · simp [start, monthLength, hleap]
  · simp [start, monthLength, hleap]

theorem monthLength_pos (year month : Nat) (h : month < 12) : 1 ≤ monthLength year month := by
  have htable : ∀ m < 12, 1 ≤ [31, 28, 31, 30, 31, 30, 31, 31, 30, 31, 30, 31].getD m 0 := by decide
  unfold monthLength
  split
  · decide
  · exact htable month h

theorem monthLength_le (year month : Nat) (h : month < 12) : monthLength year month ≤ 31 := by
  have htable : ∀ m < 12, [31, 28, 31, 30, 31, 30, 31, 31, 30, 31, 30, 31].getD m 0 ≤ 31 := by decide
  unfold monthLength
  split
  · decide
  · exact htable month h

variable {d d' : Date}

/-- The day after has the next number. -/
theorem Date.Valid.next (h : d.Valid) : d.next.Valid ∧ d.next.number = d.number + 1 := by
  have hyear := h.year
  have hmonth := h.month
  have hpos := h.day_pos
  have hle := h.day_le
  unfold Date.next
  by_cases hday : d.day < monthLength d.year d.month
  · rw [if_pos hday]
    refine ⟨⟨hyear, hmonth, Nat.le_add_left 1 d.day, hday⟩, ?_⟩
    unfold Date.number Date.dayOfYear
    dsimp only
    omega
  · rw [if_neg hday]
    by_cases hlast : d.month < 11
    · rw [if_pos hlast]
      have hmonth' : d.month + 1 < 12 := Nat.succ_lt_succ hlast
      refine ⟨⟨hyear, hmonth', le_refl 1, monthLength_pos _ _ hmonth'⟩, ?_⟩
      unfold Date.number Date.dayOfYear
      have hstart : start (monthLength d.year) (d.month + 1) =
          start (monthLength d.year) d.month + monthLength d.year d.month := rfl
      dsimp only
      rw [hstart]
      omega
    · rw [if_neg hlast]
      refine ⟨⟨Nat.le_succ_of_le hyear, Nat.succ_pos 11, le_refl 1,
        monthLength_pos _ _ (Nat.succ_pos 11)⟩, ?_⟩
      have helev : d.month = 11 := by omega
      have hyears : start (fun k => yearLength (1970 + k)) (d.year + 1 - 1970) =
          start (fun k => yearLength (1970 + k)) (d.year - 1970) + yearLength d.year := by
        have hsucc : d.year + 1 - 1970 = d.year - 1970 + 1 := by omega
        have hsame : 1970 + (d.year - 1970) = d.year := by omega
        rw [hsucc, start, hsame]
      have hmonths : start (monthLength d.year) 11 + monthLength d.year 11 = yearLength d.year :=
        start_months d.year
      unfold Date.number Date.dayOfYear
      dsimp only
      rw [hyears, helev]
      rw [helev] at hle hday
      change _ + (0 + (1 - 1)) = _
      omega

end Gregorian

end BbbXinu
