import BbbXinu.Stdio.Doprnt

/-!
# The date as a text

{lit}`ascdate.c`.  A time is the number of seconds since 1970, and the values of the fields
are small enough for their types.  The names of months and of days lie one behind the other
in {lit}`Date`, and then come the names of time zones; the address of a name is its place.
-/

namespace BbbXinu

open Stdio

def SECPERDY : Nat := 86400
def DATE_DST_ON : Int := 1
def DATE_DST_AUTO : Int := 2

/-- {lit}`Date.dt_msize`. -/
def dtMsize (month : Nat) : Nat := [31, 28, 31, 30, 31, 30, 31, 31, 30, 31, 30, 31].getD month 0

/-- {lit}`Date.dt_mnam`, {lit}`Date.dt_dnam`, {lit}`zones` and {lit}`dzones`. -/
def dateNames : List (List Char) :=
  [['J', 'a', 'n'], ['F', 'e', 'b'], ['M', 'a', 'r'], ['A', 'p', 'r'], ['M', 'a', 'y'],
    ['J', 'u', 'n'], ['J', 'u', 'l'], ['A', 'u', 'g'], ['S', 'e', 'p'], ['O', 'c', 't'],
    ['N', 'o', 'v'], ['D', 'e', 'c'],
    ['S', 'u', 'n'], ['M', 'o', 'n'], ['T', 'u', 'e'], ['W', 'e', 'd'], ['T', 'h', 'u'],
    ['F', 'r', 'i'], ['S', 'a', 't'],
    ['E', 'S', 'T'], ['E', 'D', 'T']]

/-- The name at an address. -/
def dateNameAt (addr : UInt32) : List Char := dateNames.getD (addr.toNat - 1) []

def mnamAddr (month : Nat) : Nat := month + 1
def dnamAddr (dayofweek : Nat) : Nat := 12 + dayofweek + 1

/-- The address of a zone's name, for {lit}`TIMEZONE` as configured. -/
def zoneAddr (dst : Bool) : Nat := if dst then 21 else 20

def isleap (x : Nat) : Prop := x % 4 = 0

instance (x : Nat) : Decidable (isleap x) := inferInstanceAs (Decidable (_ = _))

/-- The variables of {lit}`ascdate`. -/
structure DateVars where
  year : Nat
  month : Nat
  day : Nat
  hour : Nat
  minute : Nat
  second : Nat
  jan1 : Nat
  dayofweek : Nat
  deriving DecidableEq, Repr

namespace DateVars

variable (t : DateVars)

/-- The day of the second Sunday in March. -/
def marss : Nat :=
  let mar1 := (t.jan1 + dtMsize 0 + dtMsize 1 + if isleap t.year then 1 else 0) % 7
  if mar1 = 0 then 8 else 15 - mar1

/-- The day of the first Sunday in November. -/
def novfs : Nat :=
  let nov1 := (List.range 10).foldl (fun nov1 i => nov1 + dtMsize i) t.jan1
  let nov1 := if isleap t.year then nov1 + 1 else nov1
  let nov1 := nov1 % 7
  if nov1 = 0 then 1 else 8 - nov1

/-- The automatic calculation. -/
def automatic : Bool :=
  if t.month = 11 ∨ t.month = 0 ∨ t.month = 1 then false
  else if 2 < t.month ∧ t.month < 10 then true
  else if t.month = 2 then
    if t.marss < t.day then true
    else if t.day = t.marss ∧ 2 ≤ t.hour then true
    else false
  else if t.month = 10 then
    if t.novfs < t.day then false
    else if t.day = t.novfs ∧ 1 ≤ t.hour then false
    else true
  else false

/-- Should we adjust for daylight savings time? -/
def dst (daylight : Int) : Bool :=
  if daylight = DATE_DST_ON then true
  else if daylight = DATE_DST_AUTO then t.automatic
  else false

/-- Move ahead one hour, and to the next day or month. -/
def advance : DateVars :=
  if 23 < t.hour + 1 then
    if dtMsize t.month < t.day + 1 then { t with hour := 0, day := 1, month := t.month + 1 }
    else { t with hour := 0, day := t.day + 1 }
  else { t with hour := t.hour + 1 }

end DateVars

/-- The arguments of {lit}`sprintf`. -/
def DateVars.args (t : DateVars) (dst : Bool) : VaList := fun n =>
  UInt32.ofNat ([dnamAddr t.dayofweek, mnamAddr t.month, t.day, t.hour, t.minute, t.second,
    zoneAddr dst, t.year].getD n 0)

end BbbXinu
