import BbbXinu.Lib.Hops
import BbbXinu.Shell.Command

/-!
# Reading from a terminal

{lit}`ttyread` with {lit}`ttychkspecial`.  What is echoed is left out, and the results of
{lit}`ttygetc` are given, each with the state of the shell at that time.  The static
variables keep their values from one call to the next.
-/

namespace BbbXinu
namespace Tty

def TY_ESC : UInt8 := 23
def TY_ARROW : UInt8 := 91
def TY_UP : UInt8 := 65
def TY_DOWN : UInt8 := 66

/-- {lit}`TY_IMRAW`, {lit}`TY_IMCOOKED` and {lit}`TY_IMCBREAK`. -/
inductive InputMode where
  | raw | cooked | cbreak
  deriving DecidableEq, Repr

/-- A result of {lit}`ttygetc`, {lit}`shellpid`, and the state of that process. -/
structure Arrival where
  result : Int
  shellpid : Int
  prstate : PrState

/-- The cast to a character. -/
def Arrival.ch (a : Arrival) : UInt8 := UInt8.ofNat (a.result % 256).toNat

/-- The static variables of {lit}`ttychkspecial`. -/
structure Special where
  chesc : Bool
  arrow : Bool
  deriving DecidableEq, Repr

/-- The result is 0, 1 for the up arrow, or -1 for the down arrow, as a {lit}`uint8`. -/
def ttychkspecial (v : Special) (ch : UInt8) (shellpid : Int) (prstate : PrState) :
    UInt8 × Special :=
  if ch = TY_ESC then (0, { chesc := true, arrow := false })
  else if ch = TY_ARROW then (0, { v with arrow := v.chesc })
  else if ch = TY_UP then
    if (v.arrow ∧ v.chesc) ∧ shellpid ≠ 0 ∧ prstate = .wait then
      (1, { chesc := false, arrow := false })
    else (0, v)
  else if ch = TY_DOWN then
    if (v.arrow ∧ v.chesc) ∧ shellpid ≠ 0 ∧ prstate = .wait then
      (255, { chesc := false, arrow := false })
    else (0, v)
  else (0, { chesc := false, arrow := false })

def strlenLoop (mem : Memory) : Nat → Nat → Nat
  | 0, _ => 0
  | fuel + 1, str => if mem str = 0 then 0 else strlenLoop mem fuel (str + 1) + 1

/-- A string ends with the memory at the latest. -/
def strlen (mem : Memory) (str : Nat) : Nat := strlenLoop mem (4294967296 - str) str

/-- The variables of {lit}`ttyread`, the memory, and how many characters were taken.  The
last field records the addresses at which one was stored, newest first. -/
structure Reader where
  mem : Memory
  buff : Nat
  nread : Int
  ch : UInt8
  special : Special
  tmpcmd : Nat
  taken : Nat
  stores : List Nat

namespace Reader

variable (node : Nat → Strlist) (input : Nat → Arrival)

/-- {lit}`*buff++ = ch` for the next character. -/
def store (t : Reader) : Reader :=
  { t with
    mem := upd t.mem t.buff (input t.taken).ch
    buff := t.buff + 1
    nread := t.nread + 1
    ch := (input t.taken).ch
    taken := t.taken + 1
    stores := t.buff :: t.stores }

/-- The loop that erases the characters.  It counts below zero. -/
def erase (t : Reader) : Reader := { t with buff := t.buff - t.nread.toNat, nread := -1 }

/-- The part for an arrow key. -/
def arrowKey (chkarrow : UInt8) (t : Reader) : Reader :=
  let t := t.erase
  let t :=
    if (chkarrow.toNat : Int) = -1 ∧ (node t.tmpcmd).next ≠ NULL then
      { t with
        tmpcmd := (node t.tmpcmd).next
        buff := (node (node t.tmpcmd).next).str
        nread := strlen t.mem (node (node t.tmpcmd).next).str }
    else t
  if chkarrow = 1 ∧ (node t.tmpcmd).prev ≠ NULL then
    { t with
      buff := (node t.tmpcmd).str
      nread := strlen t.mem (node t.tmpcmd).str
      tmpcmd := (node t.tmpcmd).prev }
  else t

/-- The result of {lit}`ttychkspecial` for the next character. -/
def check (t : Reader) : UInt8 × Special :=
  ttychkspecial t.special (input t.taken).ch (input t.taken).shellpid (input t.taken).prstate

/-- The body of the loop. -/
def turn (t : Reader) : Reader :=
  let r := t.check input
  let t := { t.store input with special := r.2 }
  if r.1 ≠ 0 ∧ t.tmpcmd ≠ NULL ∧ (node t.tmpcmd).str ≠ NULL then t.arrowKey node r.1 else t

/-- The test of the loop. -/
def Again (count : Int) (t : Reader) : Prop :=
  t.nread < count ∧ t.ch ≠ TY_NEWLINE ∧ t.ch ≠ TY_RETURN

instance (count : Int) : DecidablePred (Again count) := fun _ =>
  inferInstanceAs (Decidable (_ ∧ _))

end Reader

/-- What a call finds: the history, the input that is going to come, the mode and the
number of characters available, and the static variables. -/
structure Terminal where
  node : Nat → Strlist
  cmdhistory : Nat
  input : Nat → Arrival
  tyimode : InputMode
  avail : Int
  special : Special
  tmpcmd : Nat

/-- The variables when the call begins. -/
def Terminal.enter (y : Terminal) (mem : Memory) (buff : Nat) : Reader where
  mem := mem
  buff := buff
  nread := 0
  ch := 0
  special := y.special
  tmpcmd := if y.tmpcmd = NULL then y.cmdhistory else y.tmpcmd
  taken := 0
  stores := []

/-- The first character of a line.  The result of the check is not used. -/
def Terminal.first (y : Terminal) (mem : Memory) (buff : Nat) : Reader :=
  let t := y.enter mem buff
  { t.store y.input with special := (t.check y.input).2 }

/-- A call that takes at most the given number of characters after the first one. -/
def ttyread (y : Terminal) (mem : Memory) (buff : Nat) (count : Int) (fuel : Nat) :
    Option (Int × Reader) :=
  let t := y.enter mem buff
  if count < 0 then some (SYSERR, t)
  else if y.tyimode ≠ .cooked then
    if count = 0 ∧ y.avail = 0 then some (0, t)
    else
      let count := if count = 0 then y.avail else count
      (Hops.loop (fun t => t.nread < count) (fun t => t.store y.input) fuel t).map fun t =>
        (t.nread, t)
  else if (y.input 0).result = EOF then some (EOF, { t with taken := 1 })
  else
    (Hops.loop (Reader.Again count) (Reader.turn y.node y.input) fuel (y.first mem buff)).map
      fun t => (t.nread, t)

end Tty
end BbbXinu
