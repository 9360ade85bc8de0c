import BbbXinu.Tty.Output

/-!
# Terminal input in cooked mode

{lit}`ttyhandle_in` and {lit}`ttygetc` as far as the input buffer is concerned; what goes
to the echo queue is left out.  Both run with interrupts disabled, so a reader is
interrupted only while it waits, and may then be held up for any time after it was
released.  Pointers into the buffer are indices, which may be negative or too large.
The characters with a meaning and the flags for them are those of {lit}`ttyinit` or any
others; nothing changes them.

The log is not part of the code.  It has the keystrokes, and the characters that readers
took from the buffer.
-/

namespace BbbXinu
namespace Tty

def TY_IBUFLEN : Nat := 128
def TY_CTRLC : UInt8 := 3
def TY_BELL : UInt8 := 7
def TY_BACKSP : UInt8 := 8
def TY_EOFCH : UInt8 := 4
def TY_STOPCH : UInt8 := 19
def TY_STRTCH : UInt8 := 17
def TY_KILLCH : UInt8 := 21
def EOF : Int := -2

/-- The fields of {lit}`struct ttycblk` that say which characters have a meaning. -/
structure Modes where
  tyicrlf : Bool
  tyierase : Bool
  tyierasec : UInt8
  tyeof : Bool
  tyeofch : UInt8
  tyikill : Bool
  tyikillc : UInt8
  tyoflow : Bool
  tyostop : UInt8
  tyostart : UInt8

/-- What {lit}`ttyinit` stores there. -/
def ttyinitModes : Modes where
  tyicrlf := true
  tyierase := true
  tyierasec := TY_BACKSP
  tyeof := true
  tyeofch := TY_EOFCH
  tyikill := true
  tyikillc := TY_KILLCH
  tyoflow := true
  tyostop := TY_STOPCH
  tyostart := TY_STRTCH

/-- A character that was typed, whether the test for room let it through, and the number of
characters in the buffer. -/
structure Keystroke where
  ch : UInt8
  accepted : Bool
  held : Int

/-- The part of {lit}`struct ttycblk` for input. -/
structure TtyIn where
  tyihead : Int
  tyitail : Int
  tyibuff : Int → UInt8
  tyisem : Turnstile Int
  tyicursor : Nat
  typed : List Keystroke
  got : List UInt8

inductive TtyInLabel where
  | type (ch : UInt8)
  | getc (pid : Int)
  | resume (pid : Int)

namespace TtyIn

/-- The characters available, where it counts none while a process waits. -/
def avail (t : TtyIn) : Int := if t.tyisem.queue.count < 0 then 0 else t.tyisem.queue.count

/-- A character is stored and the pointer moved on. -/
def store (t : TtyIn) (ch : UInt8) : TtyIn :=
  { t with tyibuff := upd t.tyibuff t.tyitail ch, tyitail := t.tyitail + 1 }

/-- The pointer wraps around. -/
def wrap (t : TtyIn) : TtyIn := if TY_IBUFLEN ≤ t.tyitail then { t with tyitail := 0 } else t

/-- Some characters are made available. -/
def signal (t : TtyIn) (n : Nat) : TtyIn := { t with tyisem := t.tyisem.signal n }

def killLine (t : TtyIn) : TtyIn :=
  let t := { t with tyitail := t.tyitail - t.tyicursor }
  let t := if t.tyitail < 0 then { t with tyihead := t.tyihead + TY_IBUFLEN } else t
  { t with tyicursor := 0 }

def erase1 (t : TtyIn) : TtyIn :=
  let t := { t with tyitail := t.tyitail - 1 }
  if t.tyitail < 0 then { t with tyitail := t.tyitail + TY_IBUFLEN } else t

/-- The test for room of an ordinary character or an end of file. -/
def noRoom (t : TtyIn) : Bool := decide ((TY_IBUFLEN : Int) - 1 ≤ t.avail + t.tyicursor)

/-- A return may stand for a newline. -/
def mapped (m : Modes) (ch : UInt8) : UInt8 :=
  if ch = TY_RETURN ∧ m.tyicrlf then TY_NEWLINE else ch

/-- The part of {lit}`ttyhandle_in` for cooked mode only. -/
def cookedIn (m : Modes) (t : TtyIn) (ch : UInt8) : TtyIn :=
  if ch = m.tyikillc ∧ m.tyikill then t.killLine
  else if ch = m.tyierasec ∧ m.tyierase then
    if 0 < t.tyicursor then { t with tyicursor := t.tyicursor - 1 }.erase1 else t
  else if ch = TY_NEWLINE ∨ ch = TY_RETURN then
    { (t.store ch).wrap.signal (t.tyicursor + 1) with tyicursor := 0 }
  else if t.noRoom then t
  else if ch = m.tyeofch ∧ m.tyeof then
    if t.tyicursor ≠ 0 then t else (t.store ch).signal 1
  else ({ t with tyicursor := t.tyicursor + 1 }.store ch).wrap

/-- {lit}`ttyhandle_in`.  The commands for interrupt and debugging and the flow control do
nothing to the buffer. -/
def ttyhandleIn (m : Modes) (t : TtyIn) (ch : UInt8) : TtyIn :=
  if ch = TY_CTRLC then t
  else if ch = TY_BELL then t
  else if m.tyoflow ∧ mapped m ch = m.tyostart then t
  else if m.tyoflow ∧ mapped m ch = m.tyostop then t
  else t.cookedIn m (mapped m ch)

/-- {lit}`ttygetc` after its wait.  The character is the one at the head of the buffer. -/
def take (t : TtyIn) : TtyIn :=
  { t with
    tyihead := if TY_IBUFLEN ≤ t.tyihead + 1 then 0 else t.tyihead + 1
    got := t.got ++ [t.tyibuff t.tyihead] }

/-- The result of {lit}`ttygetc` for a character. -/
def ttygetcResult (m : Modes) (ch : UInt8) : Int :=
  if m.tyeof ∧ ch = m.tyeofch then EOF else ch.toNat

/-- {lit}`ttygetc`, up to the place where it waits if it has to. -/
def ttygetc (t : TtyIn) (pid : Int) : TtyIn :=
  if t.tyisem.Open then { t with tyisem := t.tyisem.enter pid }.take
  else { t with tyisem := t.tyisem.enter pid }

def log (t : TtyIn) (k : Keystroke) : TtyIn := { t with typed := t.typed ++ [k] }

/-- The characters in the buffer: those that were made available and not taken, and those
of the unfinished line. -/
def held (t : TtyIn) : Int := t.tyisem.units + t.tyicursor

def step (m : Modes) (t : TtyIn) : TtyInLabel → Option TtyIn
  | .type ch => some ((t.ttyhandleIn m ch).log ⟨ch, !t.noRoom, t.held⟩)
  | .getc pid => if pid ∈ t.tyisem.inside then none else some (t.ttygetc pid)
  | .resume pid =>
      if pid ∈ t.tyisem.granted then some { t with tyisem := t.tyisem.resume pid }.take
      else none

/-- The terminal as {lit}`ttyinit` leaves it. -/
def init : TtyIn where
  tyihead := 0
  tyitail := 0
  tyibuff := fun _ => 0
  tyisem := Turnstile.idle 0
  tyicursor := 0
  typed := []
  got := []

def Init (t : TtyIn) : Prop := t = init

end TtyIn

/-!
## Terminal input in raw and cbreak mode

The part of {lit}`ttyhandle_in` for these two modes, with {lit}`ttygetc` as it is for all
modes.  As for cooked mode, what goes to the echo queue is left out, and a reader is
interrupted only while it waits.  {lit}`ttycontrol` may change from one of the two modes
to the other.

The log is not part of the code.  It has the characters that were stored, and for each
character that was refused how many the buffer held.
-/

/-- The input modes without line editing. -/
inductive Imode where
  | raw | cbreak
  deriving DecidableEq, Repr

/-- The part of {lit}`struct ttycblk` for input without line editing. -/
structure TtyRaw where
  tyimode : Imode
  tyoheld : Bool
  tyotail : Int
  input : TtyIn
  accepted : List UInt8
  refused : List Int

inductive TtyRawLabel where
  | type (ch : UInt8)
  | getc (pid : Int)
  | resume (pid : Int)
  | control (mode : Imode)

namespace TtyRaw

/-- A character is refused. -/
def refuse (t : TtyRaw) : TtyRaw := { t with refused := t.refused ++ [t.input.tyisem.units] }

/-- Raw mode.  The pointer that wraps around is the one of the output buffer. -/
def rawIn (t : TtyRaw) (ch : UInt8) : TtyRaw :=
  if (TY_IBUFLEN : Int) ≤ t.input.avail then t.refuse
  else
    { t with
      input := (t.input.store ch).signal 1
      tyotail := if (TY_OBUFLEN : Int) ≤ t.tyotail then 0 else t.tyotail
      accepted := t.accepted ++ [ch] }

/-- Cbreak mode.  The input semaphore is not signalled. -/
def cbreakIn (t : TtyRaw) (ch : UInt8) : TtyRaw :=
  if (TY_IBUFLEN : Int) ≤ t.input.avail then t.refuse
  else { t with input := (t.input.store ch).wrap, accepted := t.accepted ++ [ch] }

/-- {lit}`ttyhandle_in`.  The commands for interrupt and debugging do nothing to the
terminal, the flow control nothing to the buffer. -/
def ttyhandleIn (m : Modes) (t : TtyRaw) (ch : UInt8) : TtyRaw :=
  if ch = TY_CTRLC then t
  else if ch = TY_BELL then t
  else
    match t.tyimode with
    | .raw => t.rawIn ch
    | .cbreak =>
        if m.tyoflow ∧ TtyIn.mapped m ch = m.tyostart then { t with tyoheld := false }
        else if m.tyoflow ∧ TtyIn.mapped m ch = m.tyostop then { t with tyoheld := true }
        else { t with tyoheld := false }.cbreakIn (TtyIn.mapped m ch)

def step (m : Modes) (t : TtyRaw) : TtyRawLabel → Option TtyRaw
  | .type ch => some (t.ttyhandleIn m ch)
  | .getc pid =>
      if pid ∈ t.input.tyisem.inside then none else some { t with input := t.input.ttygetc pid }
  | .resume pid =>
      if pid ∈ t.input.tyisem.granted then
        some { t with input := { t.input with tyisem := t.input.tyisem.resume pid }.take }
      else none
  | .control mode => some { t with tyimode := mode }

end TtyRaw

end Tty
end BbbXinu
