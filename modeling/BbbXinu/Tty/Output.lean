import BbbXinu.Lib.Runs
import BbbXinu.Lib.Table
import BbbXinu.Lib.Turnstiles

/-!
# Terminal output

{lit}`ttyputc` and {lit}`ttyhandle_out`.  Both run with interrupts disabled, so a
writer is interrupted only while it waits for room in the buffer, and may then be held
up for any time after it was released.  Pointers into a buffer are indices.

The log is not part of the code.  It has what each process asked {lit}`ttyputc` to
write, with a return before each newline that gets one, what was stored in the buffer
and by whom, and what was handed from the buffer to the UART.
-/

namespace BbbXinu
namespace Tty

def TY_OBUFLEN : Nat := 64
def TY_EBUFLEN : Nat := 20
def UART_FIFO_SIZE : Nat := 64
def TY_NEWLINE : UInt8 := 10
def TY_RETURN : UInt8 := 13

/-- The part of {lit}`struct ttycblk` for output, and the characters that each process in
{lit}`ttyputc` has still to store, of which it waits to store the first. -/
structure TtyOut where
  tyohead : Nat
  tyotail : Nat
  tyobuff : Nat → UInt8
  tyosem : Turnstile Int
  tyehead : Nat
  tyetail : Nat
  tyebuff : Nat → UInt8
  tyocrlf : Bool
  tyoheld : Bool
  pending : Int → List UInt8
  asked : Int → List UInt8
  deposited : List (Int × UInt8)
  sent : List UInt8

inductive TtyOutLabel where
  | putc (pid : Int) (ch : UInt8)
  | resume (pid : Int)
  | interrupt (txfifo_lvl : Nat)
  | echo (ch : UInt8)
  | modes (tyocrlf tyoheld : Bool)

namespace TtyOut

/-- A character is stored in the output buffer. -/
def store (t : TtyOut) (pid : Int) (ch : UInt8) : TtyOut :=
  { t with
    tyobuff := upd t.tyobuff t.tyotail ch
    tyotail := if TY_OBUFLEN ≤ t.tyotail + 1 then 0 else t.tyotail + 1
    deposited := t.deposited ++ [(pid, ch)] }

def setSem (t : TtyOut) (T : Turnstile Int) : TtyOut := { t with tyosem := T }

def setPending (t : TtyOut) (pid : Int) (chars : List UInt8) : TtyOut :=
  { t with pending := upd t.pending pid chars }

/-- A process stores some characters, up to the first for which it has to wait. -/
def putChars (pid : Int) : List UInt8 → TtyOut → TtyOut
  | [], t => t.setPending pid []
  | ch :: chars, t =>
      if t.tyosem.Open then
        putChars pid chars ((t.setSem (t.tyosem.enter pid)).store pid ch)
      else (t.setSem (t.tyosem.enter pid)).setPending pid (ch :: chars)

/-- What {lit}`ttyputc` writes for a character: a newline has a return before it. -/
def crlf (t : TtyOut) (ch : UInt8) : List UInt8 :=
  if ch = TY_NEWLINE ∧ t.tyocrlf then [TY_RETURN, ch] else [ch]

def ttyputc (t : TtyOut) (pid : Int) (ch : UInt8) : TtyOut :=
  putChars pid (t.crlf ch) { t with asked := upd t.asked pid (t.asked pid ++ t.crlf ch) }

/-- {lit}`ttyputc` after the wait for its next character. -/
def ttyputcResume (t : TtyOut) (pid : Int) : List UInt8 → TtyOut
  | [] => t
  | ch :: chars => putChars pid chars ((t.setSem (t.tyosem.resume pid)).store pid ch)

/-- {lit}`eputc`: a character is put into the echo queue. -/
def eputc (t : TtyOut) (ch : UInt8) : TtyOut :=
  { t with
    tyebuff := upd t.tyebuff t.tyetail ch
    tyetail := if TY_EBUFLEN ≤ t.tyetail + 1 then 0 else t.tyetail + 1 }

/-- The loop over the echo queue: the room left in the FIFO, and the queue. -/
def echoLoop : Nat → TtyOut → Nat × TtyOut
  | 0, t => (0, t)
  | uspace + 1, t =>
      if t.tyehead = t.tyetail then (uspace + 1, t)
      else echoLoop uspace
        { t with tyehead := if TY_EBUFLEN ≤ t.tyehead + 1 then 0 else t.tyehead + 1 }

/-- A character goes from the output buffer to the UART. -/
def transmit (t : TtyOut) : TtyOut :=
  { t with
    tyohead := if TY_OBUFLEN ≤ t.tyohead + 1 then 0 else t.tyohead + 1
    sent := t.sent ++ [t.tyobuff t.tyohead] }

/-- The loop over the output buffer, and the number of characters that it sends. -/
def outLoop : Nat → Int → TtyOut → Nat × TtyOut
  | 0, _, t => (0, t)
  | uspace + 1, avail, t =>
      if 0 < avail then
        ((outLoop uspace (avail - 1) t.transmit).1 + 1,
          (outLoop uspace (avail - 1) t.transmit).2)
      else (0, t)

/-- {lit}`ttyhandle_out` with a given number of characters in the FIFO.  The interrupt
enable register is left out. -/
def ttyhandleOut (t : TtyOut) (txfifoLvl : Nat) : TtyOut :=
  if t.tyoheld then t
  else if t.tyehead = t.tyetail ∧ TY_OBUFLEN ≤ t.tyosem.queue.count then t
  else
    let (uspace, t) := echoLoop (UART_FIFO_SIZE - txfifoLvl) t
    let (ochars, t) := outLoop uspace (TY_OBUFLEN - t.tyosem.queue.count) t
    if 0 < ochars then t.setSem (t.tyosem.signal ochars) else t

/-- A process calls {lit}`ttyputc` when it is not inside, and goes on when it was released. -/
def step (t : TtyOut) : TtyOutLabel → Option TtyOut
  | .putc pid ch => if t.pending pid = [] then some (t.ttyputc pid ch) else none
  | .resume pid =>
      if pid ∈ t.tyosem.granted then some (t.ttyputcResume pid (t.pending pid)) else none
  | .interrupt txfifoLvl => some (t.ttyhandleOut txfifoLvl)
  | .echo ch => some (t.eputc ch)
  | .modes tyocrlf tyoheld => some { t with tyocrlf := tyocrlf, tyoheld := tyoheld }

/-- The terminal as {lit}`ttyinit` leaves it. -/
def init : TtyOut where
  tyohead := 0
  tyotail := 0
  tyobuff := fun _ => 0
  tyosem := Turnstile.idle TY_OBUFLEN
  tyehead := 0
  tyetail := 0
  tyebuff := fun _ => 0
  tyocrlf := true
  tyoheld := false
  pending := fun _ => []
  asked := fun _ => []
  deposited := []
  sent := []

def Init (t : TtyOut) : Prop := t = init

end TtyOut

end Tty
end BbbXinu
