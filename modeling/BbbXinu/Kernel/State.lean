import BbbXinu.Lib.Table

/-!
# Kernel state

The tables and global variables of the kernel, under the names of the headers.
Process, queue, semaphore and blocker identifiers are integers, as in the code,
where {lit}`SYSERR` and {lit}`EMPTY` are negative.  A table is a function of its
index.  32-bit unsigned fields are natural numbers and every operation on them
reduces modulo {lit}`2^32`; signed arithmetic that can leave its type goes
through {lit}`int32`.

A call that can be switched out in the middle leaves a {lit}`Frame` on the
stack of its process: the code that is still to run when the process gets the
processor back.
-/

namespace BbbXinu

/-!
## Constants
-/

def NPROC : Int := 100
def NSEM : Int := 100
def RWB_COUNT : Int := 10
def NQENT : Int := NPROC + 4 + NSEM + NSEM + 4 + RWB_COUNT + RWB_COUNT
def EMPTY : Int := -1
def MAXKEY : Int := 0x7FFFFFFF
def MINKEY : Int := -0x80000000
def NULLPROC : Int := 0
def OK : Int := 1
def SYSERR : Int := -1
def TIMEOUT : Int := -3
def QUANTUM : Nat := 2
def NULLSTK : Nat := 8192
def MINSTK : Nat := 400
def MAXSECONDS : Nat := 4294967
def EV_SCHEDULER : Nat := 1
def EV_CPUQDATA : Nat := 2
def EV_MEMALLOC : Nat := 5
def QTYPE_VALS : Nat := 3
def QTYPE_PRIORITY : Nat := 0
def QTYPE_SJF : Nat := 1
def QTYPE_RAND : Nat := 2
def SHRT_MAX : Nat := 32767
def MIN_BLOCKSIZE : Nat := 16
def MEMALLOC_FIRSTFIT : Nat := 0
def MEMALLOC_BESTFIT : Nat := 1
def DEFER_START : Int := 1
def DEFER_STOP : Int := 2

/-- Conversion to a signed 32-bit integer. -/
def int32 (x : Int) : Int := x.bmod 4294967296

/-- Conversion leaves 32-bit values alone. -/
theorem int32_eq {x : Int} (h₁ : -2147483648 ≤ x) (h₂ : x < 2147483648) : int32 x = x := by
  unfold int32
  apply Int.bmod_eq_of_le
  · exact h₁
  · exact h₂

/-- Conversion to an unsigned 32-bit integer. -/
def uint32 (x : Int) : Nat := (x % 4294967296).toNat

/-- Conversion to an unsigned 16-bit integer. -/
def uint16 (x : Int) : Nat := (x % 65536).toNat

/-!
## Table entries
-/

/-- Process states, {lit}`PR_FREE` to {lit}`PR_RECTIM`. -/
inductive PrState where
  | free | curr | ready | recv | sleep | susp | wait | rectim
  deriving DecidableEq, Repr

/-- {lit}`S_FREE` and {lit}`S_USED`. -/
inductive EntryState where
  | free | used
  deriving DecidableEq, Repr

/-- Seconds and milliseconds, both unsigned 32-bit. -/
structure Mstime where
  secs : Nat
  ms : Nat
  deriving DecidableEq, Repr

def ztime : Mstime := { secs := 0, ms := 0 }

/-- Entry of the process table. -/
structure Procent where
  prstate : PrState
  prprio : Int
  prprio0 : Int
  prstkbase : Nat
  prstklen : Nat
  prsem : Int
  prparent : Int
  prmsg : Nat
  prhasmsg : Bool
  timestatein : Mstime
  statetimes : Nat → PrState → Mstime

/-- Entry of the queue table. -/
structure Qentry where
  qkey : Int
  qnext : Int
  qprev : Int
  deriving DecidableEq, Repr

/-- Entry of the semaphore table. -/
structure Sentry where
  sstate : EntryState
  scount : Int
  squeue : Int
  deriving DecidableEq, Repr

/-- Entry of the read-write blocker table. -/
structure Rwbentry where
  rwstate : EntryState
  rwcount : Int
  rwqueue : Int
  qcount : Int
  deriving DecidableEq, Repr

/-- Deferred rescheduling. -/
structure Defer where
  ndefers : Int
  attempt : Bool
  deriving DecidableEq, Repr

/-- Header of a free memory block; {lit}`mnextsz` is not used by any routine. -/
structure Memblk where
  mnext : Nat
  mlength : Nat
  mprev : Nat
  deriving DecidableEq, Repr

/-- Heap bounds, the address of the list head {lit}`memlist`, and the block
headers by address. -/
structure Mem where
  memlist : Nat
  minheap : Nat
  maxheap : Nat
  block : Nat → Memblk

/-!
## Suspended calls

Each frame names the point after a call that may switch.
-/

/-- Code that a process still has to run inside the kernel. -/
inductive Frame where
  /-- Return the value to the caller. -/
  | ret (value : Int)
  /-- {lit}`receive`, after {lit}`resched`. -/
  | receive
  /-- {lit}`recvtime`, after {lit}`resched`. -/
  | recvtime
  /-- {lit}`suspend` of the given process, after {lit}`resched`. -/
  | suspend (pid : Int)
  /-- {lit}`kill` of the given process, after {lit}`send` to its parent. -/
  | killSent (pid : Int)
  /-- {lit}`kill` of the given process, after {lit}`_signalrwb` in its name. -/
  | killSignaled (pid : Int)
  /-- {lit}`_signalrwb`, after {lit}`ready` of a released writer. -/
  | rwbWriter (thisid rwb : Int)
  /-- {lit}`_signalrwb`, after {lit}`ready` of a released reader. -/
  | rwbReader (thisid rwb : Int)
  /-- {lit}`clkhandler`, after the sleep queue was served. -/
  | clkPreempt
  deriving DecidableEq, Repr

/-!
## The state
-/

/-- The kernel's global variables, the process stacks, the value each process
got from its last finished call, and whether {lit}`xdone` halted the machine.
The static variables of {lit}`newpid`, {lit}`newsem`, {lit}`newrwb` and
{lit}`newqueue` are fields.  The values that future calls of {lit}`rand` return
are the sequence {lit}`rand`. -/
structure Xinu where
  proctab : Int → Procent
  queuetab : Int → Qentry
  semtab : Int → Sentry
  rwbtab : Int → Rwbentry
  rwbflags : Int → Int
  prcount : Int
  currpid : Int
  readycount : Nat
  defer : Defer
  preempt : Nat
  clktime : Nat
  count1000 : Nat
  clktimems : Bool
  envtab : Nat → Nat
  stateTimes : Nat → PrState → Mstime
  procsFinished : Nat → Nat
  nextpid : Int
  nextsem : Int
  nextrwb : Int
  nextqid : Int
  mem : Mem
  rand : Nat → Nat
  stack : Int → List Frame
  retval : Int → Int
  halted : Bool

/-!
## Queue identifiers

{lit}`sysinit` calls {lit}`newqueue` for every semaphore, every blocker, the
ready list, the scratch list and the sleep queue, in this order.  The first two
families keep their identifier in their table entry.
-/

def readylist : Int := NPROC + 2 * NSEM + 2 * RWB_COUNT
def scratchlist : Int := readylist + 2
def sleepq : Int := readylist + 4

def queuehead (q : Int) : Int := q
def queuetail (q : Int) : Int := q + 1

def isbadsem (x : Int) : Prop := x < 0 ∨ NSEM ≤ x

instance (x : Int) : Decidable (isbadsem x) :=
  inferInstanceAs (Decidable (_ ∨ _))

def isbadqid (x : Int) : Prop := x < 0 ∨ NQENT - 1 ≤ x

instance (x : Int) : Decidable (isbadqid x) :=
  inferInstanceAs (Decidable (_ ∨ _))

namespace Xinu

variable (s : Xinu)

def isbadpid (x : Int) : Prop :=
  x < 0 ∨ NPROC ≤ x ∨ (s.proctab x).prstate = PrState.free

instance (x : Int) : Decidable (s.isbadpid x) :=
  inferInstanceAs (Decidable (_ ∨ _))

def isbadrwb (x : Int) : Prop :=
  x < 0 ∨ RWB_COUNT ≤ x ∨ (s.rwbtab x).rwstate = EntryState.free

instance (x : Int) : Decidable (s.isbadrwb x) :=
  inferInstanceAs (Decidable (_ ∨ _))

def firstid (q : Int) : Int := (s.queuetab (queuehead q)).qnext
def lastid (q : Int) : Int := (s.queuetab (queuetail q)).qprev
def firstkey (q : Int) : Int := (s.queuetab (s.firstid q)).qkey

def isempty (q : Int) : Prop := NPROC ≤ s.firstid q

instance (q : Int) : Decidable (s.isempty q) :=
  inferInstanceAs (Decidable (_ ≤ _))

def nonempty (q : Int) : Prop := s.firstid q < NPROC

instance (q : Int) : Decidable (s.nonempty q) :=
  inferInstanceAs (Decidable (_ < _))

/-!
## Field updates
-/

def setPrcount (n : Int) : Xinu := { s with prcount := n }
def setCurrpid (pid : Int) : Xinu := { s with currpid := pid }
def setReadycount (n : Nat) : Xinu := { s with readycount := n }
def setDefer (d : Defer) : Xinu := { s with defer := d }
def setPreempt (n : Nat) : Xinu := { s with preempt := n }
def setEnv (i value : Nat) : Xinu := { s with envtab := upd s.envtab i value }
def setNextpid (pid : Int) : Xinu := { s with nextpid := pid }
def setNextsem (sem : Int) : Xinu := { s with nextsem := sem }
def setNextrwb (rwb : Int) : Xinu := { s with nextrwb := rwb }
def setNextqid (q : Int) : Xinu := { s with nextqid := q }
def setMem (m : Mem) : Xinu := { s with mem := m }

def setProc (pid : Int) (f : Procent → Procent) : Xinu :=
  { s with proctab := upd s.proctab pid (f (s.proctab pid)) }

def setQueue (i : Int) (f : Qentry → Qentry) : Xinu :=
  { s with queuetab := upd s.queuetab i (f (s.queuetab i)) }

def setSem (i : Int) (f : Sentry → Sentry) : Xinu :=
  { s with semtab := upd s.semtab i (f (s.semtab i)) }

def setRwb (i : Int) (f : Rwbentry → Rwbentry) : Xinu :=
  { s with rwbtab := upd s.rwbtab i (f (s.rwbtab i)) }

def setFlag (pid : Int) (flag : Int) : Xinu :=
  { s with rwbflags := upd s.rwbflags pid flag }

/-- Leave a frame on the stack of the running process. -/
def push (f : Frame) : Xinu :=
  { s with stack := upd s.stack s.currpid (f :: s.stack s.currpid) }

/-- Forget the frames of a process. -/
def resetStack (pid : Int) : Xinu := { s with stack := upd s.stack pid [] }

/-- Take the top frame off the stack of the running process. -/
def pop : Xinu :=
  { s with stack := upd s.stack s.currpid (s.stack s.currpid).tail }

/-- Hand a value to the caller. -/
def ret (value : Int) : Xinu :=
  { s with retval := upd s.retval s.currpid value }

end Xinu

end BbbXinu
