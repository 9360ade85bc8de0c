import BbbXinu.Kernel.Process

/-!
# The machine

User code of the running process may make any call, and the clock may interrupt
it, whenever it is outside the kernel.  When the running process has frames
left, the only possible step is to run the top one: interrupts are disabled in
the kernel and the only switch is the one {lit}`resched` makes.
-/

namespace BbbXinu

/-- System calls with their arguments, and the clock interrupt. -/
inductive Call where
  | create (ssize : Nat) (priority : Int)
  | resume (pid : Int)
  | suspend (pid : Int)
  | kill (pid : Int)
  | chprio (pid newprio : Int)
  | yield
  | semcreate (count : Int)
  | wait (sem : Int)
  | signal (sem : Int)
  | signaln (sem count : Int)
  | semreset (sem count : Int)
  | semdelete (sem : Int)
  | send (pid : Int) (msg : Nat)
  | receive
  | recvtime (maxwait : Int)
  | recvclr
  | sleepms (delay : Nat)
  | sleep (delay : Nat)
  | rwbcreate (count : Int)
  | rwbdelete (rwb : Int)
  | rwbreset (rwb count : Int)
  | rwbTryread (rwb : Int)
  | rwbTrywrite (rwb : Int)
  | signalrwb (rwb : Int)
  | setScheduler (newval : Nat)
  | clkhandler
  deriving DecidableEq, Repr

/-- A step of the machine: a call from user code, or the next frame. -/
inductive Label where
  | call (c : Call)
  | cont
  deriving DecidableEq, Repr

namespace Xinu

def call (s : Xinu) : Call → Xinu
  | .create ssize priority => s.create ssize priority
  | .resume pid => s.resume pid
  | .suspend pid => s.suspend pid
  | .kill pid => s.kill pid
  | .chprio pid newprio => s.chprio pid newprio
  | .yield => s.yield
  | .semcreate count => s.semcreate count
  | .wait sem => s.wait sem
  | .signal sem => s.signal sem
  | .signaln sem count => s.signaln sem count
  | .semreset sem count => s.semreset sem count
  | .semdelete sem => s.semdelete sem
  | .send pid msg => s.send pid msg
  | .receive => s.receive
  | .recvtime maxwait => s.recvtime maxwait
  | .recvclr => s.recvclr
  | .sleepms delay => s.sleepms delay
  | .sleep delay => s.sleep delay
  | .rwbcreate count => s.rwbcreate count
  | .rwbdelete rwb => s.rwbdelete rwb
  | .rwbreset rwb count => s.rwbreset rwb count
  | .rwbTryread rwb => s.rwbTryread rwb
  | .rwbTrywrite rwb => s.rwbTrywrite rwb
  | .signalrwb rwb => s.signalrwb rwb
  | .setScheduler newval => s.setScheduler newval
  | .clkhandler => s.clkhandler

/-- Run a frame. -/
def frame (s : Xinu) : Frame → Xinu
  | .ret value => s.ret value
  | .receive => s.receiveEnd
  | .recvtime => s.recvtimeEnd
  | .suspend pid => s.suspendEnd pid
  | .killSent pid => s.killSent pid
  | .killSignaled pid => s.killSignaled pid
  | .rwbWriter thisid rwb => s.signalrwbWriter thisid rwb
  | .rwbReader thisid rwb => s.signalrwbReader thisid rwb
  | .clkPreempt => s.clkPreempt

/-- The running process is outside the kernel. -/
def inUser (s : Xinu) : Prop := s.stack s.currpid = []

instance (s : Xinu) : Decidable s.inUser :=
  inferInstanceAs (Decidable (_ = _))

def step (s : Xinu) (l : Label) : Option Xinu :=
  if s.halted = true then none
  else
    match l, s.stack s.currpid with
    | .call c, [] => some (s.call c)
    | .cont, f :: _ => some (s.pop.frame f)
    | _, _ => none

/-!
## Initialization

{lit}`sysinit` of {lit}`initialize.c` with {lit}`clkinit.c`.  The free memory
that {lit}`meminit` sets up and the values of {lit}`rand` are parameters.  The
device drivers initialized last only make calls that the machine offers anyway.
-/

/-- The global variables when the image starts: zeroed tables and initialized
statics. -/
def image (mem : Mem) (rand : Nat → Nat) : Xinu where
  proctab := fun _ =>
    { prstate := .free, prprio := 0, prprio0 := 0, prstkbase := 0, prstklen := 0,
      prsem := 0, prparent := 0, prmsg := 0, prhasmsg := false, timestatein := ztime,
      statetimes := fun _ _ => ztime }
  queuetab := fun _ => { qkey := 0, qnext := 0, qprev := 0 }
  semtab := fun _ => { sstate := .free, scount := 0, squeue := 0 }
  rwbtab := fun _ => { rwstate := .free, rwcount := 0, rwqueue := 0, qcount := 0 }
  rwbflags := fun _ => 0
  prcount := 0
  currpid := 0
  readycount := 0
  defer := { ndefers := 0, attempt := false }
  preempt := 0
  clktime := 0
  count1000 := 1000
  clktimems := false
  envtab := fun
    | 0 => 9
    | 6 => 5
    | 8 => 0x7000
    | _ => 0
  stateTimes := fun _ _ => ztime
  procsFinished := fun _ => 0
  nextpid := 1
  nextsem := 0
  nextrwb := 0
  nextqid := NPROC
  mem := mem
  rand := rand
  stack := fun _ => []
  retval := fun _ => 0
  halted := false

/-- The null process becomes the running process. -/
def initNull (s : Xinu) : Xinu :=
  let stk := s.mem.getstk (s.envtab EV_MEMALLOC) NULLSTK
  let s := ((s.setPrcount 1).setMem stk.2).setCurrpid NULLPROC
  s.setProc NULLPROC fun e =>
    { e with
      prstate := .curr
      timestatein := ztime
      prprio := 0
      prprio0 := 0
      prstkbase := stk.1.getD 0xFFFFFFFF
      prstklen := NULLSTK }

/-- The loop over the semaphore table, from the given index on. -/
def initSems : Nat → Int → Xinu → Xinu
  | 0, _, s => s
  | n + 1, i, s =>
      let r := s.newqueue
      initSems n (i + 1) (r.2.setSem i fun _ =>
        { sstate := .free, scount := 0, squeue := r.1 })

/-- The loop over the blocker table, from the given index on. -/
def initRwbs : Nat → Int → Xinu → Xinu
  | 0, _, s => s
  | n + 1, i, s =>
      let r := s.newqueue
      initRwbs n (i + 1) (r.2.setRwb i fun _ =>
        { rwstate := .free, rwcount := 0, rwqueue := r.1, qcount := 0 })

/-- The state in which the null process enables interrupts. -/
def sysinit (mem : Mem) (rand : Nat → Nat) : Xinu :=
  let s := (image mem rand).initNull
  let s := initSems NSEM.toNat 0 s
  let s := initRwbs RWB_COUNT.toNat 0 s
  -- ready list, scratch list, and the sleep queue of clkinit
  let s := s.newqueue.2
  let s := s.newqueue.2
  let s := s.newqueue.2
  s.setPreempt QUANTUM

end Xinu

end BbbXinu
