import BbbXinu.Kernel.Memory
import BbbXinu.Kernel.Semaphore

/-!
# Sleeping, messages and processes

{lit}`sleep.c`, {lit}`yield.c`, {lit}`unsleep.c`, {lit}`wakeup.c` and
{lit}`clkhandler.c`.  The handler runs when the clock interrupts user code.
-/

namespace BbbXinu

namespace Xinu

def yield (s : Xinu) : Xinu := (s.push (.ret OK)).resched

def sleepms (s : Xinu) (delay : Nat) : Xinu :=
  if delay = 0 then s.yield
  else
    let r := s.insertd s.currpid sleepq (int32 delay)
    if r.1 = SYSERR then r.2.ret SYSERR
    else
      let s := r.2.push (.ret OK)
      let s := s.recordCpuqdata s.currpid
      let s := s.setProc s.currpid fun e => { e with prstate := .sleep }
      s.resched

def sleep (s : Xinu) (delay : Nat) : Xinu :=
  if MAXSECONDS < delay then s.ret SYSERR
  else (s.push (.ret OK)).sleepms (uint32 (1000 * delay))

def unsleep (s : Xinu) (pid : Int) : Xinu :=
  if s.isbadpid pid then s
  else if (s.proctab pid).prstate ≠ .sleep ∧ (s.proctab pid).prstate ≠ .rectim then s
  else
    let pidnext := (s.queuetab pid).qnext
    let s :=
      if pidnext < NPROC then
        s.setQueue pidnext fun e => { e with qkey := int32 (e.qkey + (s.queuetab pid).qkey) }
      else s
    s.getitem pid

/-- The loop of {lit}`wakeup` over the processes whose time has come. -/
def wakeupLoop : Nat → Xinu → Xinu
  | 0, s => s
  | fuel + 1, s =>
      if s.nonempty sleepq ∧ s.firstkey sleepq ≤ 0 then
        wakeupLoop fuel (s.readyDequeue sleepq)
      else s

def wakeup (s : Xinu) : Xinu :=
  let s := s.reschedCntl DEFER_START
  let s := wakeupLoop queueFuel s
  s.reschedCntl DEFER_STOP

/-- The end of {lit}`clkhandler`: the preemption counter. -/
def clkPreempt (s : Xinu) : Xinu :=
  let s := s.setPreempt (uint32 (s.preempt - 1))
  if s.preempt = 0 then (s.setPreempt QUANTUM).resched else s

/-- The counters that {lit}`clkhandler` advances first. -/
def clkAdvance (s : Xinu) : Xinu :=
  let s := { s with count1000 := uint32 (s.count1000 - 1) }
  let s :=
    if s.count1000 = 0 then
      { s with clktime := uint32 (s.clktime + 1), count1000 := 1000 }
    else s
  { s with clktimems := true }

def clkhandler (s : Xinu) : Xinu :=
  let s := s.clkAdvance
  if ¬ s.isempty sleepq then
    let first := s.firstid sleepq
    let s := s.setQueue first fun e => { e with qkey := int32 (e.qkey - 1) }
    if (s.queuetab first).qkey = 0 then (s.push .clkPreempt).wakeup
    else s.clkPreempt
  else s.clkPreempt

/-!
## Messages

{lit}`send.c`, {lit}`receive.c`, {lit}`recvtime.c` and {lit}`recvclr.c`.
-/

def send (s : Xinu) (pid : Int) (msg : Nat) : Xinu :=
  if s.isbadpid pid then s.ret SYSERR
  else if (s.proctab pid).prhasmsg = true then s.ret SYSERR
  else
    let s := s.setProc pid fun e => { e with prmsg := msg, prhasmsg := true }
    if (s.proctab pid).prstate = .recv then (s.push (.ret OK)).ready pid
    else if (s.proctab pid).prstate = .rectim then
      ((s.push (.ret OK)).unsleep pid).ready pid
    else s.ret OK

/-- The end of {lit}`receive`: take the message. -/
def receiveEnd (s : Xinu) : Xinu :=
  let msg := (s.proctab s.currpid).prmsg
  (s.setProc s.currpid fun e => { e with prhasmsg := false }).ret msg

def receive (s : Xinu) : Xinu :=
  if (s.proctab s.currpid).prhasmsg = false then
    let s := s.push .receive
    let s := s.recordCpuqdata s.currpid
    let s := s.setProc s.currpid fun e => { e with prstate := .recv }
    s.resched
  else s.receiveEnd

/-- The end of {lit}`recvtime`: take the message or report the timeout. -/
def recvtimeEnd (s : Xinu) : Xinu :=
  if (s.proctab s.currpid).prhasmsg = true then
    let msg := (s.proctab s.currpid).prmsg
    (s.setProc s.currpid fun e => { e with prhasmsg := false }).ret msg
  else s.ret TIMEOUT

def recvtime (s : Xinu) (maxwait : Int) : Xinu :=
  if maxwait < 0 then s.ret SYSERR
  else if (s.proctab s.currpid).prhasmsg = false then
    let r := s.insertd s.currpid sleepq maxwait
    if r.1 = SYSERR then r.2.ret SYSERR
    else
      let s := r.2.push .recvtime
      let s := s.recordCpuqdata s.currpid
      let s := s.setProc s.currpid fun e => { e with prstate := .rectim }
      s.resched
  else s.recvtimeEnd

def recvclr (s : Xinu) : Xinu :=
  if (s.proctab s.currpid).prhasmsg = true then
    let msg := (s.proctab s.currpid).prmsg
    (s.setProc s.currpid fun e => { e with prhasmsg := false }).ret msg
  else s.ret OK

/-!
## Processes

{lit}`create.c`, {lit}`resume.c`, {lit}`suspend.c`, {lit}`kill.c` and
{lit}`chprio.c`.  The descriptors that {lit}`kill` closes are left out: a close
that does not block leaves no trace in the tables modelled here.
-/

/-- The search of {lit}`newpid` for a free entry. -/
def newpidLoop : Nat → Xinu → Int × Xinu
  | 0, s => (SYSERR, s)
  | n + 1, s =>
      let nextpid := s.nextpid % NPROC
      let s := s.setNextpid (nextpid + 1)
      if (s.proctab nextpid).prstate = .free then (nextpid, s)
      else newpidLoop n s

def newpid (s : Xinu) : Int × Xinu := newpidLoop NPROC.toNat s

/-- {lit}`create`, less the name, the descriptors and the contents of the new
stack; a new process starts in user code, with nothing left to do in the
kernel. -/
def create (s : Xinu) (ssize : Nat) (priority : Int) : Xinu :=
  let ssize := if ssize < MINSTK then MINSTK else ssize
  let ssize := roundew ssize
  let stk := s.mem.getstk (s.envtab EV_MEMALLOC) ssize
  let s := s.setMem stk.2
  match stk.1 with
  | none => s.ret SYSERR
  | some saddr =>
      let r := s.newpid
      let pid := r.1
      let s := r.2
      if pid = SYSERR then s.ret SYSERR
      else if priority < 1 then s.ret SYSERR
      else
        let s := s.setPrcount (s.prcount + 1)
        let s := s.setProc pid fun e =>
          { e with
            prstate := .susp
            timestatein := s.now
            statetimes := fun i p => if i < QTYPE_VALS then ztime else e.statetimes i p
            prprio0 := priority
            prprio := priority
            prstkbase := saddr
            prstklen := ssize
            prsem := -1
            prparent := s.currpid
            prhasmsg := false }
        (s.resetStack pid).ret pid

def resume (s : Xinu) (pid : Int) : Xinu :=
  if s.isbadpid pid then s.ret SYSERR
  else if (s.proctab pid).prstate ≠ .susp then s.ret SYSERR
  else
    let prio := (s.proctab pid).prprio
    (s.push (.ret prio)).ready pid

/-- The end of {lit}`suspend`: return the priority. -/
def suspendEnd (s : Xinu) (pid : Int) : Xinu := s.ret (s.proctab pid).prprio

def suspend (s : Xinu) (pid : Int) : Xinu :=
  if s.isbadpid pid ∨ pid = NULLPROC then s.ret SYSERR
  else if (s.proctab pid).prstate ≠ .curr ∧ (s.proctab pid).prstate ≠ .ready then
    s.ret SYSERR
  else
    let s := s.recordCpuqdata s.currpid
    if (s.proctab pid).prstate = .ready then
      let s := s.getitem pid
      let s := s.setProc pid fun e => { e with prstate := .susp }
      s.suspendEnd pid
    else
      let s := s.push (.suspend pid)
      let s := s.setProc pid fun e => { e with prstate := .susp }
      s.resched

/-- The schedulers under which a dying process spent time in some state. -/
def countFinished (s : Xinu) (pid : Int) : Xinu :=
  let spent := fun i => [PrState.free, .curr, .ready, .recv, .sleep, .susp, .wait, .rectim].any
    fun p =>
      let t := (s.proctab pid).statetimes i p
      t.secs ≠ 0 || t.ms ≠ 0
  { s with procsFinished := fun i =>
      if i < QTYPE_VALS ∧ spent i = true then uint32 (s.procsFinished i + 1)
      else s.procsFinished i }

def killSignaled (s : Xinu) (pid : Int) : Xinu :=
  (s.setProc pid fun e => { e with prstate := .free }).ret OK

/-- The {lit}`PR_READY` case of {lit}`kill`, also reached from {lit}`PR_WAIT`. -/
def killUnlink (s : Xinu) (pid : Int) : Xinu :=
  let s := s.getitem pid
  if s.rwbflags pid ≠ 0 ∧ (s.proctab pid).prsem < -1 then
    (s.push (.killSignaled pid))._signalrwb pid (-1 * ((s.proctab pid).prsem + 2))
  else s.killSignaled pid

/-- The {lit}`switch` of {lit}`kill` on the state of its victim. -/
def killState (s : Xinu) (pid : Int) : Xinu :=
  match (s.proctab pid).prstate with
  | .curr =>
      let s := s.setProc pid fun e => { e with prstate := .free }
      s.resched
  | .sleep | .rectim => (s.unsleep pid).killSignaled pid
  | .wait =>
      let prsem := (s.proctab pid).prsem
      let s :=
        if prsem < -1 then
          let rwbid := -1 * (prsem + 2)
          let s := s.setFlag pid 0
          s.setRwb rwbid fun e => { e with qcount := e.qcount - 1 }
        else s.setSem prsem fun e => { e with scount := int32 (e.scount + 1) }
      s.killUnlink pid
  | .ready => s.killUnlink pid
  | .free | .recv | .susp => s.killSignaled pid

/-- The part of {lit}`kill` after {lit}`send`. -/
def killSent (s : Xinu) (pid : Int) : Xinu :=
  let e := s.proctab pid
  let s := s.setMem (s.mem.freestk e.prstkbase e.prstklen)
  let s := s.recordCpuqdata pid
  let s := s.countFinished pid
  s.killState pid

def kill (s : Xinu) (pid : Int) : Xinu :=
  if s.isbadpid pid ∨ pid = NULLPROC ∨ (s.proctab pid).prstate = .free then s.ret SYSERR
  else
    let s := s.setPrcount (s.prcount - 1)
    if s.prcount ≤ 1 then { s with halted := true }
    else (s.push (.killSent pid)).send (s.proctab pid).prparent pid.toNat

def chprio (s : Xinu) (pid newprio : Int) : Xinu :=
  if s.isbadpid pid then s.ret SYSERR
  else
    let oldprio := (s.proctab pid).prprio
    let s := s.setProc pid fun e => { e with prprio := newprio }
    let s :=
      if s.envtab EV_SCHEDULER = QTYPE_PRIORITY then
        s.setProc pid fun e => { e with prprio0 := newprio }
      else s
    s.ret oldprio

end Xinu

end BbbXinu

/-!
## Switching the scheduler

{lit}`set_scheduler` of {lit}`sets.c`.
-/

namespace BbbXinu

namespace Xinu

/-- One round of the loop of {lit}`set_scheduler`: the process taken off the
ready list, if any, goes to the scratch list under its new priority. -/
def setSchedulerRound (s : Xinu) : Xinu :=
  let r := s.dequeue readylist
  let tmppid := r.1
  let s := r.2.setReadycount (uint16 (r.2.readycount - 1))
  if s.isbadpid tmppid then s
  else
    let r := s.setprio tmppid
    let s := r.2.setProc tmppid fun e => { e with prprio := r.1 }
    let s := s.insert tmppid scratchlist (s.proctab tmppid).prprio
    s.setReadycount (uint16 (s.readycount + 1))

def setSchedulerLoop : Nat → Xinu → Xinu
  | 0, s => s
  | n + 1, s => setSchedulerLoop n s.setSchedulerRound

/-- Record every live process, in the order of the table. -/
def recordAll : List Int → Xinu → Xinu
  | [], s => s
  | i :: rest, s =>
      recordAll rest (if (s.proctab i).prstate ≠ .free then s.recordCpuqdata i else s)

/-- All indices of the process table, in order. -/
def allPids : List Int := (List.range NPROC.toNat).map Int.ofNat

def setScheduler (s : Xinu) (newval : Nat) : Xinu :=
  if ¬ s.isempty scratchlist then s.ret SYSERR
  else
    let oldval := s.envtab EV_SCHEDULER
    let s := s.setEnv EV_SCHEDULER newval
    if oldval ≠ newval then
      let s := setSchedulerLoop s.readycount s
      let s := s.copyqueue scratchlist readylist
      let s := if s.envtab EV_CPUQDATA = 1 then recordAll allPids s else s
      s.ret OK
    else s.ret OK

/-!
## Switching the records on and off

{lit}`clear_cpuqdata.c` and {lit}`set_cpuqdata` of {lit}`sets.c`.
-/

/-- Zero the counters of every scheduler. -/
def clearTimes (times : Nat → PrState → Mstime) : Nat → PrState → Mstime :=
  fun i p => if i < QTYPE_VALS then ztime else times i p

/-- The loop over the process table. -/
def clearProcs (s : Xinu) : Xinu :=
  { s with proctab := fun i =>
      if 0 ≤ i ∧ i < NPROC then
        let e := s.proctab i
        let e :=
          if e.prstate ≠ .free then { e with statetimes := clearTimes e.statetimes } else e
        { e with timestatein := ztime }
      else s.proctab i }

def clearCpuqdata (s : Xinu) : Xinu :=
  let s := s.clearProcs
  { s with
    stateTimes := clearTimes s.stateTimes
    procsFinished := fun i => if i < QTYPE_VALS then 0 else s.procsFinished i }

def setCpuqdata (s : Xinu) (newval : Nat) : Xinu :=
  let oldval := s.envtab EV_CPUQDATA
  if oldval ≠ newval then
    let s := if newval ≠ 0 then recordAll allPids s else s.clearCpuqdata
    (s.setEnv EV_CPUQDATA newval).ret OK
  else s.ret OK

end Xinu

end BbbXinu
