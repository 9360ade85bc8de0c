import BbbXinu.Kernel.Queue

/-!
# State times, priorities and rescheduling

The {lit}`mstime` macros of {lit}`scheduler.h`, {lit}`record_cpu.c` and
{lit}`setprio.c`.  The fields of a time are unsigned 32-bit words, and the
macros work in that arithmetic.
-/

namespace BbbXinu

namespace Mstime

def addtime (t1 t2 : Mstime) : Mstime where
  secs := uint32 (t1.secs + t2.secs + uint32 (t1.ms + t2.ms) / 60)
  ms := uint32 (t1.ms + t2.ms) % 60

def negtime (t1 t2 : Mstime) : Mstime :=
  let t1 := if t1.ms < t2.ms then
      { secs := uint32 (t1.secs - 1), ms := uint32 (t1.ms + 1000) }
    else t1
  { secs := uint32 (t1.secs - t2.secs), ms := uint32 (t1.ms - t2.ms) }

def prttime (t1 : Mstime) : Nat := uint32 (t1.secs * 1000 + t1.ms)

end Mstime

/-- The macro {lit}`INT16`. -/
def INT16 (u : Nat) : Nat := u % 32768

namespace Xinu

/-- The value of {lit}`NOW`, as {lit}`cputime` computes it. -/
def now (s : Xinu) : Mstime where
  secs := s.clktime
  ms := if s.clktimems then uint32 (1000 - s.count1000) else 0

def recordCpuqdata (s : Xinu) (pid : Int) : Xinu :=
  if s.envtab EV_CPUQDATA ≠ 0 ∨ s.envtab EV_SCHEDULER = QTYPE_SJF then
    if s.isbadpid pid then s
    else
      let schedval := s.envtab EV_SCHEDULER
      let timein := (s.proctab pid).timestatein
      let pstate := (s.proctab pid).prstate
      let timenow := s.now
      let s :=
        if timein.secs ≠ 0 ∨ timein.ms ≠ 0 then
          let tmptime := timenow.negtime timein
          let tmptime :=
            if tmptime.secs ≤ 0 ∧ tmptime.ms ≤ 0 then { tmptime with ms := 1 }
            else tmptime
          let s :=
            if pid ≠ 0 then
              { s with stateTimes := fun i p =>
                  if i = schedval ∧ p = pstate then
                    (s.stateTimes i p).addtime tmptime
                  else s.stateTimes i p }
            else s
          s.setProc pid fun e =>
            { e with statetimes := fun i p =>
                if i = schedval ∧ p = pstate then
                  (e.statetimes i p).addtime tmptime
                else e.statetimes i p }
        else s
      s.setProc pid fun e => { e with timestatein := timenow }
  else s

/-- Take the next random value. -/
def takeRand (s : Xinu) : Nat × Xinu :=
  (s.rand 0, { s with rand := fun n => s.rand (n + 1) })

def setprio (s : Xinu) (pid : Int) : Int × Xinu :=
  if s.isbadpid pid then (SYSERR, s)
  else if pid = NULLPROC then (0, s)
  else if s.envtab EV_SCHEDULER = QTYPE_SJF then
    let s := s.recordCpuqdata pid
    let tmptime := (s.proctab pid).statetimes QTYPE_SJF PrState.curr
    (INT16 (SHRT_MAX - INT16 tmptime.prttime), s)
  else if s.envtab EV_SCHEDULER = QTYPE_RAND then
    let r := s.takeRand
    (INT16 (r.1 % 99 + 1), r.2)
  else if s.envtab EV_SCHEDULER = QTYPE_PRIORITY then
    (INT16 (uint32 (s.proctab pid).prprio0), s)
  else (INT16 0, s)

/-!
## Rescheduling

{lit}`resched.c` and {lit}`ready.c`.  The context switch changes the running
process; what the old process still has to do is on its stack.  No caller in the
kernel looks at the status that {lit}`ready` and {lit}`resched_cntl` return.
-/

/-- The end of {lit}`resched`: give the processor to the first ready process. -/
def dispatch (s : Xinu) : Xinu :=
  let r := s.dequeue readylist
  let s := r.2.setCurrpid r.1
  let s := s.setReadycount (uint16 (s.readycount - 1))
  let s := s.recordCpuqdata s.currpid
  let s := s.setProc s.currpid fun e => { e with prstate := .curr }
  s.setPreempt QUANTUM

def resched (s : Xinu) : Xinu :=
  if 0 < s.defer.ndefers then
    s.setDefer { s.defer with attempt := true }
  else
    let old := s.currpid
    if (s.proctab old).prstate = .curr then
      let r := s.setprio old
      let s := r.2.setProc old fun e => { e with prprio := r.1 }
      if s.firstkey readylist < (s.proctab old).prprio then s
      else
        let s := s.recordCpuqdata old
        let s := s.setProc old fun e => { e with prstate := .ready }
        let s := s.setReadycount (uint16 (s.readycount + 1))
        let s := s.insert old readylist (s.proctab old).prprio
        s.dispatch
    else s.dispatch

/-- The case {lit}`DEFER_START` of {lit}`resched_cntl`. -/
def deferStart (s : Xinu) : Xinu :=
  let attempt := if s.defer.ndefers = 0 then false else s.defer.attempt
  s.setDefer { ndefers := int32 (s.defer.ndefers + 1), attempt := attempt }

/-- The case {lit}`DEFER_STOP` of {lit}`resched_cntl`. -/
def deferStop (s : Xinu) : Xinu :=
  if s.defer.ndefers ≤ 0 then s
  else
    let s := s.setDefer { s.defer with ndefers := s.defer.ndefers - 1 }
    if s.defer.ndefers = 0 ∧ s.defer.attempt = true then s.resched else s

def reschedCntl (s : Xinu) (defer : Int) : Xinu :=
  if defer = DEFER_START then s.deferStart
  else if defer = DEFER_STOP then s.deferStop
  else s

def ready (s : Xinu) (pid : Int) : Xinu :=
  if s.isbadpid pid then s
  else
    let s := s.recordCpuqdata pid
    let s := s.setProc pid fun e => { e with prstate := .ready }
    let s := s.setReadycount (uint16 (s.readycount + 1))
    let r := s.setprio pid
    let s := r.2.setProc pid fun e => { e with prprio := r.1 }
    let s := s.insert pid readylist (s.proctab pid).prprio
    s.resched

end Xinu

end BbbXinu
