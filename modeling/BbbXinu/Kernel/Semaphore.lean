import BbbXinu.Kernel.Resched

/-!
# Semaphores and read-write blockers

{lit}`semcreate.c`, {lit}`wait.c`, {lit}`signal.c`, {lit}`signaln.c`,
{lit}`semreset.c` and {lit}`semdelete.c`.  A call that may be switched out
leaves its return value on the stack first.
-/

namespace BbbXinu

namespace Xinu

/-- The search of {lit}`newsem` for a free entry. -/
def newsemLoop : Nat → Xinu → Int × Xinu
  | 0, s => (SYSERR, s)
  | n + 1, s =>
      let sem := s.nextsem
      let nextsem := if NSEM ≤ s.nextsem + 1 then 0 else s.nextsem + 1
      let s := s.setNextsem nextsem
      if (s.semtab sem).sstate = .free then
        (sem, s.setSem sem fun e => { e with sstate := .used })
      else newsemLoop n s

def newsem (s : Xinu) : Int × Xinu := newsemLoop NSEM.toNat s

def semcreate (s : Xinu) (count : Int) : Xinu :=
  if count < 0 then s.ret SYSERR
  else
    let r := s.newsem
    if r.1 = SYSERR then r.2.ret SYSERR
    else (r.2.setSem r.1 fun e => { e with scount := count }).ret r.1

def wait (s : Xinu) (sem : Int) : Xinu :=
  if isbadsem sem then s.ret SYSERR
  else if (s.semtab sem).sstate = .free then s.ret SYSERR
  else
    let s := s.setSem sem fun e => { e with scount := int32 (e.scount - 1) }
    if (s.semtab sem).scount < 0 then
      let s := s.push (.ret OK)
      let s := s.recordCpuqdata s.currpid
      let s := s.setProc s.currpid fun e => { e with prstate := .wait, prsem := sem }
      let s := s.enqueue s.currpid (s.semtab sem).squeue
      s.resched
    else s.ret OK

/-- Release the first process of a queue. -/
def readyDequeue (s : Xinu) (q : Int) : Xinu :=
  let r := s.dequeue q
  r.2.ready r.1

def signal (s : Xinu) (sem : Int) : Xinu :=
  if isbadsem sem then s.ret SYSERR
  else if (s.semtab sem).sstate = .free then s.ret SYSERR
  else
    let scount := (s.semtab sem).scount
    let s := s.setSem sem fun e => { e with scount := int32 (e.scount + 1) }
    if scount < 0 then (s.push (.ret OK)).readyDequeue (s.semtab sem).squeue
    else s.ret OK

def signalnLoop (sem : Int) : Nat → Xinu → Xinu
  | 0, s => s
  | count + 1, s =>
      let scount := (s.semtab sem).scount
      let s := s.setSem sem fun e => { e with scount := int32 (e.scount + 1) }
      let s := if scount < 0 then s.readyDequeue (s.semtab sem).squeue else s
      signalnLoop sem count s

def signaln (s : Xinu) (sem count : Int) : Xinu :=
  if isbadsem sem ∨ count < 0 then s.ret SYSERR
  else if (s.semtab sem).sstate = .free then s.ret SYSERR
  else
    let s := s.push (.ret OK)
    let s := s.reschedCntl DEFER_START
    let s := signalnLoop sem count.toNat s
    s.reschedCntl DEFER_STOP

/-- Release all processes of a queue. -/
def readyAll (q : Int) : Nat → Xinu → Xinu
  | 0, s => s
  | fuel + 1, s =>
      let r := s.getfirst q
      if r.1 = EMPTY then r.2 else readyAll q fuel (r.2.ready r.1)

def semreset (s : Xinu) (sem count : Int) : Xinu :=
  if count < 0 ∨ isbadsem sem ∨ (s.semtab sem).sstate = .free then s.ret SYSERR
  else
    let s := s.push (.ret OK)
    let semqueue := (s.semtab sem).squeue
    let s := s.reschedCntl DEFER_START
    let s := readyAll semqueue queueFuel s
    let s := s.setSem sem fun e => { e with scount := count }
    s.reschedCntl DEFER_STOP

/-- The loop of {lit}`semdelete`, once for each unit below zero. -/
def semdeleteLoop (sem : Int) : Nat → Xinu → Xinu
  | 0, s => s
  | n + 1, s =>
      let s := s.setSem sem fun e => { e with scount := e.scount + 1 }
      let r := s.getfirst (s.semtab sem).squeue
      semdeleteLoop sem n (r.2.ready r.1)

def semdelete (s : Xinu) (sem : Int) : Xinu :=
  if isbadsem sem then s.ret SYSERR
  else if (s.semtab sem).sstate = .free then s.ret SYSERR
  else
    let s := s.push (.ret OK)
    let s := s.setSem sem fun e => { e with sstate := .free }
    let s := s.reschedCntl DEFER_START
    let s := semdeleteLoop sem (-(s.semtab sem).scount).toNat s
    -- the failing test of the loop still increments the count
    let s := s.setSem sem fun e => { e with scount := int32 (e.scount + 1) }
    s.reschedCntl DEFER_STOP

/-!
## Read-write blockers

{lit}`rwblocker.c`, less {lit}`print_rwb_debug` and the log messages, which
change nothing.  The loop that releases readers calls {lit}`ready`, which may
switch, so each of its rounds ends in a frame and the rest of the round runs
when the signalling process is back.
-/

/-- The search of {lit}`newrwb` for a free entry. -/
def newrwbLoop : Nat → Xinu → Int × Xinu
  | 0, s => (SYSERR, s)
  | n + 1, s =>
      let rwb := s.nextrwb
      let nextrwb := if RWB_COUNT ≤ s.nextrwb + 1 then 0 else s.nextrwb + 1
      let s := s.setNextrwb nextrwb
      if (s.rwbtab rwb).rwstate = .free then
        (rwb, s.setRwb rwb fun e => { e with rwstate := .used })
      else newrwbLoop n s

def newrwb (s : Xinu) : Int × Xinu := newrwbLoop RWB_COUNT.toNat s

def rwbcreate (s : Xinu) (count : Int) : Xinu :=
  if count < 0 then s.ret SYSERR
  else
    let r := s.newrwb
    if r.1 = SYSERR then r.2.ret SYSERR
    else (r.2.setRwb r.1 fun e => { e with rwcount := count }).ret r.1

/-- The loop of {lit}`rwbdelete`, once for each unit of {lit}`qcount`. -/
def rwbdeleteLoop (rwb : Int) : Nat → Xinu → Xinu
  | 0, s => s
  | n + 1, s =>
      let s := s.setRwb rwb fun e => { e with qcount := e.qcount - 1 }
      let r := s.getfirst (s.rwbtab rwb).rwqueue
      let s := r.2
      let s := if s.isbadpid r.1 then s else (s.setFlag r.1 0).ready r.1
      rwbdeleteLoop rwb n s

def rwbdelete (s : Xinu) (rwb : Int) : Xinu :=
  if s.isbadrwb rwb then s.ret SYSERR
  else if (s.rwbtab rwb).rwstate = .free then s.ret SYSERR
  else
    let s := s.push (.ret OK)
    let s := s.setRwb rwb fun e => { e with rwstate := .free }
    let s := s.reschedCntl DEFER_START
    let s := rwbdeleteLoop rwb (s.rwbtab rwb).qcount.toNat s
    -- the failing test of the loop still decrements the count
    let s := s.setRwb rwb fun e => { e with qcount := e.qcount - 1 }
    let s := s.setRwb rwb fun e => { e with rwcount := 0 }
    s.reschedCntl DEFER_STOP

/-- The loop of {lit}`rwbreset`: its body is the decrement alone. -/
def rwbresetLoop (rwb rwbqueue : Int) : Nat → Xinu → Int × Xinu
  | 0, s => (EMPTY, s)
  | fuel + 1, s =>
      let r := s.getfirst rwbqueue
      if r.1 = EMPTY then r
      else rwbresetLoop rwb rwbqueue fuel
        (r.2.setRwb rwb fun e => { e with qcount := e.qcount - 1 })

def rwbreset (s : Xinu) (rwb count : Int) : Xinu :=
  if count < 0 ∨ s.isbadrwb rwb ∨ (s.rwbtab rwb).rwstate = .free then s.ret SYSERR
  else
    let s := s.push (.ret OK)
    let rwbqueue := (s.rwbtab rwb).rwqueue
    let s := s.reschedCntl DEFER_START
    let r := rwbresetLoop rwb rwbqueue queueFuel s
    let s := r.2
    let s := if s.isbadpid r.1 then s else (s.setFlag r.1 0).ready r.1
    let s := s.setRwb rwb fun e => { e with rwcount := count }
    s.reschedCntl DEFER_STOP

/-- Put the caller on the blocker's queue and give up the processor. -/
def rwbBlock (s : Xinu) (rwb : Int) : Xinu :=
  let s := s.push (.ret OK)
  let s := s.recordCpuqdata s.currpid
  let s := s.setProc s.currpid fun e =>
    { e with prstate := .wait, prsem := -1 * (rwb + 2) }
  let s := s.setRwb rwb fun e => { e with qcount := e.qcount + 1 }
  let s := s.enqueue s.currpid (s.rwbtab rwb).rwqueue
  s.resched

def rwbTrywrite (s : Xinu) (rwb : Int) : Xinu :=
  if s.isbadrwb rwb then s.ret SYSERR
  else if (s.rwbtab rwb).rwstate = .free then s.ret SYSERR
  else
    let s := s.setFlag s.currpid (-1)
    if (s.rwbtab rwb).rwcount ≠ 0 ∨ 0 < (s.rwbtab rwb).qcount then s.rwbBlock rwb
    else (s.setRwb rwb fun e => { e with rwcount := e.rwcount - 1 }).ret OK

def rwbTryread (s : Xinu) (rwb : Int) : Xinu :=
  if s.isbadrwb rwb then s.ret SYSERR
  else if (s.rwbtab rwb).rwstate = .free then s.ret SYSERR
  else
    let s := s.setFlag s.currpid 1
    if (s.rwbtab rwb).rwcount < 0 ∨ 0 < (s.rwbtab rwb).qcount then s.rwbBlock rwb
    else (s.setRwb rwb fun e => { e with rwcount := e.rwcount + 1 }).ret OK

/-- The end of {lit}`_signalrwb`. -/
def signalrwbEnd (s : Xinu) (thisid : Int) : Xinu :=
  (s.setProc thisid fun e => { e with prsem := -1 }).ret OK

/-- Release the first process of the queue; the given frame is what the
signalling process does after {lit}`ready`. -/
def signalrwbRelease (s : Xinu) (rwb : Int) (after : Frame) : Xinu :=
  let s := s.setRwb rwb fun e => { e with qcount := e.qcount - 1 }
  let r := s.dequeue (s.rwbtab rwb).rwqueue
  (r.2.push after).ready r.1

/-- The loop head of {lit}`_signalrwb`: one more reader, or the end. -/
def signalrwbReaders (s : Xinu) (thisid rwb next_is_writer : Int) : Xinu :=
  if next_is_writer = 1 then s.signalrwbRelease rwb (.rwbReader thisid rwb)
  else s.signalrwbEnd thisid

/-- The rest of a round after {lit}`ready` released a reader. -/
def signalrwbReader (s : Xinu) (thisid rwb : Int) : Xinu :=
  let s := s.setRwb rwb fun e => { e with rwcount := e.rwcount + 1 }
  let nextpid := s.firstid (s.rwbtab rwb).rwqueue
  s.signalrwbReaders thisid rwb (if s.isbadpid nextpid then 0 else s.rwbflags nextpid)

/-- The rest of {lit}`_signalrwb` after {lit}`ready` released a writer. -/
def signalrwbWriter (s : Xinu) (thisid rwb : Int) : Xinu :=
  (s.setRwb rwb fun e => { e with rwcount := e.rwcount - 1 }).signalrwbEnd thisid

/-- {lit}`_signalrwb` once the caller's share is given back. -/
def signalrwbNext (s : Xinu) (thisid rwb : Int) : Xinu :=
  if s.isempty (s.rwbtab rwb).rwqueue then s.signalrwbEnd thisid
  else
    let nextpid := s.firstid (s.rwbtab rwb).rwqueue
    if s.isbadpid nextpid then s.signalrwbEnd thisid
    else
      let next_is_writer := s.rwbflags nextpid
      if next_is_writer = -1 then
        if (s.rwbtab rwb).rwcount = 0 then
          s.signalrwbRelease rwb (.rwbWriter thisid rwb)
        else s.signalrwbEnd thisid
      else s.signalrwbReaders thisid rwb next_is_writer

def _signalrwb (s : Xinu) (thisid rwb : Int) : Xinu :=
  if s.isbadrwb rwb then s.ret SYSERR
  else if s.isbadpid thisid then s.ret SYSERR
  else
    let is_writer := s.rwbflags thisid
    let s := s.setFlag thisid 0
    if (s.rwbtab rwb).rwstate = .free then s.ret SYSERR
    else
      let s := s.setRwb rwb fun e =>
        { e with rwcount := if is_writer = -1 then e.rwcount + 1 else e.rwcount - 1 }
      s.signalrwbNext thisid rwb

def signalrwb (s : Xinu) (rwb : Int) : Xinu := s._signalrwb s.currpid rwb

end Xinu

end BbbXinu
