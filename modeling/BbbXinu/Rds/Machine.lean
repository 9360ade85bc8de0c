import BbbXinu.Lib.LinkedLists
import BbbXinu.Lib.Runs
import BbbXinu.Lib.Turnstiles

/-!
# The remote disk

{lit}`rdsread`, {lit}`rdswrite`, the control functions with {lit}`rdsclose`,
{lit}`rdsbufalloc` and the communication process {lit}`rdsprocess`, on a device that was
opened.  Interrupts are enabled in all of them.  A step goes from one call of the kernel at
which another process may be scheduled ({lit}`wait`, {lit}`signal`, {lit}`send`,
{lit}`receive`, and the exchange with the server) to the next.

Buffers are linked as in the code.  What stands for a failed search is the end of the
list, and a search that has not come to the end after all buffers does not return.

The log is not part of the code.  It has the requests that were put into the queue, and
those that {lit}`rdsprocess` took from there.
-/

namespace BbbXinu
namespace Rds

def RD_BUFFS : Nat := 64

/-- What a pointer to {lit}`struct rdbuff` can be: a buffer, the head or the tail of the
request queue or of the cache, which lie in the control block, or null. -/
inductive Ptr where
  | buf (i : Nat)
  | rhnext
  | rtnext
  | chnext
  | ctnext
  | null
  deriving DecidableEq, Repr

/-- The operations of a request.  Memory that holds no request holds none of them. -/
inductive RdOp where
  | read | write | sync | none
  deriving DecidableEq, Repr

inductive RdStatus where
  | valid | invalid
  deriving DecidableEq, Repr

/-- {lit}`RD_OPEN` and {lit}`RD_FREE`. -/
inductive RdState where
  | opened | free
  deriving DecidableEq, Repr

abbrev Block : Type := Nat → UInt8

/-- {lit}`struct rdbuff` without its links. -/
structure RdBuff where
  op : RdOp
  refcnt : Int
  blknum : UInt32
  status : RdStatus
  pid : Int
  block : Block

/-- What a request is for, and who made it. -/
structure Request where
  op : RdOp
  blknum : UInt32
  pid : Int
  deriving DecidableEq, Repr

def RdBuff.request (n : RdBuff) : Request := { op := n.op, blknum := n.blknum, pid := n.pid }

structure Log where
  asked : List Request
  taken : List Request

/-- What is sent to a process: a pointer to a buffer, or {lit}`OK`. -/
inductive Msg where
  | buffer (bptr : Ptr)
  | ok
  deriving DecidableEq, Repr

/-- Where a process is that uses the disk: outside, waiting in {lit}`rdsbufalloc` on behalf
of a routine, waiting for a message, or in the exchange with the server that deletes the
disk. -/
inductive Phase where
  | idle
  | allocRead (blk : UInt32)
  | allocWrite (blk : UInt32) (buff : Block)
  | allocSync
  | receiving (blk : UInt32)
  | syncing
  | deleting

/-- Where {lit}`rdsprocess` is: at its {lit}`wait` or inside it; in an exchange with the
server; or where it goes on after a {lit}`signal` or a {lit}`send`. -/
inductive Comm where
  | ready
  | waiting
  | reading (bptr : Ptr)
  | answered (bptr : Ptr)
  | told (bptr : Ptr)
  | matched (bptr qptr : Ptr)
  | writing (blk : UInt32) (data : Block)
  | synced (bptr : Ptr)

/-- The control block, the buffers, the processes and the server.  {lit}`msgBlk` is the block
number in the message that {lit}`rdsprocess` builds, and {lit}`buff` the buffer that a
process last gave to {lit}`rdsread`. -/
structure Disk where
  state : RdState
  next : Ptr → Ptr
  prev : Ptr → Ptr
  node : Ptr → RdBuff
  free : Ptr
  availsem : Turnstile Int
  reqsem : Turnstile Unit
  phase : Int → Phase
  mail : Int → Option Msg
  buff : Int → Block
  comm : Comm
  msgBlk : UInt32
  server : UInt32 → Block
  panicked : Bool
  log : Log

/-- The first pointer from {lit}`b` on that passes a test, or the end of the list. -/
def seek (next : Ptr → Ptr) (stop : Ptr) (P : Ptr → Bool) : Nat → Ptr → Option Ptr
  | 0, _ => none
  | n + 1, b => if b = stop then some stop else if P b then some b else seek next stop P n (next b)

namespace Disk

/-!
## Lists
-/

def setPhase (s : Disk) (pid : Int) (ph : Phase) : Disk := { s with phase := upd s.phase pid ph }

def setNode (s : Disk) (b : Ptr) (n : RdBuff) : Disk := { s with node := upd s.node b n }

def setComm (s : Disk) (c : Comm) : Disk := { s with comm := c }

/-- A buffer is taken out of the request queue or the cache. -/
def unlink (s : Disk) (b : Ptr) : Disk :=
  { s with
    next := upd s.next (s.prev b) (s.next b)
    prev := upd s.prev (s.next b) (s.prev b) }

/-- A request is put at the end of the queue. -/
def enqueue (s : Disk) (b : Ptr) : Disk :=
  let pptr := s.prev .rtnext
  { s with
    next := upd (upd s.next b (s.next pptr)) pptr b
    prev := upd (upd s.prev .rtnext b) b pptr }

/-- A buffer is put at the start of the cache. -/
def cache (s : Disk) (b : Ptr) : Disk :=
  let nptr := s.next .chnext
  { s with
    next := upd (upd s.next b nptr) .chnext b
    prev := upd (upd s.prev b .chnext) nptr b }

/-- A buffer is put on the free list. -/
def release (s : Disk) (b : Ptr) : Disk := { s with next := upd s.next b s.free, free := b }

/-- The cache is searched from its head. -/
def seekCache (s : Disk) (P : RdBuff → Bool) : Option Ptr :=
  seek s.next .ctnext (fun b => P (s.node b)) (RD_BUFFS + 1) (s.next .chnext)

/-- The cache is searched from its tail. -/
def seekOldest (s : Disk) (P : RdBuff → Bool) : Option Ptr :=
  seek s.prev .chnext (fun b => P (s.node b)) (RD_BUFFS + 1) (s.prev .ctnext)

/-- The request queue is searched from its head. -/
def seekRequest (s : Disk) (P : RdBuff → Bool) : Option Ptr :=
  seek s.next .rtnext (fun b => P (s.node b)) (RD_BUFFS + 1) (s.next .rhnext)

/-- The request queue is searched from its tail. -/
def seekRecent (s : Disk) (P : RdBuff → Bool) : Option Ptr :=
  seek s.prev .rhnext (fun b => P (s.node b)) (RD_BUFFS + 1) (s.prev .rtnext)

/-!
## Kernel calls
-/

def signalAvail (s : Disk) : Disk := { s with availsem := s.availsem.signal 1 }

def signalReq (s : Disk) : Disk := { s with reqsem := s.reqsem.signal 1 }

/-- {lit}`semreset` of the available semaphore to its count less one, which fails when that
is negative. -/
def reserve (s : Disk) : Disk :=
  if s.availsem.queue.count - 1 < 0 then s
  else { s with availsem := s.availsem.reset (s.availsem.queue.count - 1).toNat }

/-- A process that has a message already gets no other. -/
def send (s : Disk) (pid : Int) (m : Msg) : Disk :=
  if (s.mail pid).isSome then s else { s with mail := upd s.mail pid (some m) }

def recvclr (s : Disk) (pid : Int) : Disk := { s with mail := upd s.mail pid none }

/-!
## Requests
-/

def ask (s : Disk) (r : Request) : Disk :=
  { s with log := { s.log with asked := s.log.asked ++ [r] } }

/-- {lit}`rdsbufalloc` after its wait: the buffer, if there is one.  The test is for
{lit}`rd_refcnt <= 0`. -/
def rdsbufalloc (s : Disk) : Option (Disk × Option Ptr) :=
  if s.free ≠ .null then some ({ s with free := s.next s.free }, some s.free)
  else (s.seekOldest fun n => decide (n.refcnt ≤ 0)).map fun b =>
    if b = .chnext then (s, none) else (s.unlink b, some b)

/-- The end of {lit}`rdswrite`. -/
def putWrite (s : Disk) (pid : Int) (blk : UInt32) (buff : Block) (b : Ptr) : Disk :=
  let n : RdBuff :=
    { block := buff, op := .write, refcnt := 0, blknum := blk, status := .valid, pid := pid }
  ((((s.ask n.request).setNode b n).enqueue b).signalReq).setPhase pid .idle

/-- {lit}`rdsread` from the allocation of a buffer to {lit}`receive`. -/
def putRead (s : Disk) (pid : Int) (blk : UInt32) (b : Ptr) : Disk :=
  let n : RdBuff :=
    { s.node b with op := .read, refcnt := 1, blknum := blk, status := .invalid, pid := pid }
  (((((s.ask n.request).setNode b n).enqueue b).recvclr pid).signalReq).setPhase pid
    (.receiving blk)

/-- The same for a request to synchronize, which does not signal the semaphore: it resumes
the communication process, which is not suspended. -/
def putSync (s : Disk) (pid : Int) (b : Ptr) : Disk :=
  let n : RdBuff :=
    { s.node b with op := .sync, refcnt := 1, blknum := 0, status := .invalid, pid := pid }
  ((((s.ask n.request).setNode b n).enqueue b).recvclr pid).setPhase pid .syncing

/-- {lit}`rdsbufalloc` after its wait, and what its caller does then. -/
def allocThen (s : Disk) (k : Disk → Ptr → Disk) : Option Disk :=
  s.rdsbufalloc.map fun r =>
    match r.2 with
    | some b => k r.1 b
    | none => { r.1 with panicked := true }

/-- A process in {lit}`rdsbufalloc` goes on for its caller. -/
def goOn (s : Disk) (pid : Int) : Phase → Option Disk
  | .allocRead blk => s.allocThen fun s b => s.putRead pid blk b
  | .allocWrite blk buff => s.allocThen fun s b => s.putWrite pid blk buff b
  | .allocSync => s.allocThen fun s b => s.putSync pid b
  | _ => none

/-- {lit}`rdsbufalloc` with its wait. -/
def waitAvail (s : Disk) (pid : Int) (ph : Phase) : Option Disk :=
  let s' := { s with availsem := s.availsem.enter pid }
  if s.availsem.Open then s'.goOn pid ph else some (s'.setPhase pid ph)

/-- What {lit}`rdsread` finds in the cache or in the queue, if it returns from there. -/
def hit (s : Disk) (blk : UInt32) : Option (Option Block) :=
  (s.seekCache fun n => decide (n.blknum = blk)).bind fun c =>
    if c ≠ .ctnext ∧ (s.node c).status = .valid then some (some (s.node c).block)
    else (s.seekRecent fun n => decide (n.blknum = blk)).map fun b =>
      if b ≠ .rhnext ∧ (s.node b).op = .write then some (s.node b).block else none

def setBuff (s : Disk) (pid : Int) (data : Block) : Disk := { s with buff := upd s.buff pid data }

def rdsread (s : Disk) (pid : Int) (blk : UInt32) : Option Disk :=
  if s.state ≠ .opened then some s
  else
    (s.hit blk).bind fun data =>
      match data with
      | some data => some (s.setBuff pid data)
      | none => s.waitAvail pid (.allocRead blk)

/-- {lit}`rdsread` copies its block after {lit}`receive`, and drops its reference. -/
def takeBlock (s : Disk) (pid : Int) (b : Ptr) : Disk :=
  let s := ((s.recvclr pid).setPhase pid .idle).setBuff pid (s.node b).block
  s.setNode b { s.node b with refcnt := (s.node b).refcnt - 1 }

/-- The end of {lit}`rdsread`: an unreferenced buffer is moved to the free list when there is
an earlier one in the cache for the same block. -/
def rdsreadWake (s : Disk) (pid : Int) (blk : UInt32) (b : Ptr) : Option Disk :=
  let s := s.takeBlock pid b
  if (s.node b).refcnt ≤ 0 then
    (seek s.next b (fun c => decide ((s.node c).blknum = blk)) (RD_BUFFS + 1)
      (s.next .chnext)).map fun c => if c = b then s else (s.unlink b).release b
  else some s

/-- The pending write request that {lit}`rdswrite` changes, or the end of the queue. -/
def pendingWrite (s : Disk) (blk : UInt32) : Option Ptr :=
  s.seekRequest fun n => decide (n.blknum = blk ∧ n.op = .write)

/-- The cached copy that {lit}`rdswrite` looks at, or the end of the cache. -/
def cachedCopy (s : Disk) (blk : UInt32) : Option Ptr :=
  s.seekCache fun n => decide (n.blknum = blk)

/-- {lit}`rdswrite` uses an unreferenced cached copy of the block for its request. -/
def Reuses (s : Disk) (c : Ptr) : Prop := c ≠ .ctnext ∧ (s.node c).refcnt ≤ 0

instance (s : Disk) (c : Ptr) : Decidable (s.Reuses c) :=
  inferInstanceAs (Decidable (_ ∧ _))

def rdswrite (s : Disk) (pid : Int) (blk : UInt32) (buff : Block) : Option Disk :=
  if s.state ≠ .opened then some s
  else
    (s.pendingWrite blk).bind fun b =>
      if b ≠ .rtnext then some (s.setNode b { s.node b with block := buff })
      else
        (s.cachedCopy blk).bind fun c =>
          if s.Reuses c then some ((s.unlink c).reserve.putWrite pid blk buff c)
          else s.waitAvail pid (.allocWrite blk buff)

def rdscontrolSync (s : Disk) (pid : Int) : Option Disk :=
  if s.state ≠ .opened then some s else s.waitAvail pid .allocSync

/-- The request to delete the disk does not go through the queue: the process sends it to the
server by itself. -/
def rdscontrolDel (s : Disk) (pid : Int) : Disk :=
  if s.state ≠ .opened then s else s.setPhase pid .deleting

/-- The loop of {lit}`rdsclose` that moves the cache to the free list. -/
def emptyCache : Nat → Ptr → Disk → Option Disk
  | 0, _, _ => none
  | n + 1, b, s =>
      if b = .ctnext then some s
      else
        let s' := (s.unlink b).release b
        emptyCache n (s.next b) (s'.setNode b { s'.node b with status := .invalid })

/-- {lit}`rdsclose` goes on when the device is open and no request is queued. -/
def Closes (s : Disk) : Prop := s.state = .opened ∧ s.next .rhnext = .rtnext

instance (s : Disk) : Decidable s.Closes := inferInstanceAs (Decidable (_ ∧ _))

def rdsclose (s : Disk) : Option Disk :=
  if s.Closes then
    (emptyCache (RD_BUFFS + 1) (s.next .chnext) s).map fun s => { s with state := .free }
  else some s

/-- The server has deleted the disk, or has failed to. -/
def deleted (s : Disk) (pid : Int) (reply : Option (UInt32 → Block)) : Option Disk :=
  match reply with
  | some server => { s.setPhase pid .idle with server := server }.rdsclose
  | none => some (s.setPhase pid .idle)

/-!
## The communication process
-/

/-- A write request is unlinked and cached before it is sent. -/
def takeWrite (s : Disk) (b : Ptr) : Disk :=
  let s' := ({ s with msgBlk := (s.node b).blknum }.unlink b).cache b
  ((s'.setNode b { s'.node b with refcnt := 0 }).signalAvail).setComm
    (.writing (s.node b).blknum (s.node b).block)

def logTaken (s : Disk) (r : Request) : Disk :=
  { s with log := { s.log with taken := s.log.taken ++ [r] } }

/-- {lit}`rdsprocess` after its {lit}`wait`. -/
def take (s : Disk) : Disk :=
  let b := s.next .rhnext
  let s := s.logTaken (s.node b).request
  match (s.node b).op with
  | .read => s.setComm (.reading b)
  | .write => s.takeWrite b
  | .sync => (s.send (s.node b).pid .ok).setComm (.synced b)
  | .none => s.setComm .ready

/-- The server has answered a read request.  It returns the block whose number is in the
message. -/
def readDone (s : Disk) (b : Ptr) : Disk :=
  let s' := ((s.setNode b { s.node b with block := s.server s.msgBlk }).unlink b).cache b
  ((s'.setNode b { s'.node b with refcnt := 1 }).signalAvail).setComm (.answered b)

/-- Another request for the block that was read is looked for, whatever its operation. -/
def sameBlock (s : Disk) (b : Ptr) : Option Ptr :=
  s.seekRequest fun n => decide (n.blknum = (s.node b).blknum)

/-- The first of these requests gets the buffer too. -/
def tellOther (s : Disk) (b : Ptr) : Option Disk :=
  (s.sameBlock b).map fun q =>
    if q = .rtnext then s.setComm .ready
    else
      ((s.setNode b { s.node b with refcnt := (s.node b).refcnt + 1 }).send (s.node q).pid
        (.buffer b)).setComm (.matched b q)

/-- The other request is removed, with the links of the buffer in the cache in place of its
own. -/
def dropOther (s : Disk) (b q : Ptr) : Disk :=
  let next := upd s.next (s.prev q) (s.next b)
  let prev := upd s.prev (s.next q) (s.prev b)
  (({ s with next := next, prev := prev }.release q).signalAvail).setComm .ready

def enterReq (s : Disk) : Disk := { s with reqsem := s.reqsem.enter () }

def resumeReq (s : Disk) : Disk := { s with reqsem := s.reqsem.resume () }

def rdsprocess (s : Disk) : Option Disk :=
  match s.comm with
  | .ready => some (if s.reqsem.Open then s.enterReq.take else s.enterReq.setComm .waiting)
  | .waiting => if () ∈ s.reqsem.granted then some s.resumeReq.take else none
  | .reading b => some (s.readDone b)
  | .answered b => some ((s.send (s.node b).pid (.buffer b)).setComm (.told b))
  | .told b => s.tellOther b
  | .matched b q => some (s.dropOther b q)
  | .writing blk data => some ({ s with server := upd s.server blk data }.setComm .ready)
  | .synced b => some (((s.unlink b).release b).signalAvail.setComm .ready)

end Disk

inductive Label where
  | read (pid : Int) (blk : UInt32)
  | write (pid : Int) (blk : UInt32) (buff : Block)
  | sync (pid : Int)
  | delete (pid : Int)
  | deleted (pid : Int) (reply : Option (UInt32 → Block))
  | alloc (pid : Int)
  | receive (pid : Int)
  | comm

namespace Disk

/-- A process calls a routine when it is outside; one that waits goes on when it was released,
or has a message.  Nothing happens after a panic. -/
def step (s : Disk) (l : Label) : Option Disk :=
  if s.panicked then none
  else
    match l with
    | .read pid blk =>
        match s.phase pid with
        | .idle => s.rdsread pid blk
        | _ => none
    | .write pid blk buff =>
        match s.phase pid with
        | .idle => s.rdswrite pid blk buff
        | _ => none
    | .sync pid =>
        match s.phase pid with
        | .idle => s.rdscontrolSync pid
        | _ => none
    | .delete pid =>
        match s.phase pid with
        | .idle => some (s.rdscontrolDel pid)
        | _ => none
    | .deleted pid reply =>
        match s.phase pid with
        | .deleting => s.deleted pid reply
        | _ => none
    | .alloc pid =>
        if pid ∈ s.availsem.granted then
          { s with availsem := s.availsem.resume pid }.goOn pid (s.phase pid)
        else none
    | .receive pid =>
        match s.phase pid, s.mail pid with
        | .receiving blk, some (.buffer b) => s.rdsreadWake pid blk b
        | .syncing, some _ => some ((s.recvclr pid).setPhase pid .idle)
        | _, _ => none
    | .comm => s.rdsprocess

/-- What {lit}`rdsinit` leaves, with the device open. -/
def init (server : UInt32 → Block) : Disk where
  state := .opened
  next := fun b =>
    match b with
    | .buf i => if i + 1 < RD_BUFFS then .buf (i + 1) else .null
    | .rhnext => .rtnext
    | .chnext => .ctnext
    | _ => .null
  prev := fun b =>
    match b with
    | .rtnext => .rhnext
    | .ctnext => .chnext
    | _ => .null
  node := fun _ => { op := .none, refcnt := 0, blknum := 0, status := .invalid, pid := 0,
                     block := fun _ => 0 }
  free := .buf 0
  availsem := Turnstile.idle RD_BUFFS
  reqsem := Turnstile.idle 0
  phase := fun _ => .idle
  mail := fun _ => none
  buff := fun _ _ => 0
  comm := .ready
  msgBlk := 0
  server := server
  panicked := false
  log := { asked := [], taken := [] }

/-- The message buffer of {lit}`rdsprocess` is not initialized. -/
def Init (s : Disk) : Prop := ∃ server msgBlk, s = { init server with msgBlk := msgBlk }

end Disk

end Rds
end BbbXinu
