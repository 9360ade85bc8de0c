import BbbXinu.Kernel.State

/-!
# Queue operations

{lit}`queue.c`, {lit}`getitem.c`, {lit}`insert.c`, {lit}`insertd.c` and
{lit}`newqueue.c`.  The search loops follow forward links; no list is longer
than the queue table, so they run on that much fuel.  The values that
{lit}`enqueue` and {lit}`insert` return are not used by any caller.
-/

namespace BbbXinu

namespace Xinu

/-- Iterations that suffice for every walk along a list of the queue table. -/
def queueFuel : Nat := 328

def getitem (s : Xinu) (pid : Int) : Xinu :=
  let next := (s.queuetab pid).qnext
  let prev := (s.queuetab pid).qprev
  let s := s.setQueue prev fun e => { e with qnext := next }
  s.setQueue next fun e => { e with qprev := prev }

def getfirst (s : Xinu) (q : Int) : Int × Xinu :=
  if s.isempty q then (EMPTY, s)
  else
    let pid := s.firstid q
    (pid, s.getitem pid)

def enqueue (s : Xinu) (pid q : Int) : Xinu :=
  if isbadqid q ∨ s.isbadpid pid then s
  else
    let tail := queuetail q
    let prev := (s.queuetab tail).qprev
    let s := s.setQueue pid fun e => { e with qnext := tail, qprev := prev }
    let s := s.setQueue prev fun e => { e with qnext := pid }
    s.setQueue tail fun e => { e with qprev := pid }

def dequeue (s : Xinu) (q : Int) : Int × Xinu :=
  if isbadqid q then (SYSERR, s)
  else if s.isempty q then (EMPTY, s)
  else
    let r := s.getfirst q
    (r.1, r.2.setQueue r.1 fun e => { e with qprev := EMPTY, qnext := EMPTY })

/-- The search of {lit}`insert`: first node whose key is smaller. -/
def insertSearch (s : Xinu) (key : Int) : Nat → Int → Int
  | 0, curr => curr
  | fuel + 1, curr =>
      if key ≤ (s.queuetab curr).qkey then
        insertSearch s key fuel (s.queuetab curr).qnext
      else curr

def insert (s : Xinu) (pid q key : Int) : Xinu :=
  if isbadqid q ∨ s.isbadpid pid then s
  else
    let curr := s.insertSearch key queueFuel (s.firstid q)
    let prev := (s.queuetab curr).qprev
    let s := s.setQueue pid fun _ => { qnext := curr, qprev := prev, qkey := key }
    let s := s.setQueue prev fun e => { e with qnext := pid }
    s.setQueue curr fun e => { e with qprev := pid }

/-- The search of {lit}`insertd`: the insertion point and the key left over. -/
def insertdSearch (s : Xinu) (q : Int) : Nat → Int → Int → Int → Int × Int × Int
  | 0, prev, next, key => (prev, next, key)
  | fuel + 1, prev, next, key =>
      if next ≠ queuetail q ∧ (s.queuetab next).qkey ≤ key then
        insertdSearch s q fuel next (s.queuetab next).qnext
          (int32 (key - (s.queuetab next).qkey))
      else (prev, next, key)

def insertd (s : Xinu) (pid q key : Int) : Int × Xinu :=
  if isbadqid q ∨ s.isbadpid pid then (SYSERR, s)
  else
    let found := s.insertdSearch q queueFuel (queuehead q) (s.firstid q) key
    let prev := found.1
    let next := found.2.1
    let key := found.2.2
    let s := s.setQueue pid fun _ => { qnext := next, qprev := prev, qkey := key }
    let s := s.setQueue prev fun e => { e with qnext := pid }
    let s := s.setQueue next fun e => { e with qprev := pid }
    let s :=
      if next ≠ queuetail q then
        s.setQueue next fun e => { e with qkey := int32 (e.qkey - key) }
      else s
    (OK, s)

/-- Empty the destination of {lit}`copyqueue`. -/
def drainQueue (q : Int) : Nat → Xinu → Xinu
  | 0, s => s
  | fuel + 1, s => if s.isempty q then s else drainQueue q fuel (s.dequeue q).2

def copyqueue (s : Xinu) (srcq destq : Int) : Xinu :=
  let s := drainQueue destq queueFuel s
  let firstid := s.firstid srcq
  let lastid := s.lastid srcq
  let s := s.setQueue (queuehead srcq) fun e => { e with qnext := queuetail srcq }
  let s := s.setQueue (queuetail srcq) fun e => { e with qprev := queuehead srcq }
  let s := s.setQueue (queuehead destq) fun e => { e with qnext := firstid }
  let s := s.setQueue firstid fun e => { e with qprev := queuehead destq }
  let s := s.setQueue (queuetail destq) fun e => { e with qprev := lastid }
  s.setQueue lastid fun e => { e with qnext := queuetail destq }

def newqueue (s : Xinu) : Int × Xinu :=
  let q := s.nextqid
  if NQENT < q then (SYSERR, s)
  else
    let s := s.setNextqid (s.nextqid + 2)
    let s := s.setQueue (queuehead q) fun _ =>
      { qnext := queuetail q, qprev := EMPTY, qkey := MAXKEY }
    let s := s.setQueue (queuetail q) fun _ =>
      { qnext := EMPTY, qprev := queuehead q, qkey := MINKEY }
    (q, s)

end Xinu

end BbbXinu
