import BbbXinu.Lib.Rings
import BbbXinu.Net.Icmp

/-!
# The queues of echo replies are queues

The tail of a queue wraps at {lit}`ICMP_QSIZ` and its head at {lit}`ICMP_SLOTS`, nothing
asks whether a queue is full, and a receiver that wakes up does not look whether there
is a packet.  As long as none of this matters, every queue is first-in first-out.
-/

namespace BbbXinu
namespace Net

open Rings (Ring)

/-- An entry is a queue, none of whose packets is lost, repeated or out of order. -/
def QueueOk (e : IcmpEntry) (log : IcmpLog) : Prop :=
  Rings.Queue ICMP_QSIZ e.icqueue e.ichead e.ictail e.iccount log.queued (log.left.map Prod.fst)

namespace Icmp

/-- What the code relies on without a test: an arriving reply finds room, and a packet that
is taken is there and is not the last entry of the array. -/
def Fine (s : Icmp) : IcmpLabel → Prop
  | .arrive pkt => ∀ slot ∈ s.slotOf pkt, (s.icmptab slot).iccount < ICMP_QSIZ
  | .register _ => True
  | .recv _ icmpid _ => (s.icmptab icmpid).icstate = .used → (s.icmptab icmpid).iccount ≠ 0 →
      (s.icmptab icmpid).ichead + 1 < ICMP_QSIZ
  | .wake pid => ∀ icmpid ∈ s.waits.slot pid, s.waits.message pid = OK →
      0 < (s.icmptab icmpid).iccount ∧ (s.icmptab icmpid).ichead + 1 < ICMP_QSIZ
  | .release icmpid => (s.icmptab icmpid).icstate = .used →
      (s.icmptab icmpid).ichead + (s.icmptab icmpid).iccount < ICMP_QSIZ
  | .message _ _ => True

instance (s : Icmp) (l : IcmpLabel) : Decidable (s.Fine l) :=
  match l with
  | .arrive pkt => inferInstanceAs (Decidable (∀ slot ∈ s.slotOf pkt, _ < _))
  | .register _ => inferInstanceAs (Decidable True)
  | .recv _ _ _ => inferInstanceAs (Decidable (_ = _ → _ ≠ _ → _ < _))
  | .wake pid => inferInstanceAs (Decidable (∀ icmpid ∈ s.waits.slot pid, _ = OK → _ ∧ _))
  | .release _ => inferInstanceAs (Decidable (_ = _ → _ < _))
  | .message _ _ => inferInstanceAs (Decidable True)

def QueuesOk (s : Icmp) : Prop := ∀ slot, QueueOk (s.icmptab slot) (s.log slot)

end Icmp

/-!
## One entry
-/

section Entry

variable {e : IcmpEntry} {log : IcmpLog}

theorem QueueOk.enqueue (h : QueueOk e log) (pkt : Packet) (hroom : e.iccount < ICMP_QSIZ) :
    QueueOk (e.enqueue pkt) { log with queued := log.queued ++ [pkt] } :=
  h.push pkt hroom

theorem QueueOk.register (remip : UInt32) :
    QueueOk (e.register remip) { queued := [], left := [] } :=
  Rings.Queue.nil (show 0 < ICMP_QSIZ by decide)

/-- The first packet is taken out.  The head does not come to where it wraps. -/
theorem QueueOk.dequeue (h : QueueOk e log) (way : Leave) (hpos : 0 < e.iccount)
    (hhead : e.ichead + 1 < ICMP_QSIZ) :
    QueueOk e.dequeue { log with left := log.left ++ [(e.icqueue e.ichead, way)] } := by
  have hslots : ¬ICMP_SLOTS ≤ (e.ichead : Int) + 1 := by
    unfold ICMP_SLOTS
    unfold ICMP_QSIZ at hhead
    omega
  have hnext : e.dequeue.ichead = Rings.next ICMP_QSIZ e.ichead :=
    (if_neg hslots).trans (if_neg (by omega)).symm
  have hpop := h.pop hpos
  unfold QueueOk
  rw [hnext, List.map_append]
  exact hpop

/-- All packets are taken out. -/
theorem QueueOk.drain {n : Nat} (h : QueueOk e log) (hn : (n : Int) = e.iccount)
    (hhead : e.ichead + n < ICMP_QSIZ) :
    QueueOk (e.drain n).1
      { log with left := log.left ++ (e.drain n).2.map fun p => (p, .freed) } := by
  induction n generalizing e log with
  | zero =>
      change QueueOk e { log with left := log.left ++ [] }
      rw [List.append_nil]
      exact h
  | succ n ih =>
      have hstep := h.dequeue .freed (by omega) (by omega)
      have hhead' : e.dequeue.ichead = e.ichead + 1 := by
        unfold ICMP_QSIZ at hhead
        exact if_neg (by unfold ICMP_SLOTS; omega)
      have hrest := ih hstep (by change (n : Int) = e.iccount - 1; omega)
        (by rw [hhead']; omega)
      rw [List.append_assoc] at hrest
      exact hrest

end Entry

/-!
## The table
-/

section Steps

variable {s s' : Icmp} {l : IcmpLabel}

theorem Icmp.QueuesOk.set {slot : Int} {e : IcmpEntry} {log : IcmpLog} (h : s.QueuesOk)
    (he : QueueOk e log) : ((s.setEntry slot e).setLog slot log).QueuesOk := by
  intro i
  by_cases hi : i = slot
  · rw [hi]
    change QueueOk (upd s.icmptab slot e slot) (upd s.log slot log slot)
    rw [upd_self, upd_self]
    exact he
  · change QueueOk (upd s.icmptab slot e i) (upd s.log slot log i)
    rw [upd_of_ne hi, upd_of_ne hi]
    exact h i

theorem Icmp.QueuesOk.setState (h : s.QueuesOk) (slot : Int) (st : IcState) (pid : Int) :
    (s.setEntry slot { s.icmptab slot with icstate := st, icpid := pid }).QueuesOk := by
  intro i
  by_cases hi : i = slot
  · rw [hi]
    change QueueOk (upd s.icmptab slot _ slot) _
    rw [upd_self]
    exact h slot
  · change QueueOk (upd s.icmptab slot _ i) _
    rw [upd_of_ne hi]
    exact h i

theorem Icmp.QueuesOk.icmpIn {pkt : Packet} (h : s.QueuesOk) (hfine : s.Fine (.arrive pkt)) :
    (s.icmpIn pkt).QueuesOk := by
  unfold Icmp.icmpIn
  cases hslot : s.slotOf pkt with
  | none => exact h
  | some slot =>
      have hok := (h slot).enqueue pkt (hfine slot hslot)
      dsimp only
      split
      · exact h.set hok
      · exact h.set hok

theorem Icmp.QueuesOk.icmpTake {icmpid : Int} (h : s.QueuesOk)
    (hpos : 0 < (s.icmptab icmpid).iccount)
    (hhead : (s.icmptab icmpid).ichead + 1 < ICMP_QSIZ) : (s.icmpTake icmpid).QueuesOk :=
  h.set ((h icmpid).dequeue .returned hpos hhead)

theorem Icmp.QueuesOk.step (h : s.QueuesOk) (hfine : s.Fine l) (hs : s.step l = some s') :
    s'.QueuesOk := by
  cases l with
  | arrive pkt =>
      cases hs
      exact h.icmpIn hfine
  | register remip =>
      cases hs
      unfold Icmp.icmpRegister
      cases s.freeslot remip with
      | none => exact h
      | some slot => exact h.set (QueueOk.register remip)
  | recv pid icmpid maxwait =>
      obtain ⟨-, hs⟩ := Option.ite_none_right_eq_some.mp hs
      cases hs
      unfold Icmp.icmpRecv
      split
      · exact h
      · split
        · exact h
        · rename_i hused
          split
          · split
            · exact h.setState icmpid .used pid
            · exact h.setState icmpid .recv pid
          · rename_i hne
            have hnonneg := (h icmpid).count_nonneg
            exact h.icmpTake (by omega) (hfine (not_not.mp hused) hne)
  | wake pid =>
      obtain ⟨icmpid, hwait, rfl⟩ := Option.map_eq_some_iff.mp hs
      have hset := h.setState icmpid .used (s.icmptab icmpid).icpid
      unfold Icmp.icmpWake
      dsimp only
      split
      · exact hset
      · split
        · exact hset
        · rename_i hok
          have hf := hfine icmpid hwait (not_not.mp hok)
          refine Icmp.QueuesOk.icmpTake hset ?_ ?_
          · change 0 < (upd s.icmptab icmpid _ icmpid).iccount
            rw [upd_self]
            exact hf.1
          · change (upd s.icmptab icmpid _ icmpid).ichead + 1 < _
            rw [upd_self]
            exact hf.2
  | release icmpid =>
      cases hs
      unfold Icmp.icmpRelease
      split
      · exact h
      · split
        · exact h
        · rename_i hused
          have hnonneg := (h icmpid).count_nonneg
          have hf := hfine (not_not.mp hused)
          exact h.set ((h icmpid).drain (n := (s.icmptab icmpid).iccount.toNat) (by omega)
            (by omega))
  | message pid msg =>
      cases hs
      exact h

end Steps

/-!
## Runs
-/

/-- In every run in which what the code relies on holds at each step, every slot is a
first-in first-out queue: its indices are inside the array, and what was queued is what
left, in the same order, followed by what is there. -/
theorem icmp_queues_fifo {s : Icmp}
    (h : Runs.Reach Icmp.step Icmp.Fine Icmp.Init s) (slot : Int) :
    (s.icmptab slot).ichead < ICMP_QSIZ ∧ (s.icmptab slot).ictail < ICMP_QSIZ ∧
      ∃ l, Ring ICMP_QSIZ (s.icmptab slot).icqueue (s.icmptab slot).ichead
          (s.icmptab slot).ictail l ∧
        (s.icmptab slot).iccount = l.length ∧
        (s.log slot).queued = (s.log slot).left.map Prod.fst ++ l := by
  have hok : s.QueuesOk := by
    refine h.invariant ?_ fun s l s' _ hI hfine hs => hI.step hfine hs
    intro _ hinit slot
    rw [hinit]
    exact Rings.Queue.nil (show 0 < ICMP_QSIZ by decide)
  exact ⟨(hok slot).head_lt, (hok slot).tail_lt, (hok slot).exists_ring⟩

/-- An echo reply from an address, in host byte order. -/
def echoReply (ipsrc : UInt8) (slot : UInt8) : Packet :=
  fun i => if i = net_ipsrc then ipsrc else if i = net_icident then slot else 0

/-- A slot is registered, and a number of replies is received one after the other. -/
def pings (n : Nat) : List IcmpLabel :=
  .register 7 :: (List.replicate n [.arrive (echoReply 7 0), .recv 3 0 100]).flatten

/-- Seven pings go well. -/
theorem icmp_queues_fifo_seven :
    ∃ s : Icmp, (s.log 0).left.length = 7 ∧ (s.icmptab 0).ichead < ICMP_QSIZ := by
  obtain ⟨s, hs, hleft⟩ := Runs.exists_reach_of_follow Icmp.step Icmp.Fine
    (show Icmp.Init Icmp.init from rfl) (pings 7) (fun s => (s.log 0).left.length = 7)
    (by decide +kernel)
  exact ⟨s, hleft, (icmp_queues_fifo hs 0).1⟩

/-- After the eighth the head is outside the array. -/
theorem icmp_head_outside :
    ∃ s, Runs.Reach Icmp.step (fun _ _ => True) Icmp.Init s ∧
      ¬(s.icmptab 0).ichead < ICMP_QSIZ :=
  Runs.exists_reach_of_follow Icmp.step (fun _ _ => True) (show Icmp.Init Icmp.init from rfl)
    (pings 8) _ (by decide +kernel)

end Net
end BbbXinu
