import BbbXinu.Lib.Rings
import BbbXinu.Net.Udp

/-!
# The queues of the UDP endpoints

A receiver that wakes up relies on the state of its slot: it takes the slot to be
registered still, and a message {lit}`OK` to mean that a packet is there.  As long as
this is so, every slot is a first-in first-out queue, and stays released when it was.
-/

namespace BbbXinu
namespace Net

open Rings (Ring)

/-- An entry is a queue, none of whose packets is lost, repeated or out of order, and it is
free when it was released. -/
structure UdpOk (e : UdpEntry) (log : UdpLog) : Prop where
  queue : Rings.Queue UDP_QSIZ e.udqueue e.udhead e.udtail e.udcount log.queued
    (log.left.map Prod.fst)
  released : log.registered = false → e.udstate = .free

namespace Udp

/-- A receiver that wakes up finds its slot registered, and with the message {lit}`OK` it
finds a packet. -/
def Fine (s : Udp) : UdpLabel → Prop
  | .wake pid => ∀ slot ∈ s.waits.slot pid, (s.udptab slot).udstate ≠ .free ∧
      (s.waits.message pid = OK → 0 < (s.udptab slot).udcount)
  | _ => True

instance (s : Udp) (label : UdpLabel) : Decidable (s.Fine label) :=
  match label with
  | .wake pid => inferInstanceAs (Decidable (∀ slot ∈ s.waits.slot pid, _ ≠ _ ∧ (_ = _ → _ < _)))
  | .arrive _ | .register _ _ _ | .recv _ _ _ | .release _ | .message _ _ =>
      inferInstanceAs (Decidable True)

def QueuesOk (s : Udp) : Prop := ∀ slot, UdpOk (s.udptab slot) (s.log slot)

end Udp

/-!
## One entry
-/

section Entry

variable {e : UdpEntry} {log : UdpLog}

theorem UdpOk.dequeue (h : UdpOk e log) (way : Departure) (hpos : 0 < e.udcount) :
    UdpOk e.dequeue { log with left := log.left ++ [(e.udqueue e.udhead, way)] } := by
  refine ⟨?_, h.released⟩
  have hpop := h.queue.pop hpos
  dsimp only
  rw [List.map_append]
  exact hpop

/-- All packets are taken out. -/
theorem UdpOk.drain {n : Nat} (h : UdpOk e log) (hn : (n : Int) = e.udcount) :
    UdpOk (e.drain n).1
      { log with left := log.left ++ (e.drain n).2.map fun p => (p, .freed) } := by
  induction n generalizing e log with
  | zero =>
      change UdpOk e { log with left := log.left ++ [] }
      rw [List.append_nil]
      exact h
  | succ n ih =>
      have hrest := ih (h.dequeue .freed (by omega)) (by change (n : Int) = e.udcount - 1; omega)
      rw [List.append_assoc] at hrest
      exact hrest

end Entry

/-!
## The table
-/

section Steps

variable {s s' : Udp} {label : UdpLabel} {slot pid : Int} {e : UdpEntry} {log : UdpLog}

theorem Udp.QueuesOk.set (h : s.QueuesOk) (he : UdpOk e log) :
    ((s.setEntry slot e).setLog slot log).QueuesOk := by
  intro i
  by_cases hi : i = slot
  · rw [hi]
    change UdpOk (upd s.udptab slot e slot) (upd s.log slot log slot)
    rw [upd_self, upd_self]
    exact he
  · change UdpOk (upd s.udptab slot e i) (upd s.log slot log i)
    rw [upd_of_ne hi, upd_of_ne hi]
    exact h i

/-- The state of a registered slot may change. -/
theorem Udp.QueuesOk.setState {st : UdState} {owner : Int} (h : s.QueuesOk)
    (hused : (s.udptab slot).udstate ≠ .free) :
    (s.setEntry slot { s.udptab slot with udstate := st, udpid := owner }).QueuesOk := by
  intro i
  by_cases hi : i = slot
  · rw [hi]
    change UdpOk (upd s.udptab slot _ slot) _
    rw [upd_self]
    exact ⟨(h slot).queue, fun hreleased => absurd ((h slot).released hreleased) hused⟩
  · change UdpOk (upd s.udptab slot _ i) _
    rw [upd_of_ne hi]
    exact h i

theorem Udp.slotOf_matches {pktptr : Packet} (h : s.slotOf pktptr = some slot) :
    (s.udptab slot).udstate ≠ .free ∧ (s.udptab slot).udcount < UDP_QSIZ := by
  have hfound : (s.udptab slot).Matches pktptr ∧ (s.udptab slot).udcount < UDP_QSIZ := by
    unfold Udp.slotOf at h
    have hdec := List.find?_some h
    exact of_decide_eq_true hdec
  exact ⟨hfound.1.1, hfound.2⟩

theorem Udp.QueuesOk.udpIn {pktptr : Packet} (h : s.QueuesOk) : (s.udpIn pktptr).QueuesOk := by
  unfold Udp.udpIn
  cases hslot : s.slotOf pktptr with
  | none => exact h
  | some slot =>
      obtain ⟨hused, hroom⟩ := Udp.slotOf_matches hslot
      have hpush := (h slot).queue.push pktptr hroom
      have hopen : (s.log slot).registered = false → False :=
        fun hreleased => hused ((h slot).released hreleased)
      dsimp only
      split
      · exact h.set ⟨hpush, fun hreleased => (hopen hreleased).elim⟩
      · exact h.set ⟨hpush, fun hreleased => (hopen hreleased).elim⟩

theorem Udp.QueuesOk.take (h : s.QueuesOk) (hpos : 0 < (s.udptab slot).udcount) :
    (s.take pid slot).QueuesOk :=
  h.set ((h slot).dequeue (.received pid) hpos)

theorem Udp.QueuesOk.udpRecv {maxwait : Int} (h : s.QueuesOk) :
    (s.udpRecv pid slot maxwait).QueuesOk := by
  unfold Udp.udpRecv
  split
  · exact h
  · split
    · exact h
    · rename_i hused
      have hne : (s.udptab slot).udstate ≠ .free := by
        rw [not_not.mp hused]
        exact nofun
      split
      · split
        · exact h.setState hne
        · exact h.setState hne
      · have hnonneg := (h slot).queue.count_nonneg
        exact h.take (by omega)

theorem Udp.QueuesOk.udpWake (h : s.QueuesOk) (hused : (s.udptab slot).udstate ≠ .free)
    (hpos : s.waits.message pid = OK → 0 < (s.udptab slot).udcount) :
    (s.udpWake pid slot).QueuesOk := by
  have hset : (s.setEntry slot { s.udptab slot with udstate := .used }).QueuesOk :=
    h.setState hused
  unfold Udp.udpWake
  dsimp only
  split
  · exact hset
  · split
    · exact hset
    · rename_i hok
      refine Udp.QueuesOk.take hset ?_
      change 0 < (upd s.udptab slot _ slot).udcount
      rw [upd_self]
      exact hpos (not_not.mp hok)

theorem Udp.QueuesOk.udpRelease (h : s.QueuesOk) : (s.udpRelease slot).QueuesOk := by
  unfold Udp.udpRelease
  split
  · exact h
  · split
    · exact h
    · have hnonneg := (h slot).queue.count_nonneg
      have hdrain := (h slot).drain (n := (s.udptab slot).udcount.toNat) (by omega)
      exact h.set ⟨hdrain.queue, fun _ => rfl⟩

theorem Udp.QueuesOk.step (h : s.QueuesOk) (hfine : s.Fine label)
    (hs : s.step label = some s') : s'.QueuesOk := by
  cases label with
  | arrive pktptr =>
      cases hs
      exact h.udpIn
  | register remip remport locport =>
      cases hs
      unfold Udp.udpRegister
      cases s.freeSlot remip remport locport with
      | none => exact h
      | some slot => exact h.set ⟨Rings.Queue.nil (show 0 < UDP_QSIZ by decide), nofun⟩
  | recv pid slot maxwait =>
      obtain ⟨-, hs⟩ := Option.ite_none_right_eq_some.mp hs
      cases hs
      exact h.udpRecv
  | wake pid =>
      obtain ⟨slot, hwait, rfl⟩ := Option.map_eq_some_iff.mp hs
      obtain ⟨hused, hpos⟩ := hfine slot hwait
      exact h.udpWake hused hpos
  | release slot =>
      cases hs
      exact h.udpRelease
  | message pid msg =>
      cases hs
      exact h

end Steps

/-!
## Runs
-/

/-- In every run in which a receiver that wakes up finds its slot registered, and a packet
there when its message is {lit}`OK`, every slot is a first-in first-out queue of as many
packets as it counts, at most {lit}`UDP_QSIZ`; what was queued left once, in this order,
to one receiver or to be freed; and a released slot stays free until it is registered. -/
theorem udp_queues_fifo {s : Udp} (h : Runs.Reach Udp.step Udp.Fine Udp.Init s) (slot : Int) :
    (∃ l, Ring UDP_QSIZ (s.udptab slot).udqueue (s.udptab slot).udhead (s.udptab slot).udtail l ∧
        (s.udptab slot).udcount = l.length ∧ l.length ≤ UDP_QSIZ ∧
        (s.log slot).queued = (s.log slot).left.map Prod.fst ++ l) ∧
      ((s.log slot).registered = false → (s.udptab slot).udstate = .free) := by
  have hok : s.QueuesOk := by
    refine h.invariant ?_ fun s label s' _ hI hfine hs => hI.step hfine hs
    intro _ hinit slot
    rw [hinit]
    exact ⟨Rings.Queue.nil (show 0 < UDP_QSIZ by decide), fun _ => rfl⟩
  obtain ⟨l, hring, hcount, hlog⟩ := (hok slot).queue.exists_ring
  exact ⟨⟨l, hring, hcount, hring.length_le, hlog⟩, (hok slot).released⟩

/-- A datagram to a local port, with its headers in host byte order. -/
def datagram (port payload : UInt8) : Packet :=
  fun i => if i = net_udpdport then port else if i = 42 then payload else 0

/-- A receiver waits, two packets arrive, and it and another one take them. -/
theorem udp_queues_fifo_two : ∃ s : Udp, (s.log 0).left.map Prod.snd = [.received 1, .received 2] ∧
    (s.udptab 0).udcount = 0 ∧ ∃ l : List Packet, (s.udptab 0).udcount = l.length := by
  obtain ⟨s, hs, hleft⟩ := Runs.exists_reach_of_follow Udp.step Udp.Fine
    (show Udp.Init Udp.init from rfl)
    [.register 0 0 7, .recv 1 0 100, .arrive (datagram 7 1), .arrive (datagram 7 2), .wake 1,
      .recv 2 0 100]
    (fun s => (s.log 0).left.map Prod.snd = [.received 1, .received 2] ∧ (s.udptab 0).udcount = 0)
    (by decide +kernel)
  obtain ⟨⟨l, _, hcount, _⟩, _⟩ := udp_queues_fifo hs 0
  exact ⟨s, hleft.1, hleft.2, l, hcount⟩

/-- A packet arrives for a receiver that waits, and another one takes it first. -/
theorem udp_queue_underrun :
    ∃ s, Runs.Reach Udp.step (fun _ _ => True) Udp.Init s ∧ (s.udptab 0).udcount = -1 :=
  Runs.exists_reach_of_follow Udp.step (fun _ _ => True) (show Udp.Init Udp.init from rfl)
    [.register 0 0 7, .recv 1 0 100, .arrive (datagram 7 1), .recv 2 0 100, .wake 1] _
    (by decide +kernel)

end Net
end BbbXinu
