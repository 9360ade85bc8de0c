import BbbXinu.Lib.Rings
import BbbXinu.Net.Icmp

/-!
# The IP output queue is a queue

{lit}`ip_enqueue` takes the count of the semaphore for the number of packets.  The count
is one less while {lit}`ipout` has been let through and has not yet taken its packet.
-/

namespace BbbXinu
namespace Net
namespace IpQueue

open Rings (Ring)

/-- Where {lit}`ipout` is past the semaphore, but still before the packet. -/
def Between (s : IpQueue) : Prop := s.phase = .taking ∨ s.iqsem.granted ≠ []

instance (s : IpQueue) : Decidable s.Between := inferInstanceAs (Decidable (_ ∨ _))

/-- No packet is put into the queue while the count is one below the limit and
{lit}`ipout` is about to take a packet. -/
def Fine (s : IpQueue) : IpQueueLabel → Prop
  | .enqueue _ => s.iqsem.queue.count + 1 = IP_OQSIZ → ¬s.Between
  | _ => True

instance (s : IpQueue) (l : IpQueueLabel) : Decidable (s.Fine l) :=
  match l with
  | .enqueue _ => inferInstanceAs (Decidable (_ = _ → ¬_))
  | .wait | .wake | .take => inferInstanceAs (Decidable True)

/-- The packets in the queue.  As many as the second number says are spoken for, and
the third number says whether {lit}`ipout` is in its wait. -/
structure Holds (s : IpQueue) (l : List Nat) (passing waiting : Nat) : Prop where
  ring : Ring IP_OQSIZ s.iqbuf s.iqhead s.iqtail l
  units : s.iqsem.units + passing = l.length
  inside : s.iqsem.inside.length = waiting
  order : s.enqueued = s.taken ++ l

/-- Past the wait {lit}`ipout` has a packet, and in the wait it is the only one. -/
def Sound (s : IpQueue) (l : List Nat) : Prop :=
  match s.phase with
  | .sending => s.Holds l 0 0
  | .waiting => s.Holds l 0 1
  | .taking => s.Holds l 1 0

section Steps

variable {s s' : IpQueue} {l : List Nat} {passing waiting : Nat}

theorem Holds.enqueue (h : s.Holds l passing waiting) (pktptr : Nat) (hroom : l.length < IP_OQSIZ)
    (hcount : ¬(IP_OQSIZ : Int) ≤ s.iqsem.queue.count) :
    (s.ipEnqueue pktptr).Holds (l ++ [pktptr]) passing waiting := by
  unfold ipEnqueue
  rw [if_neg hcount]
  refine ⟨h.ring.push hroom, ?_, Turnstile.length_signal.trans h.inside, ?_⟩
  · have hunits := h.units
    change (s.iqsem.signal 1).units + passing = _
    rw [Turnstile.units_signal, List.length_append, List.length_singleton]
    omega
  · change s.enqueued ++ [pktptr] = _
    rw [h.order, List.append_assoc]

/-- While {lit}`ip_enqueue` is not refused and the step is fine, there is room. -/
theorem Sound.room (h : s.Sound l) (hfine : s.iqsem.queue.count + 1 = IP_OQSIZ → ¬s.Between)
    (hcount : ¬(IP_OQSIZ : Int) ≤ s.iqsem.queue.count) : l.length < IP_OQSIZ := by
  have hsized := s.iqsem.queue.sized
  have hlen : s.iqsem.inside.length = s.iqsem.queue.waiters.length + s.iqsem.granted.length :=
    List.length_append
  unfold Sound at h
  cases hphase : s.phase with
  | sending =>
      rw [hphase] at h
      have hunits := h.units
      have hinside := h.inside
      unfold Turnstile.units at hunits
      omega
  | waiting =>
      rw [hphase] at h
      have hunits := h.units
      have hinside := h.inside
      unfold Turnstile.units at hunits
      by_contra hfull
      have hfree : s.iqsem.granted = [] := by
        by_contra hne
        exact hfine (by omega) (Or.inr hne)
      rw [hfree, List.length_nil] at hlen
      unfold IP_OQSIZ at *
      omega
  | taking =>
      rw [hphase] at h
      have hunits := h.units
      have hinside := h.inside
      unfold Turnstile.units at hunits
      by_contra hfull
      exact hfine (by omega) (Or.inl hphase)

theorem Sound.enqueue {pktptr : Nat} (h : s.Sound l) (hfine : s.Fine (.enqueue pktptr)) :
    ∃ l', (s.ipEnqueue pktptr).Sound l' := by
  by_cases hcount : (IP_OQSIZ : Int) ≤ s.iqsem.queue.count
  · refine ⟨l, ?_⟩
    unfold ipEnqueue
    rw [if_pos hcount]
    exact h
  · have hroom := h.room hfine hcount
    have hphase : (s.ipEnqueue pktptr).phase = s.phase := by
      unfold ipEnqueue
      rw [if_neg hcount]
    refine ⟨l ++ [pktptr], ?_⟩
    unfold Sound at h ⊢
    rw [hphase]
    cases hp : s.phase with
    | sending =>
        rw [hp] at h
        exact h.enqueue pktptr hroom hcount
    | waiting =>
        rw [hp] at h
        exact h.enqueue pktptr hroom hcount
    | taking =>
        rw [hp] at h
        exact h.enqueue pktptr hroom hcount

theorem Holds.wait (h : s.Holds l 0 0) : s.ipoutWait.Sound l := by
  have hunits := h.units
  have hinside := h.inside
  unfold ipoutWait
  by_cases hopen : s.iqsem.Open
  · rw [if_pos hopen]
    refine ⟨h.ring, ?_, ?_, h.order⟩
    · change (s.iqsem.enter ()).units + 1 = _
      rw [Turnstile.units_enter_open hopen]
      omega
    · change (s.iqsem.enter ()).inside.length = 0
      rw [Turnstile.inside_enter_open hopen, hinside]
  · rw [if_neg hopen]
    refine ⟨h.ring, ?_, ?_, h.order⟩
    · change (s.iqsem.enter ()).units + 0 = _
      rw [Turnstile.units_enter_closed hopen]
      exact hunits
    · change (s.iqsem.enter ()).inside.length = 1
      rw [Turnstile.length_enter_closed hopen, hinside]

theorem Holds.take (h : s.Holds l 1 0) : ∃ l', s.ipoutTake.Sound l' := by
  have hunits := h.units
  have hnonneg := s.iqsem.units_nonneg
  cases l with
  | nil =>
      rw [List.length_nil] at hunits
      omega
  | cons p l =>
      refine ⟨l, h.ring.pop, ?_, h.inside, ?_⟩
      · rw [List.length_cons] at hunits
        change s.iqsem.units + 0 = l.length
        omega
      · change s.enqueued = s.taken ++ [s.iqbuf s.iqhead] ++ l
        rw [h.order, h.ring.first, List.append_assoc]
        rfl

theorem Sound.step {label : IpQueueLabel} (h : s.Sound l) (hfine : s.Fine label)
    (hs : s.step label = some s') : ∃ l', s'.Sound l' := by
  cases label with
  | enqueue pktptr =>
      cases hs
      exact h.enqueue hfine
  | wait =>
      obtain ⟨hphase, hs⟩ := Option.ite_none_right_eq_some.mp hs
      cases hs
      unfold Sound at h
      rw [hphase] at h
      exact ⟨l, h.wait⟩
  | wake =>
      obtain ⟨⟨hphase, hmem⟩, hs⟩ := Option.ite_none_right_eq_some.mp hs
      cases hs
      unfold Sound at h
      rw [hphase] at h
      have hunits := h.units
      have hinside := h.inside
      have hlen := Turnstile.length_resume hmem
      refine ⟨l, h.ring, ?_, ?_, h.order⟩
      · change (s.iqsem.resume ()).units + 1 = _
        rw [Turnstile.units_resume hmem]
        omega
      · change (s.iqsem.resume ()).inside.length = 0
        omega
  | take =>
      obtain ⟨hphase, hs⟩ := Option.ite_none_right_eq_some.mp hs
      cases hs
      unfold Sound at h
      rw [hphase] at h
      exact h.take

theorem Sound.holds (h : s.Sound l) : ∃ passing waiting, s.Holds l passing waiting := by
  unfold Sound at h
  cases hphase : s.phase with
  | sending =>
      rw [hphase] at h
      exact ⟨_, _, h⟩
  | waiting =>
      rw [hphase] at h
      exact ⟨_, _, h⟩
  | taking =>
      rw [hphase] at h
      exact ⟨_, _, h⟩

/-- {lit}`ipout` is blocked only while there is nothing to send. -/
theorem Sound.blocked (h : s.Sound l) (hneg : s.iqsem.queue.count < 0) : l = [] := by
  have hsized := s.iqsem.queue.sized
  have hlen : s.iqsem.inside.length = s.iqsem.queue.waiters.length + s.iqsem.granted.length :=
    List.length_append
  apply List.length_eq_zero_iff.mp
  unfold Sound at h
  cases hphase : s.phase with
  | sending =>
      rw [hphase] at h
      have hinside := h.inside
      omega
  | waiting =>
      rw [hphase] at h
      have hinside := h.inside
      have hunits := h.units
      unfold Turnstile.units at hunits
      omega
  | taking =>
      rw [hphase] at h
      have hinside := h.inside
      omega

end Steps

/-- In every run in which no packet is put in behind the back of {lit}`ipout`, the queue
holds at most {lit}`IP_OQSIZ` packets, none is overwritten, and {lit}`ipout` takes those
that were accepted, each once and in this order; it waits only when there is none. -/
theorem ip_output_in_order {s : IpQueue} (h : Runs.Reach step Fine Init s) :
    ∃ l, Ring IP_OQSIZ s.iqbuf s.iqhead s.iqtail l ∧ l.length ≤ IP_OQSIZ ∧
      s.enqueued = s.taken ++ l ∧ (s.iqsem.queue.count < 0 → l = []) := by
  have hsound : ∃ l, s.Sound l := by
    refine h.invariant (I := fun s => ∃ l, s.Sound l) ?_ fun s label s' _ hI hfine hs => ?_
    · intro _ hinit
      rw [hinit]
      exact ⟨[], Ring.nil (by decide), rfl, rfl, rfl⟩
    · obtain ⟨l, hl⟩ := hI
      exact hl.step hfine hs
  obtain ⟨l, hl⟩ := hsound
  obtain ⟨_, _, hholds⟩ := hl.holds
  exact ⟨l, hholds.ring, hholds.ring.length_le, hholds.order, hl.blocked⟩

/-- {lit}`ipout` waits, some packets are enqueued, and {lit}`ipout` sends the first. -/
def burst (n : Nat) : List IpQueueLabel :=
  .wait :: (List.range n).map .enqueue ++ [.wake, .take]

theorem ip_output_in_order_burst : ∃ s : IpQueue, s.enqueued = List.range 7 ∧ s.taken = [0] ∧
    ∃ l, s.enqueued = s.taken ++ l := by
  obtain ⟨s, hs, htaken⟩ := Runs.exists_reach_of_follow step Fine
    (show Init init from rfl) (burst 7) (fun s => s.enqueued = List.range 7 ∧ s.taken = [0])
    (by decide +kernel)
  obtain ⟨l, _, _, horder, _⟩ := ip_output_in_order hs
  exact ⟨s, htaken.1, htaken.2, l, horder⟩

/-- Nine packets are accepted before {lit}`ipout` runs, and it takes the last one first. -/
theorem ip_output_overrun : ∃ s, Runs.Reach step (fun _ _ => True) Init s ∧
    s.enqueued = List.range 9 ∧ s.taken = [8] :=
  Runs.exists_reach_of_follow step (fun _ _ => True) (show Init init from rfl) (burst 9) _
    (by decide +kernel)

end IpQueue
end Net
end BbbXinu
