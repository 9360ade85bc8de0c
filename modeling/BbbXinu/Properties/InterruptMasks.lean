import BbbXinu.Net.Interrupts
import BbbXinu.Properties.Calm

/-!
# Interrupt masks

{lit}`ip_send` returns with interrupts disabled when there is no route for a packet or its next
hop is not resolved, and so does {lit}`setprio` for the null process.  {lit}`icmp_send` restores
the mask of its caller whatever {lit}`ip_send` has left of it.
-/

namespace BbbXinu
namespace Net

open Masks

section

variable {ω : Type}

namespace MaskedCall

/-- The packet is for this machine or for all, or there is a next hop and it is resolved. -/
def Sends (W : Callees ω) (s : Cpu 32 (System ω)) (pktptr : Packet) : Prop :=
  let net := s.rest.net
  let dest := get32 pktptr net_ipdst
  let nxthop := if dest &&& net.ipmask = net.ipprefix then dest else net.iprouter
  dest &&& 0xff000000 = 0x7f000000 ∨ dest = net.ipucast ∨ (dest = IP_BCAST ∨ dest = net.ipbcast) ∨
    nxthop ≠ 0 ∧ ∃ mac t, W.arpResolve nxthop (s.disable arm) = some ((OK, mac), t)

/-- The caller has disabled interrupts itself, or the call takes no branch that forgets to
restore them. -/
def Restores (W : Callees ω) (s : Cpu 32 (System ω)) : MaskedCall → Prop
  | .ipSend pktptr => s.masked arm = true ∨ Sends W s pktptr
  | .icmpSend .. => True
  | .setprio pid => s.masked arm = true ∨ s.rest.xinu.isbadpid pid ∨ pid ≠ NULLPROC

end MaskedCall

variable {W : Callees ω} {s s' : Cpu 32 (System ω)} {p : Packet} {mask : BitVec 32}
  {nxthop : UInt32} {α : Type} {b : Bool} {pid : Int}

/-!
## What is called
-/

theorem leaves_netData {k : BootNetwork → Sys ω α} (h : Leaves arm (k s.rest.net) s b) :
    Leaves arm (netData >>= k) s b :=
  Leaves.bind fun _ _ ht => by
    cases ht
    exact h

theorem leaves_kernel {k : Xinu → Sys ω α} (h : Leaves arm (k s.rest.xinu) s b) :
    Leaves arm (kernel >>= k) s b :=
  Leaves.bind fun _ _ ht => by
    cases ht
    exact h

theorem keeps_freebuf (W : Callees ω) (p : Packet) : Keeps arm (W.freebuf p) := keeps_critical _

/-- Where {lit}`arp_resolve` returns before it disables interrupts, there is nothing to
restore. -/
theorem keeps_arpResolve (W : Callees ω) (nxthop : UInt32) : Keeps arm (W.arpResolve nxthop) := by
  intro s
  refine leaves_netData ?_
  split
  · exact Leaves.pure _ rfl
  · split
    · exact Leaves.pure _ rfl
    · exact keeps_critical _ s

/-- A packet that cannot be sent is freed, and nothing is restored. -/
theorem leaves_dropped (hs : s.masked arm = true) :
    Leaves arm (do let _ ← W.freebuf p; return SYSERR) s true :=
  ((keeps_freebuf W p).bind fun _ => Keeps.pure SYSERR).leaves hs

/-!
## IP
-/

theorem ipRoute_sends (hroute : nxthop ≠ 0)
    (hres : ∃ mac t, W.arpResolve nxthop s = some ((OK, mac), t)) :
    Leaves arm (W.ipRoute mask nxthop p) s (mask.getLsbD arm.irq) := by
  unfold Callees.ipRoute
  rw [if_neg hroute]
  refine Leaves.bind fun r t ht => ?_
  rcases hres with ⟨mac, u, hu⟩
  rw [hu] at ht
  cases ht
  rw [if_neg (by simp)]
  exact leaves_returning _ id

theorem ipRoute_fails (hs : s.masked arm = true)
    (h : ¬(nxthop ≠ 0 ∧ ∃ mac t, W.arpResolve nxthop s = some ((OK, mac), t))) :
    Leaves arm (W.ipRoute mask nxthop p) s true := by
  unfold Callees.ipRoute
  by_cases hroute : nxthop = 0
  · rw [if_pos hroute]
    exact leaves_dropped hs
  · rw [if_neg hroute]
    refine Leaves.bind fun r t ht => ?_
    have ht' : t.masked arm = true := ((keeps_arpResolve W nxthop).leaves hs) r t ht
    have hr : r.1 ≠ OK := fun hr => h ⟨hroute, r.2, t, by rw [ht, ← hr]⟩
    rw [if_pos hr]
    exact leaves_dropped ht'

/-- The mask is restored when the packet is sent, to this machine or to another one. -/
theorem ipSend_sends (h : MaskedCall.Sends W s p) :
    Leaves arm (W.ipSend p) s (s.masked arm) := by
  unfold MaskedCall.Sends at h
  dsimp only at h
  refine leaves_disabling (leaves_netData ?_)
  change Leaves arm _ _ (s.status.getLsbD arm.irq)
  rw [rest_disable]
  dsimp only
  by_cases hloop : get32 p net_ipdst &&& 0xff000000 = 0x7f000000
  · rw [if_pos hloop]
    exact leaves_returning _ fun _ => OK
  rw [if_neg hloop]
  by_cases hself : get32 p net_ipdst = s.rest.net.ipucast
  · rw [if_pos hself]
    exact leaves_returning _ fun _ => OK
  rw [if_neg hself]
  by_cases hall : get32 p net_ipdst = IP_BCAST ∨ get32 p net_ipdst = s.rest.net.ipbcast
  · rw [if_pos hall]
    exact leaves_returning _ id
  rw [if_neg hall]
  rcases ((h.resolve_left hloop).resolve_left hself).resolve_left hall with ⟨hroute, hres⟩
  exact ipRoute_sends hroute hres

/-- Otherwise {lit}`ip_send` returns with interrupts disabled. -/
theorem ipSend_fails (h : ¬MaskedCall.Sends W s p) : Leaves arm (W.ipSend p) s true := by
  unfold MaskedCall.Sends at h
  dsimp only at h
  rcases not_or.mp h with ⟨hloop, h⟩
  rcases not_or.mp h with ⟨hself, h⟩
  rcases not_or.mp h with ⟨hall, h⟩
  refine leaves_disabling (leaves_netData ?_)
  rw [rest_disable]
  dsimp only
  rw [if_neg hloop, if_neg hself, if_neg hall]
  exact ipRoute_fails (masked_disable s) h

/-!
## ICMP
-/

/-- {lit}`icmp_mkpkt` does not return {lit}`SYSERR`: it panics. -/
theorem icmpMkpkt_some {remip : UInt32} {type ident seq : UInt16} {buf : Nat → UInt8} {len : Int}
    {r : Option Packet} (h : W.icmpMkpkt remip type ident seq buf len s = some (r, s')) :
    r ≠ none := by
  rcases bind_eq_some h with ⟨pkt, t, -, ht⟩
  cases pkt with
  | none =>
      rcases bind_eq_some ht with ⟨_, u, -, hu⟩
      cases hu
  | some pkt =>
      rcases bind_eq_some ht with ⟨x, u, -, hu⟩
      rcases bind_eq_some hu with ⟨_, v, -, hv⟩
      cases hv
      exact Option.some_ne_none _

/-- {lit}`icmp_send` restores the mask, whatever {lit}`ip_send` has done. -/
theorem keeps_icmpSend (remip : UInt32) (type ident seq : UInt16) (buf : Nat → UInt8) (len : Int) :
    Keeps arm (W.icmpSend remip type ident seq buf len) := by
  intro s
  refine leaves_disabling (Leaves.bind fun pkt t ht => ?_)
  cases pkt with
  | none => exact absurd rfl (icmpMkpkt_some ht)
  | some pkt => exact leaves_returning (W.ipSend pkt) id

/-!
## Priorities
-/

theorem setprio_restores (h : s.rest.xinu.isbadpid pid ∨ pid ≠ NULLPROC) :
    Leaves arm (setprio pid) s (s.masked arm) := by
  refine leaves_disabling (leaves_kernel ?_)
  change Leaves arm _ _ (s.status.getLsbD arm.irq)
  rw [rest_disable]
  by_cases hbad : s.rest.xinu.isbadpid pid
  · rw [if_pos hbad]
    exact leaves_restore SYSERR
  · rw [if_neg hbad, if_neg (h.resolve_left hbad)]
    exact leaves_returning (computePrio pid) fun prio : Nat => ((INT16 prio : Nat) : Int)

theorem setprio_null (hbad : ¬s.rest.xinu.isbadpid pid) (hnull : pid = NULLPROC) :
    Leaves arm (setprio pid) s true := by
  refine leaves_disabling (leaves_kernel ?_)
  rw [rest_disable, if_neg hbad, if_pos hnull]
  exact Leaves.pure 0 (masked_disable s)

/-!
## Calls
-/

/-- A call returns with the mask of its caller if and only if it takes no branch that forgets to
restore it, or there is nothing to restore. -/
theorem step_masked_iff {c : MaskedCall} (h : c.step W s = some s') :
    s'.masked arm = s.masked arm ↔ c.Restores W s := by
  unfold MaskedCall.step at h
  rcases Option.map_eq_some_iff.mp h with ⟨⟨r, t⟩, hrun, rfl⟩
  cases c with
  | ipSend p =>
      by_cases hsends : MaskedCall.Sends W s p
      · exact iff_of_true (ipSend_sends hsends r t hrun) (Or.inr hsends)
      · have ht : t.masked arm = true := ipSend_fails hsends r t hrun
        rw [show (r, t).2 = t from rfl, ht]
        exact ⟨fun hs => Or.inl hs.symm, fun hr => (hr.resolve_right hsends).symm⟩
  | icmpSend remip type ident seq buf len =>
      exact iff_of_true (keeps_icmpSend remip type ident seq buf len s r t hrun) trivial
  | setprio pid =>
      by_cases hpid : s.rest.xinu.isbadpid pid ∨ pid ≠ NULLPROC
      · exact iff_of_true (setprio_restores hpid r t hrun) (Or.inr hpid)
      · have ht : t.masked arm = true :=
          setprio_null (fun hbad => hpid (Or.inl hbad))
            (not_not.mp fun hnull => hpid (Or.inr hnull)) r t hrun
        rw [show (r, t).2 = t from rfl, ht]
        exact ⟨fun hs => Or.inl hs.symm, fun hr => (hr.resolve_right hpid).symm⟩

/-- A call that disables interrupts. -/
theorem not_kept {c : MaskedCall} (h : (c.step W s).map (Cpu.masked arm) = some true)
    (hs : s.masked arm = false) : ¬∀ s', c.step W s = some s' → s'.masked arm = s.masked arm := by
  intro hall
  rcases Option.map_eq_some_iff.mp h with ⟨t, ht, htrue⟩
  have hsame := hall t ht
  rw [htrue, hs] at hsame
  cases hsame

/-- The run lemma: calls that restore the mask leave a process as it was. -/
theorem run_masked {s₀ : Cpu 32 (System ω)}
    (h : Runs.Reach (MaskedCall.step W) (MaskedCall.Restores W) (fun s => s = s₀) s) :
    s.masked arm = s₀.masked arm := by
  refine Runs.Reach.invariant (I := fun s => s.masked arm = s₀.masked arm) h
    (fun s hs => by rw [hs]) fun s c s' _ hs hc hstep => ?_
  rw [← hs]
  exact (step_masked_iff hstep).mpr hc

/-- Whatever the callees do, each call returns with the mask of its caller if and only if it
restores it, and a process whose calls do is not left with interrupts disabled. -/
theorem masks_restored_iff (W : Callees ω) :
    (∀ s c s', MaskedCall.step W s c = some s' →
      (s'.masked arm = s.masked arm ↔ MaskedCall.Restores W s c)) ∧
    ∀ s₀ s, Runs.Reach (MaskedCall.step W) (MaskedCall.Restores W) (fun s => s = s₀) s →
      s.masked arm = s₀.masked arm :=
  ⟨fun _ _ _ h => step_masked_iff h, fun _ _ h => run_masked h⟩

end

/-!
## A packet without a route
-/

/-- Callees that do nothing. -/
def idleCallees : Callees Unit where
  freebufBody := fun _ => return OK
  getbufBody := return some fun _ => 0
  udpInBody := fun _ => return ()
  icmpInBody := fun _ => return ()
  arpResolveBody := fun _ => return (SYSERR, zeroMac)
  writeBody := fun _ len => return (len : Int)

/-- A process in supervisor mode with interrupts enabled, on a machine that has an address
and no default router. -/
def routerless : Cpu 32 (System Unit) where
  status := 0x13
  rest := {
    xinu := sampleBoot
    net := {
      ipucast := 0x0a000002
      ipbcast := 0x0a0000ff
      ipvalid := true
      ethucast := Vector.ofFn fun _ => 2
      ethbcast := Vector.ofFn fun _ => 0xff
      ipmask := 0xffffff00
      ipprefix := 0x0a000000
      iprouter := 0 }
    ipident := 32767
    others := () }

/-- A packet for 8.8.8.8. -/
def farPacket : Packet := set32 (fun _ => 0) net_ipdst 0x08080808

/-- A packet without a route, and the null process: either call leaves interrupts disabled. -/
theorem routerless_masked :
    ¬(∀ s', MaskedCall.step idleCallees routerless (.ipSend farPacket) = some s' →
        s'.masked arm = routerless.masked arm) ∧
      ¬∀ s', MaskedCall.step idleCallees routerless (.setprio NULLPROC) = some s' →
        s'.masked arm = routerless.masked arm := by
  exact ⟨not_kept (by decide +kernel) (by decide), not_kept (by decide +kernel) (by decide)⟩

end Net
end BbbXinu
