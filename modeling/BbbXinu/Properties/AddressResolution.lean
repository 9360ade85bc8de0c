import BbbXinu.Invariant.PacketBytes
import BbbXinu.Lib.Runs
import BbbXinu.Net.Arp

/-!
# What address resolution knows

A resolved entry has what a packet said about its address, and a pending one belongs to a
process that waits for it.  {lit}`arp_resolve` takes any message as an answer, leaves its
entry behind on a message {lit}`SYSERR`, and does not look whether its entry was given to
another address; as long as none of this happens, what it returns is right.
-/

namespace BbbXinu
namespace Net

/-!
## What a packet says
-/

/-- The packet is one for IP and Ethernet, and this is its sender. -/
def Says (pkt : Packet) (ip : UInt32) (mac : Mac) : Prop :=
  htons (get16 pkt arp_htype) = ARP_HTYPE ∧ htons (get16 pkt arp_ptype) = ARP_PTYPE ∧
    htonl (get32 pkt arp_sndpa) = ip ∧ getMac pkt arp_sndha = mac

/-- One of the packets says so. -/
def Said (arrived : List Packet) (ip : UInt32) (mac : Mac) : Prop :=
  ∃ pkt ∈ arrived, Says pkt ip mac

section Packets

variable {p q pkt : Packet} {o i : Nat} {ip : UInt32} {mac : Mac} {arrived : List Packet}

theorem swap32_of_lt (h : i < o) : swap32 o p i = p i := by
  unfold swap32 set32
  rw [set16_of_ne (by omega) (by omega), set16_of_ne (by omega) (by omega)]

theorem getMac_congr (h : ∀ i < ETH_ADDR_LEN, p (o + i) = q (o + i)) :
    getMac p o = getMac q o := by
  unfold getMac
  congr 1
  funext i
  exact h i i.isLt

/-- The conversion leaves the hardware address of the sender alone. -/
theorem getMac_arpNtoh : getMac (arpNtoh p) arp_sndha = getMac p arp_sndha := by
  refine getMac_congr fun i hi => ?_
  unfold ETH_ADDR_LEN at hi
  unfold arpNtoh arp_sndha
  rw [swap32_of_lt (by unfold arp_tarpa; omega), swap32_of_lt (by unfold arp_sndpa; omega),
    swap16_of_ne (by unfold arp_op; omega) (by unfold arp_op; omega),
    swap16_of_ne (by unfold arp_ptype; omega) (by unfold arp_ptype; omega),
    swap16_of_ne (by unfold arp_htype; omega) (by unfold arp_htype; omega)]

theorem get32_arpNtoh : get32 (arpNtoh p) arp_sndpa = htonl (get32 p arp_sndpa) := by
  have hbefore : get32 (swap16 arp_op (swap16 arp_ptype (swap16 arp_htype p))) arp_sndpa =
      get32 p arp_sndpa := by
    refine get32_congr fun i hi => ?_
    unfold arp_sndpa
    rw [swap16_of_ne (by unfold arp_op; omega) (by unfold arp_op; omega),
      swap16_of_ne (by unfold arp_ptype; omega) (by unfold arp_ptype; omega),
      swap16_of_ne (by unfold arp_htype; omega) (by unfold arp_htype; omega)]
  unfold arpNtoh
  rw [get32_congr fun i hi => swap32_of_lt (by unfold arp_sndpa arp_tarpa; omega)]
  unfold swap32
  rw [get32_set32, hbefore]

theorem get16_htype_arpNtoh : get16 (arpNtoh p) arp_htype = htons (get16 p arp_htype) := by
  have hswap : ∀ i < arp_htype + 2, arpNtoh p i = swap16 arp_htype p i := fun i hi => by
    unfold arp_htype at hi
    unfold arpNtoh
    rw [swap32_of_lt (by unfold arp_tarpa; omega), swap32_of_lt (by unfold arp_sndpa; omega),
      swap16_of_ne (by unfold arp_op; omega) (by unfold arp_op; omega),
      swap16_of_ne (by unfold arp_ptype; omega) (by unfold arp_ptype; omega)]
  rw [get16_congr (hswap arp_htype (by omega)) (hswap (arp_htype + 1) (by omega))]
  exact get16_set16

theorem get16_ptype_arpNtoh : get16 (arpNtoh p) arp_ptype = htons (get16 p arp_ptype) := by
  have hswap : ∀ i < arp_ptype + 2,
      arpNtoh p i = swap16 arp_ptype (swap16 arp_htype p) i := fun i hi => by
    unfold arp_ptype at hi
    unfold arpNtoh
    rw [swap32_of_lt (by unfold arp_tarpa; omega), swap32_of_lt (by unfold arp_sndpa; omega),
      swap16_of_ne (by unfold arp_op; omega) (by unfold arp_op; omega)]
  have hbefore : get16 (swap16 arp_htype p) arp_ptype = get16 p arp_ptype :=
    get16_congr (swap16_of_ne (by decide) (by decide)) (swap16_of_ne (by decide) (by decide))
  rw [get16_congr (hswap arp_ptype (by omega)) (hswap (arp_ptype + 1) (by omega))]
  exact get16_set16.trans (congrArg htons hbefore)

/-- What {lit}`arp_in` reads of a packet that it does not drop is what the packet says. -/
theorem says_arpNtoh
    (h : ¬(get16 (arpNtoh pkt) arp_htype ≠ ARP_HTYPE ∨ get16 (arpNtoh pkt) arp_ptype ≠ ARP_PTYPE)) :
    Says pkt (get32 (arpNtoh pkt) arp_sndpa) (getMac (arpNtoh pkt) arp_sndha) := by
  rw [not_or, not_not, not_not, get16_htype_arpNtoh, get16_ptype_arpNtoh] at h
  exact ⟨h.1, h.2, get32_arpNtoh.symm, getMac_arpNtoh.symm⟩

theorem Said.append (h : Said arrived ip mac) : Said (arrived ++ [pkt]) ip mac := by
  obtain ⟨p, hp, hsays⟩ := h
  exact ⟨p, List.mem_append_left _ hp, hsays⟩

end Packets

/-!
## The cache
-/

section Cache

variable {cache cache' : Nat → ArpEntry} {ip : UInt32} {slot : Nat}

theorem arpSearch_some (h : arpSearch cache ip = some slot) :
    (cache slot).arstate ≠ .free ∧ (cache slot).arpaddr = ip := by
  have hfound := List.find?_some h
  simpa using hfound

theorem arpVictim_some (h : arpVictim cache = some slot) : (cache slot).arstate ≠ .pending := by
  cases Option.or_eq_some_iff.mp h with
  | inl hfree =>
      have hstate : (cache slot).arstate = .free := by simpa using List.find?_some hfree
      rw [hstate]
      nofun
  | inr hresolved =>
      have hstate : (cache slot).arstate = .resolved := by
        simpa using List.find?_some hresolved.2
      rw [hstate]
      nofun

theorem arpAlloc_some (h : arpAlloc cache = some (slot, cache')) :
    (cache slot).arstate ≠ .pending ∧ cache' = upd cache slot ArpEntry.zero := by
  obtain ⟨i, hi, heq⟩ := Option.map_eq_some_iff.mp h
  cases heq
  exact ⟨arpVictim_some hi, rfl⟩

end Cache

namespace Arp

/-!
## What a call does
-/

/-- What {lit}`arp_resolve` does before it waits. -/
inductive ResolveWay (s : Arp) (pid : Int) (ip : UInt32) : Prop where
  | broadcast :
      (ip = IP_BCAST ∨ ip = s.net.ipbcast) →
      s.arpResolve pid ip = s.finish pid ip OK (some s.net.ethbcast) → ResolveWay s pid ip
  | cached (i : Nat) :
      (s.arpcache i).arstate = .resolved → (s.arpcache i).arpaddr = ip →
      s.arpResolve pid ip = s.finish pid ip OK (some (s.arpcache i).arhaddr) →
      ResolveWay s pid ip
  | busy : s.arpResolve pid ip = s.finish pid ip SYSERR none → ResolveWay s pid ip
  | miss :
      arpSearch s.arpcache ip = none → s.arpResolve pid ip = s.arpMiss pid ip →
      ResolveWay s pid ip

theorem resolving (s : Arp) (pid : Int) (ip : UInt32) : ResolveWay s pid ip := by
  by_cases hbcast : ip = IP_BCAST
  · exact .broadcast (.inl hbcast) (if_pos hbcast)
  · by_cases hnet : ip = s.net.ipbcast
    · exact .broadcast (.inr hnet) ((if_neg hbcast).trans (if_pos hnet))
    · cases hsearch : arpSearch s.arpcache ip with
      | none =>
          refine .miss hsearch ?_
          unfold arpResolve
          rw [if_neg hbcast, if_neg hnet, hsearch]
      | some i =>
          obtain ⟨hfree, haddr⟩ := arpSearch_some hsearch
          cases hstate : (s.arpcache i).arstate with
          | free => exact absurd hstate hfree
          | pending =>
              refine .busy ?_
              unfold arpResolve
              rw [if_neg hbcast, if_neg hnet, hsearch]
              exact (if_neg (by rw [hstate]; nofun)).trans (if_pos hstate)
          | resolved =>
              refine .cached i hstate haddr ?_
              unfold arpResolve
              rw [if_neg hbcast, if_neg hnet, hsearch]
              exact if_pos hstate

/-- What {lit}`arp_resolve` does when it goes on. -/
inductive ResumeWay (s : Arp) (pid : Int) (r : Resolving) : Prop where
  | retry :
      s.arpResume pid r = (s.recvclr pid).transmit pid { r with i := r.i + 1 } →
      ResumeWay s pid r
  | giveUp :
      s.arpResume pid r =
        ((s.recvclr pid).setEntry r.slot { s.arpcache r.slot with arstate := .free }).finish pid
          r.nxthop TIMEOUT none →
      ResumeWay s pid r
  | refused :
      s.message pid ≠ TIMEOUT → s.message pid = SYSERR →
      s.arpResume pid r = (s.recvclr pid).finish pid r.nxthop SYSERR none → ResumeWay s pid r
  | answered :
      s.message pid ≠ TIMEOUT → s.message pid ≠ SYSERR →
      s.arpResume pid r =
        (s.recvclr pid).finish pid r.nxthop OK (some (s.arpcache r.slot).arhaddr) →
      ResumeWay s pid r

theorem resuming (s : Arp) (pid : Int) (r : Resolving) : ResumeWay s pid r := by
  by_cases htimeout : s.message pid = TIMEOUT
  · by_cases hretry : r.i + 1 < ARP_RETRY
    · exact .retry ((if_pos htimeout).trans (if_pos hretry))
    · exact .giveUp ((if_pos htimeout).trans (if_neg hretry))
  · by_cases hmsg : s.message pid = SYSERR
    · exact .refused htimeout hmsg ((if_neg htimeout).trans (if_pos hmsg))
    · exact .answered htimeout hmsg ((if_neg htimeout).trans (if_neg hmsg))

/-- The entry was resolved for the address that is asked for, and is still there. -/
def Answered (s : Arp) (r : Resolving) : Prop :=
  (s.arpcache r.slot).arstate = .resolved ∧ (s.arpcache r.slot).arpaddr = r.nxthop

/-- The entry still waits for the answer to this process. -/
def Unanswered (s : Arp) (pid : Int) (r : Resolving) : Prop :=
  (s.arpcache r.slot).arstate = .pending ∧ (s.arpcache r.slot).arpid = pid

/-- What {lit}`arp_resolve` relies on when it goes on: a message {lit}`SYSERR` does not find
its entry pending, any other finds it resolved. -/
def Fine (s : Arp) : ArpLabel → Prop
  | .resume pid => ∀ r ∈ s.calls pid, s.message pid ≠ TIMEOUT →
      (s.message pid = SYSERR → ¬s.Unanswered pid r) ∧ (s.message pid ≠ SYSERR → s.Answered r)
  | .resolve _ _ | .arpIn _ | .send _ _ | .receive _ | .network _ => True

instance (s : Arp) (pid : Int) (r : Resolving) : Decidable (s.Unanswered pid r) :=
  inferInstanceAs (Decidable (_ ∧ _))

instance (s : Arp) (r : Resolving) : Decidable (s.Answered r) :=
  inferInstanceAs (Decidable (_ ∧ _))

instance (s : Arp) (label : ArpLabel) : Decidable (s.Fine label) :=
  match label with
  | .resume pid => inferInstanceAs (Decidable (∀ r ∈ s.calls pid, _ ≠ _ →
      (_ = _ → ¬s.Unanswered pid r) ∧ (_ ≠ _ → s.Answered r)))
  | .resolve _ _ | .arpIn _ | .send _ _ | .receive _ | .network _ =>
      inferInstanceAs (Decidable True)

/-- The address was resolved: it is one for everybody, or a packet said so. -/
def Right (arrived : List Packet) (r : Resolved) : Prop :=
  r.status = OK → ∃ mac, r.mac = some mac ∧
    ((r.nxthop = IP_BCAST ∨ r.nxthop = r.net.ipbcast) ∧ mac = r.net.ethbcast ∨
      Said arrived r.nxthop mac)

/-- An entry is pending for a process that waits for it. -/
def Owned (calls : Int → Option Resolving) (slot : Nat) (e : ArpEntry) : Prop :=
  e.arstate = .pending → ∃ i, calls e.arpid = some { nxthop := e.arpaddr, slot, i }

structure Sound (s : Arp) : Prop where
  known : ∀ slot, (s.arpcache slot).arstate = .resolved →
    Said s.arrived (s.arpcache slot).arpaddr (s.arpcache slot).arhaddr
  owned : ∀ slot, Owned s.calls slot (s.arpcache slot)
  right : ∀ r ∈ s.returned, Right s.arrived r

section Steps

variable {s s' : Arp} {pid : Int} {slot : Nat} {e : ArpEntry} {r : Resolving} {ip : UInt32}
  {pkt : Packet} {mac : Mac} {status : Int} {o : Option Mac}

/-- What may change without notice. -/
theorem Sound.congr (h : s.Sound) (hcache : s'.arpcache = s.arpcache) (hcalls : s'.calls = s.calls)
    (harrived : s'.arrived = s.arrived) (hreturned : s'.returned = s.returned) : s'.Sound where
  known := by
    rw [hcache, harrived]
    exact h.known
  owned := by
    rw [hcache, hcalls]
    exact h.owned
  right := by
    rw [hreturned, harrived]
    exact h.right

theorem Sound.setEntry (h : s.Sound)
    (hknown : e.arstate = .resolved → Said s.arrived e.arpaddr e.arhaddr)
    (howned : Owned s.calls slot e) : (s.setEntry slot e).Sound where
  known := by
    intro i hi
    by_cases hslot : i = slot
    · rw [hslot] at hi ⊢
      change (upd s.arpcache slot e slot).arstate = _ at hi
      change Said s.arrived (upd s.arpcache slot e slot).arpaddr
        (upd s.arpcache slot e slot).arhaddr
      rw [upd_self] at hi ⊢
      exact hknown hi
    · change (upd s.arpcache slot e i).arstate = _ at hi
      change Said s.arrived (upd s.arpcache slot e i).arpaddr (upd s.arpcache slot e i).arhaddr
      rw [upd_of_ne hslot] at hi ⊢
      exact h.known i hi
  owned := by
    intro i
    change Owned s.calls i (upd s.arpcache slot e i)
    by_cases hslot : i = slot
    · rw [hslot, upd_self]
      exact howned
    · rw [upd_of_ne hslot]
      exact h.owned i
  right := h.right

theorem Sound.send (h : s.Sound) (pid msg : Int) : (s.send pid msg).Sound := by
  unfold Arp.send
  split
  · exact h
  · exact h.congr rfl rfl rfl rfl

theorem Sound.recvclr (h : s.Sound) (pid : Int) : (s.recvclr pid).Sound := h.congr rfl rfl rfl rfl

/-- A process that does not wait owns no entry. -/
theorem Sound.not_owner (h : s.Sound) (hcalls : s.calls pid = none) (slot : Nat)
    (hpending : (s.arpcache slot).arstate = .pending) : (s.arpcache slot).arpid ≠ pid := by
  intro hpid
  obtain ⟨i, hi⟩ := h.owned slot hpending
  rw [hpid, hcalls] at hi
  cases hi

/-- A process owns no entry but the one that it waits for. -/
theorem Sound.owner (h : s.Sound) (hcalls : s.calls pid = some r)
    (hpending : (s.arpcache slot).arstate = .pending) (hpid : (s.arpcache slot).arpid = pid) :
    slot = r.slot ∧ s.Unanswered pid r := by
  obtain ⟨i, hi⟩ := h.owned slot hpending
  rw [hpid, hcalls] at hi
  cases hi
  exact ⟨rfl, hpending, hpid⟩

/-- A call returns whose process owns no entry. -/
theorem Sound.finish (h : s.Sound)
    (hfree : ∀ slot, (s.arpcache slot).arstate = .pending → (s.arpcache slot).arpid ≠ pid)
    (hright : Right s.arrived { net := s.net, nxthop := ip, status, mac := o }) :
    (s.finish pid ip status o).Sound where
  known := h.known
  owned := by
    intro slot hpending
    obtain ⟨i, hi⟩ := h.owned slot hpending
    exact ⟨i, (upd_of_ne (hfree slot hpending)).trans hi⟩
  right := by
    intro r hr
    change r ∈ s.returned ++ [_] at hr
    cases List.mem_append.mp hr with
    | inl hold => exact h.right r hold
    | inr hnew =>
        rw [List.mem_singleton.mp hnew]
        exact hright

theorem Sound.miss (h : s.Sound) (hcalls : s.calls pid = none) : (s.arpMiss pid ip).Sound := by
  unfold arpMiss
  split
  · refine h.finish (h.not_owner hcalls) fun hok => ?_
    exact absurd (show SYSERR = OK from hok) (by decide)
  · rename_i slot cache halloc
    obtain ⟨-, hcache⟩ := arpAlloc_some halloc
    subst hcache
    refine ⟨fun i hi => ?_, fun i hpending => ?_, h.right⟩
    · change (upd (upd s.arpcache slot ArpEntry.zero) slot _ i).arstate = _ at hi
      change Said s.arrived (upd (upd s.arpcache slot ArpEntry.zero) slot _ i).arpaddr
        (upd (upd s.arpcache slot ArpEntry.zero) slot _ i).arhaddr
      rw [upd_upd] at hi ⊢
      by_cases hslot : i = slot
      · rw [hslot, upd_self] at hi
        cases hi
      · rw [upd_of_ne hslot] at hi ⊢
        exact h.known i hi
    · change (upd (upd s.arpcache slot ArpEntry.zero) slot _ i).arstate = _ at hpending
      change ∃ n, upd s.calls pid _ (upd (upd s.arpcache slot ArpEntry.zero) slot _ i).arpid =
        some {
          nxthop := (upd (upd s.arpcache slot ArpEntry.zero) slot _ i).arpaddr
          slot := i
          i := n }
      rw [upd_upd] at hpending ⊢
      by_cases hslot : i = slot
      · rw [hslot, upd_self]
        exact ⟨0, upd_self⟩
      · rw [upd_of_ne hslot] at hpending ⊢
        rw [upd_of_ne (h.not_owner hcalls i hpending)]
        exact h.owned i hpending

theorem Sound.resolve (h : s.Sound) (hcalls : s.calls pid = none) :
    (s.arpResolve pid ip).Sound := by
  have hfree := h.not_owner hcalls
  cases resolving s pid ip with
  | broadcast hip heq =>
      rw [heq]
      exact h.finish hfree fun _ => ⟨_, rfl, .inl ⟨hip, rfl⟩⟩
  | cached i hresolved haddr heq =>
      have hsaid := h.known i hresolved
      rw [haddr] at hsaid
      rw [heq]
      exact h.finish hfree fun _ => ⟨_, rfl, .inr hsaid⟩
  | busy heq =>
      rw [heq]
      exact h.finish hfree fun hok => absurd (show SYSERR = OK from hok) (by decide)
  | miss _ heq =>
      rw [heq]
      exact h.miss hcalls

/-- A process that owns its entry and waits goes on waiting. -/
theorem Sound.retry (h : s.Sound) (hcalls : s.calls pid = some r) (i : Nat) :
    (s.transmit pid { r with i := i }).Sound where
  known := h.known
  owned := by
    intro slot hpending
    obtain ⟨n, hn⟩ := h.owned slot hpending
    by_cases hpid : (s.arpcache slot).arpid = pid
    · rw [hpid, hcalls] at hn
      cases hn
      exact ⟨i, hpid ▸ upd_self⟩
    · exact ⟨n, (upd_of_ne hpid).trans hn⟩
  right := h.right

/-- The last wait was in vain, and the entry is given up. -/
theorem Sound.giveUp (h : s.Sound) (hcalls : s.calls pid = some r) :
    ((s.setEntry r.slot { s.arpcache r.slot with arstate := .free }).finish pid ip TIMEOUT
      none).Sound := by
  have hset : (s.setEntry r.slot { s.arpcache r.slot with arstate := .free }).Sound :=
    h.setEntry nofun nofun
  refine hset.finish (fun slot hpending hpid => ?_)
    fun hok => absurd (show TIMEOUT = OK from hok) (by decide)
  obtain ⟨hslot, hown, -⟩ := hset.owner hcalls hpending hpid
  change (upd s.arpcache r.slot _ r.slot).arstate = _ at hown
  rw [upd_self] at hown
  cases hown

theorem Sound.resume (h : s.Sound) (hcalls : s.calls pid = some r) (hfine : s.Fine (.resume pid)) :
    (s.arpResume pid r).Sound := by
  have hclear := h.recvclr pid
  cases resuming s pid r with
  | retry heq =>
      rw [heq]
      exact hclear.retry hcalls _
  | giveUp heq =>
      rw [heq]
      exact hclear.giveUp hcalls
  | refused htimeout hmsg heq =>
      obtain ⟨hsyserr, -⟩ := hfine r hcalls htimeout
      rw [heq]
      refine hclear.finish (fun slot hpending hpid => ?_)
        fun hok => absurd (show SYSERR = OK from hok) (by decide)
      exact hsyserr hmsg (h.owner hcalls hpending hpid).2
  | answered htimeout hmsg heq =>
      obtain ⟨-, hok⟩ := hfine r hcalls htimeout
      obtain ⟨hresolved, haddr⟩ := hok hmsg
      have hsaid := h.known r.slot hresolved
      rw [haddr] at hsaid
      rw [heq]
      refine hclear.finish (fun slot hpending hpid => ?_) fun _ => ⟨_, rfl, .inr hsaid⟩
      obtain ⟨-, hstill, -⟩ := h.owner hcalls hpending hpid
      rw [hresolved] at hstill
      cases hstill

theorem Sound.found (h : s.Sound)
    (hsaid : Said s.arrived (s.arpcache slot).arpaddr (getMac pkt arp_sndha)) :
    (s.arpFound pkt slot).Sound := by
  unfold arpFound
  dsimp only
  split
  · refine Sound.send (h.setEntry (fun _ => hsaid) ?_) _ _
    nofun
  · rename_i hpending
    exact h.setEntry (fun _ => hsaid) fun hpending' => absurd hpending' hpending

theorem Sound.add (h : s.Sound)
    (hsaid : Said s.arrived (get32 pkt arp_sndpa) (getMac pkt arp_sndha)) :
    (s.arpAdd pkt).Sound := by
  unfold arpAdd
  split
  · exact h
  · rename_i slot cache halloc
    obtain ⟨-, hcache⟩ := arpAlloc_some halloc
    subst hcache
    have hzero : (s.setEntry slot ArpEntry.zero).Sound := h.setEntry nofun nofun
    refine Sound.congr (hzero.setEntry ?_ ?_) rfl rfl rfl rfl
    · exact fun _ => hsaid
    · nofun

theorem Sound.answer {found : Option Nat} (h : s.Sound)
    (hsaid : Said s.arrived (get32 pkt arp_sndpa) (getMac pkt arp_sndha)) :
    (s.arpAnswer pkt found).Sound := by
  unfold arpAnswer
  split
  · exact h
  · split
    · exact h
    · split
      · exact h.add hsaid
      · exact h.congr rfl rfl rfl rfl

theorem arrived_send {msg : Int} : (s.send pid msg).arrived = s.arrived := by
  unfold Arp.send
  split
  · rfl
  · rfl

theorem arrived_found : (s.arpFound pkt slot).arrived = s.arrived := by
  unfold arpFound
  dsimp only
  split
  · exact arrived_send
  · rfl

theorem Sound.arrive (h : s.Sound) (pkt : Packet) :
    ({ s with arrived := s.arrived ++ [pkt] } : Arp).Sound where
  known := fun slot hresolved => (h.known slot hresolved).append
  owned := h.owned
  right := fun r hr hok => by
    obtain ⟨mac, hmac, hfrom⟩ := h.right r hr hok
    exact ⟨mac, hmac, hfrom.imp_right Said.append⟩

theorem Sound.arpIn (h : s.Sound) (pkt : Packet) : (s.arpIn pkt).Sound := by
  have harrive := h.arrive pkt
  unfold Arp.arpIn
  dsimp only
  split
  · exact harrive
  · rename_i htypes
    have hsaid : Said (s.arrived ++ [pkt]) (get32 (arpNtoh pkt) arp_sndpa)
        (getMac (arpNtoh pkt) arp_sndha) :=
      ⟨pkt, List.mem_append_right _ List.mem_cons_self, says_arpNtoh htypes⟩
    split
    · exact harrive.answer hsaid
    · rename_i slot hsearch
      refine Sound.answer (harrive.found ?_) ?_
      · rw [(arpSearch_some hsearch).2]
        exact hsaid
      · rw [arrived_found]
        exact hsaid

theorem Sound.step {label : ArpLabel} (h : s.Sound) (hfine : s.Fine label)
    (hs : s.step label = some s') : s'.Sound := by
  cases label with
  | resolve pid nxthop =>
      obtain ⟨hcalls, hs⟩ := Option.ite_none_left_eq_some.mp hs
      cases hs
      exact h.resolve (Option.not_isSome_iff_eq_none.mp hcalls)
  | resume pid =>
      obtain ⟨r, hcalls, hs⟩ := Option.map_eq_some_iff.mp hs
      cases hs
      exact h.resume hcalls hfine
  | arpIn pkt =>
      cases hs
      exact h.arpIn pkt
  | send pid msg =>
      cases hs
      exact h.send pid msg
  | receive pid =>
      obtain ⟨-, hs⟩ := Option.ite_none_left_eq_some.mp hs
      cases hs
      exact h.recvclr pid
  | network net =>
      cases hs
      exact h.congr rfl rfl rfl rfl

end Steps

/-!
## Calls that are not disturbed
-/

/-- The entry that a step gives to another address. -/
def Evicts (s : Arp) (slot : Nat) : ArpLabel → Prop
  | .resolve _ nxthop => arpSearch s.arpcache nxthop = none ∧ arpVictim s.arpcache = some slot
  | .arpIn pkt => arpSearch s.arpcache (get32 (arpNtoh pkt) arp_sndpa) = none ∧
      arpVictim s.arpcache = some slot
  | .resume _ | .send _ _ | .receive _ | .network _ => False

/-- Nobody sends a message to a process that waits in {lit}`arp_resolve`, and no entry is
given to another address before the process that waits for it has gone on. -/
def Calm (s : Arp) (label : ArpLabel) : Prop :=
  (∀ pid msg, label = .send pid msg → s.calls pid = none) ∧
    ∀ pid, ∀ r ∈ s.calls pid, ¬s.Evicts r.slot label

/-- The entry and the message of a call that nobody has disturbed. -/
inductive Held (pid : Int) (r : Resolving) (e : ArpEntry) (mail : Option Int) : Prop where
  | pending : e.arstate = .pending → e.arpid = pid → e.arpaddr = r.nxthop → mail = none →
      Held pid r e mail
  | resolved : e.arstate = .resolved → e.arpaddr = r.nxthop → (∀ msg ∈ mail, msg = OK) →
      Held pid r e mail

structure Undisturbed (s : Arp) : Prop where
  sound : s.Sound
  held : ∀ pid, ∀ r ∈ s.calls pid, Held pid r (s.arpcache r.slot) (s.mail pid)
  apart : ∀ pid pid', ∀ r ∈ s.calls pid, ∀ r' ∈ s.calls pid', r.slot = r'.slot → pid = pid'

section Calm

variable {s s' : Arp} {pid : Int} {slot : Nat} {e : ArpEntry} {r : Resolving} {ip : UInt32}
  {pkt : Packet} {status : Int} {o : Option Mac} {label : ArpLabel}

theorem Undisturbed.fine (h : s.Undisturbed) (label : ArpLabel) : s.Fine label := by
  cases label with
  | resume pid =>
      intro r hr hmsg
      cases h.held pid r hr with
      | pending _ _ _ hmail =>
          refine absurd ?_ hmsg
          unfold message
          rw [hmail]
          rfl
      | resolved hstate haddr hmail =>
          refine ⟨fun _ hun => ?_, fun _ => ⟨hstate, haddr⟩⟩
          rw [Unanswered, hstate] at hun
          exact absurd hun.1 nofun
  | resolve | arpIn | send | receive | network => trivial

/-- The calls stay as they are. -/
theorem Undisturbed.keep (h : s.Undisturbed) (hs : s'.Sound) (hcalls : s'.calls = s.calls)
    (hheld : ∀ pid, ∀ r ∈ s.calls pid, Held pid r (s'.arpcache r.slot) (s'.mail pid)) :
    s'.Undisturbed where
  sound := hs
  held := by
    rw [hcalls]
    exact hheld
  apart := by
    rw [hcalls]
    exact h.apart

/-- Nothing changes for any process but one. -/
theorem Undisturbed.change (h : s.Undisturbed) (pid : Int) (hs : s'.Sound)
    (hcalls : ∀ p, p ≠ pid → s'.calls p = s.calls p)
    (hmail : ∀ p, p ≠ pid → s'.mail p = s.mail p)
    (hcache : ∀ p, p ≠ pid → ∀ r ∈ s.calls p, s'.arpcache r.slot = s.arpcache r.slot)
    (hheld : ∀ r ∈ s'.calls pid, Held pid r (s'.arpcache r.slot) (s'.mail pid))
    (hapart : ∀ r ∈ s'.calls pid, ∀ p, p ≠ pid → ∀ r' ∈ s.calls p, r'.slot ≠ r.slot) :
    s'.Undisturbed where
  sound := hs
  held := by
    intro p r hr
    by_cases hp : p = pid
    · rw [hp] at hr ⊢
      exact hheld r hr
    · rw [hcalls p hp] at hr
      rw [hcache p hp r hr, hmail p hp]
      exact h.held p r hr
  apart := by
    intro p p' r hr r' hr' hslot
    by_cases hp : p = pid
    · rw [hp] at hr ⊢
      by_cases hp' : p' = pid
      · exact hp'.symm
      · rw [hcalls p' hp'] at hr'
        exact absurd hslot.symm (hapart r hr p' hp' r' hr')
    · rw [hcalls p hp] at hr
      by_cases hp' : p' = pid
      · rw [hp'] at hr'
        exact absurd hslot (hapart r' hr' p hp r hr)
      · rw [hcalls p' hp'] at hr'
        exact h.apart p p' r hr r' hr' hslot

/-- A call returns. -/
theorem Undisturbed.finish (h : s.Undisturbed) (hs : (s.finish pid ip status o).Sound) :
    (s.finish pid ip status o).Undisturbed := by
  refine h.change pid hs (fun p hp => upd_of_ne hp) (fun _ _ => rfl) (fun _ _ _ _ => rfl)
    (fun r hr => ?_) fun r hr => ?_
  · exact absurd (upd_self.symm.trans hr) nofun
  · exact absurd (upd_self.symm.trans hr) nofun

theorem Undisturbed.miss (h : s.Undisturbed) (hs : (s.arpMiss pid ip).Sound)
    (hslot : ∀ p, ∀ r ∈ s.calls p, arpVictim s.arpcache ≠ some r.slot) :
    (s.arpMiss pid ip).Undisturbed := by
  unfold arpMiss at hs ⊢
  split
  · rename_i halloc
    rw [halloc] at hs
    exact h.finish hs
  · rename_i slot cache halloc
    rw [halloc] at hs
    obtain ⟨i, hi, heq⟩ := Option.map_eq_some_iff.mp halloc
    cases heq
    have hne : ∀ p, ∀ r ∈ s.calls p, r.slot ≠ slot := fun p r hr heq =>
      hslot p r hr (heq ▸ hi)
    refine h.change pid hs (fun p hp => upd_of_ne hp) (fun p hp => upd_of_ne hp)
      (fun p _ r hr => ?_) (fun r hr => ?_) fun r hr p _ r' hr' => ?_
    · change upd (upd s.arpcache slot ArpEntry.zero) slot _ r.slot = _
      rw [upd_upd, upd_of_ne (hne p r hr)]
    · cases upd_self.symm.trans hr
      change Held pid _ (upd (upd s.arpcache slot ArpEntry.zero) slot _ slot)
        (upd s.mail pid none pid)
      rw [upd_self]
      exact .pending rfl rfl rfl upd_self
    · cases upd_self.symm.trans hr
      exact hne p r' hr'

theorem Undisturbed.resolve (h : s.Undisturbed) (hcalls : s.calls pid = none)
    (hcalm : s.Calm (.resolve pid ip)) : (s.arpResolve pid ip).Undisturbed := by
  have hs : (s.arpResolve pid ip).Sound := h.sound.resolve hcalls
  cases resolving s pid ip with
  | broadcast _ heq | cached _ _ _ heq | busy heq =>
      rw [heq] at hs ⊢
      exact h.finish hs
  | miss hsearch heq =>
      rw [heq] at hs ⊢
      exact h.miss hs fun p r hr hvictim => hcalm.2 p r hr ⟨hsearch, hvictim⟩

theorem Undisturbed.recvclr (h : s.Undisturbed) (pid : Int) : (s.recvclr pid).Undisturbed := by
  refine h.keep (h.sound.recvclr pid) rfl fun p r hr => ?_
  change Held p r _ (upd s.mail pid none p)
  by_cases hp : p = pid
  · rw [hp, upd_self]
    cases h.held p r hr with
    | pending hstate hpid haddr _ => exact .pending hstate (hpid.trans hp) haddr rfl
    | resolved hstate haddr _ => exact .resolved hstate haddr nofun
  · rw [upd_of_ne hp]
    exact h.held p r hr

theorem Undisturbed.resume (h : s.Undisturbed) (hcalls : s.calls pid = some r) :
    (s.arpResume pid r).Undisturbed := by
  have hs := h.sound.resume hcalls (h.fine _)
  have hclear := h.recvclr pid
  have hother : ∀ p, p ≠ pid → ∀ r' ∈ s.calls p, r'.slot ≠ r.slot := fun p hp r' hr' heq =>
    hp (h.apart p pid r' hr' r hcalls heq)
  cases resuming s pid r with
  | retry heq =>
      rw [heq] at hs ⊢
      refine hclear.change pid hs (fun p hp => upd_of_ne hp) (fun _ _ => rfl)
        (fun _ _ _ _ => rfl) (fun r' hr' => ?_) fun r' hr' p hp q hq => ?_
      · cases upd_self.symm.trans hr'
        cases hclear.held pid r hcalls with
        | pending hstate hpid haddr hmail => exact .pending hstate hpid haddr hmail
        | resolved hstate haddr hmail => exact .resolved hstate haddr hmail
      · cases upd_self.symm.trans hr'
        exact hother p hp q hq
  | giveUp heq =>
      rw [heq] at hs ⊢
      exact hclear.change pid hs (fun p hp => upd_of_ne hp) (fun _ _ => rfl)
        (fun p hp q hq => upd_of_ne (hother p hp q hq))
        (fun _ hr => absurd (upd_self.symm.trans hr) nofun)
        fun _ hr => absurd (upd_self.symm.trans hr) nofun
  | refused _ _ heq | answered _ _ heq =>
      rw [heq] at hs ⊢
      exact hclear.finish hs

/-- The packet is the answer for one process, or repeats an answer. -/
theorem Undisturbed.found (h : s.Undisturbed) (hs : (s.arpFound pkt slot).Sound) :
    (s.arpFound pkt slot).Undisturbed := by
  unfold arpFound at hs ⊢
  dsimp only at hs ⊢
  split
  · rename_i hpending
    rw [if_pos hpending] at hs
    obtain ⟨i, hi⟩ := h.sound.owned slot hpending
    have hmail : s.mail (s.arpcache slot).arpid = none := by
      cases h.held _ _ hi with
      | pending _ _ _ hmail => exact hmail
      | resolved hstate _ _ => exact absurd (hpending.symm.trans hstate) nofun
    have hsend : ∀ t : Arp, t.mail = s.mail → t.send (s.arpcache slot).arpid OK =
        { t with mail := upd t.mail (s.arpcache slot).arpid (some OK) } := fun t ht =>
      if_neg (by rw [ht, hmail]; nofun)
    rw [hsend (s.setEntry slot _) rfl] at hs ⊢
    refine h.change (s.arpcache slot).arpid hs (fun _ _ => rfl) (fun p hp => upd_of_ne hp)
      (fun p hp r hr => upd_of_ne fun heq => hp (h.apart p _ r hr _ hi heq)) (fun r hr => ?_)
      fun r hr p hp r' hr' heq => hp (h.apart p _ r' hr' r hr heq)
    cases hi.symm.trans hr
    change Held _ _ (upd s.arpcache slot _ slot) (upd s.mail _ (some OK) _)
    rw [upd_self, upd_self]
    refine .resolved rfl rfl fun msg hmsg => ?_
    cases hmsg
    rfl
  · rename_i hpending
    rw [if_neg hpending] at hs
    refine h.keep hs rfl fun p r hr => ?_
    change Held p r (upd s.arpcache slot _ r.slot) (s.mail p)
    by_cases hslot : r.slot = slot
    · have hheld := h.held p r hr
      rw [hslot] at hheld ⊢
      rw [upd_self]
      cases hheld with
      | pending hstate _ _ _ => exact absurd hstate hpending
      | resolved hstate haddr hmail => exact .resolved hstate haddr hmail
    · rw [upd_of_ne hslot]
      exact h.held p r hr

theorem Undisturbed.add (h : s.Undisturbed) (hs : (s.arpAdd pkt).Sound)
    (hslot : ∀ p, ∀ r ∈ s.calls p, arpVictim s.arpcache ≠ some r.slot) :
    (s.arpAdd pkt).Undisturbed := by
  unfold arpAdd at hs ⊢
  split
  · exact h
  · rename_i slot cache halloc
    rw [halloc] at hs
    obtain ⟨i, hi, heq⟩ := Option.map_eq_some_iff.mp halloc
    cases heq
    refine h.keep hs rfl fun p r hr => ?_
    have hne : r.slot ≠ slot := fun heq => hslot p r hr (heq ▸ hi)
    change Held p r (upd (upd s.arpcache slot ArpEntry.zero) slot _ r.slot) (s.mail p)
    rw [upd_upd, upd_of_ne hne]
    exact h.held p r hr

theorem Undisturbed.answer {found : Option Nat} (h : s.Undisturbed)
    (hs : (s.arpAnswer pkt found).Sound)
    (hslot : found = none → ∀ p, ∀ r ∈ s.calls p, arpVictim s.arpcache ≠ some r.slot) :
    (s.arpAnswer pkt found).Undisturbed := by
  unfold arpAnswer at hs ⊢
  split
  · exact h
  · rename_i hop
    rw [if_neg hop] at hs
    split
    · exact h
    · rename_i hnet
      rw [if_neg hnet] at hs
      split
      · exact h.add hs (hslot rfl)
      · exact h.keep hs rfl h.held

theorem Undisturbed.arpIn (h : s.Undisturbed) (hcalm : s.Calm (.arpIn pkt)) :
    (s.arpIn pkt).Undisturbed := by
  have harrive : ({ s with arrived := s.arrived ++ [pkt] } : Arp).Undisturbed :=
    h.keep (h.sound.arrive pkt) rfl h.held
  have hs := h.sound.arpIn pkt
  unfold Arp.arpIn at hs ⊢
  dsimp only at hs ⊢
  split
  · exact harrive
  · rename_i htypes
    rw [if_neg htypes] at hs
    cases hsearch : arpSearch s.arpcache (get32 (arpNtoh pkt) arp_sndpa) with
    | none =>
        rw [hsearch] at hs
        exact harrive.answer hs fun _ p r hr hvictim => hcalm.2 p r hr ⟨hsearch, hvictim⟩
    | some slot =>
        rw [hsearch] at hs
        have hsaid : Said (s.arrived ++ [pkt]) (s.arpcache slot).arpaddr
            (getMac (arpNtoh pkt) arp_sndha) := by
          rw [(arpSearch_some hsearch).2]
          exact ⟨pkt, List.mem_append_right _ List.mem_cons_self, says_arpNtoh htypes⟩
        exact (harrive.found (harrive.sound.found hsaid)).answer hs nofun

theorem Undisturbed.step (h : s.Undisturbed) (hcalm : s.Calm label)
    (hs : s.step label = some s') : s'.Undisturbed := by
  have hsound := h.sound.step (h.fine label) hs
  cases label with
  | resolve pid nxthop =>
      obtain ⟨hcalls, hs⟩ := Option.ite_none_left_eq_some.mp hs
      cases hs
      exact h.resolve (Option.not_isSome_iff_eq_none.mp hcalls) hcalm
  | resume pid =>
      obtain ⟨r, hcalls, hs⟩ := Option.map_eq_some_iff.mp hs
      cases hs
      exact h.resume hcalls
  | arpIn pkt =>
      cases hs
      exact h.arpIn hcalm
  | send pid msg =>
      cases hs
      have hcalls := hcalm.1 pid msg rfl
      unfold Arp.send at hsound ⊢
      split
      · exact h
      · rename_i hmail
        rw [if_neg hmail] at hsound
        refine h.change pid hsound (fun _ _ => rfl) (fun p hp => upd_of_ne hp)
          (fun _ _ _ _ => rfl) (fun r hr => ?_) fun r hr => ?_
        · exact absurd (hcalls.symm.trans hr) (Option.some_ne_none r).symm
        · exact absurd (hcalls.symm.trans hr) (Option.some_ne_none r).symm
  | receive pid =>
      obtain ⟨-, hs⟩ := Option.ite_none_left_eq_some.mp hs
      cases hs
      exact h.recvclr pid
  | network net =>
      cases hs
      exact h.keep hsound rfl h.held

end Calm

/-!
## Runs
-/

theorem Init.sound {s : Arp} (h : Init s) : s.Sound := by
  obtain ⟨hfree, -, hreturned⟩ := h
  refine ⟨fun slot hresolved => ?_, fun slot hpending => ?_, ?_⟩
  · exact absurd ((hfree slot).symm.trans hresolved) nofun
  · exact absurd ((hfree slot).symm.trans hpending) nofun
  · rw [hreturned]
    nofun

/-- In every run in which a process that goes on in {lit}`arp_resolve` with a message other
than {lit}`TIMEOUT` finds its entry resolved for its address (with {lit}`SYSERR`, not
pending), every address that was returned is one for everybody or that of the sender of
a packet, and a pending entry is that of a process that still waits for it. -/
theorem arp_resolves {s : Arp} (h : Runs.Reach step Fine Init s) :
    (∀ r ∈ s.returned, r.status = OK → ∃ mac, r.mac = some mac ∧
      ((r.nxthop = IP_BCAST ∨ r.nxthop = r.net.ipbcast) ∧ mac = r.net.ethbcast ∨
        ∃ pkt ∈ s.arrived, Says pkt r.nxthop mac)) ∧
    ∀ slot, (s.arpcache slot).arstate = .pending →
      ∃ i, s.calls (s.arpcache slot).arpid =
        some { nxthop := (s.arpcache slot).arpaddr, slot, i } := by
  have hsound : s.Sound :=
    h.invariant (fun _ => Init.sound) fun _ _ _ _ hI hfine hs => hI.step hfine hs
  exact ⟨hsound.right, hsound.owned⟩

/-- A machine that has just started. -/
def start (net : EthNetwork) : Arp where
  net := net
  arpcache := fun _ => ArpEntry.zero
  calls := fun _ => none
  mail := fun _ => none
  arrived := []
  sent := []
  returned := []

theorem init_start (net : EthNetwork) : Init (start net) := ⟨fun _ => rfl, fun _ => rfl, rfl⟩

/-- A host on the network. -/
def host (n : Nat) : EthNetwork where
  ipucast := UInt32.ofNat n
  ipbcast := 0xff
  ipvalid := true
  ethucast := Vector.ofFn fun _ => UInt8.ofNat n
  ethbcast := Vector.ofFn fun _ => 0xff

/-- What a host answers to a request for its address by another one. -/
def answer (n m : Nat) : Packet :=
  arpReply (host n) (arpNtoh (arpRequest (host m) (host n).ipucast))

/-- One process asks for an address, and gets it from the answer. -/
theorem arp_resolves_answer :
    ∃ s : Arp, s.returned.map (fun r => (r.nxthop, r.status, r.mac)) =
        [(9, OK, some (host 9).ethucast)] ∧
      ∀ r ∈ s.returned, r.status = OK → ∃ mac, r.mac = some mac ∧
        ((r.nxthop = IP_BCAST ∨ r.nxthop = r.net.ipbcast) ∧ mac = r.net.ethbcast ∨
          ∃ pkt ∈ s.arrived, Says pkt r.nxthop mac) := by
  obtain ⟨s, hs, hreturned⟩ := Runs.exists_reach_of_follow step Fine (init_start (host 1))
    [.resolve 1 9, .send 1 TIMEOUT, .resume 1, .arpIn (answer 9 1), .resume 1]
    (fun s => s.returned.map (fun r => (r.nxthop, r.status, r.mac)) =
      [(9, OK, some (host 9).ethucast)]) (by decide +kernel)
  exact ⟨s, hreturned, (arp_resolves hs).1⟩

/-- A message from elsewhere is taken for an answer, a message {lit}`SYSERR` leaves the entry
pending, and an address is read from an entry that was given to another one. -/
theorem arp_resolves_wrong :
    (∃ s, Runs.Reach step (fun _ _ => True) Init s ∧ s.arrived.length = 0 ∧
      (∀ r ∈ s.returned, r.net.ipbcast = 0xff) ∧
      s.returned.map (fun r => (r.nxthop, r.status, r.mac)) = [(9, OK, some zeroMac)]) ∧
    (∃ s, Runs.Reach step (fun _ _ => True) Init s ∧ (s.arpcache 0).arstate = .pending ∧
      (s.arpcache 0).arpid = 1 ∧ (s.calls 1).isNone = true ∧
      s.returned.map (fun r => (r.nxthop, r.status)) = [(9, SYSERR)]) ∧
    ∃ s, Runs.Reach step (fun _ _ => True) Init s ∧
      (∀ pkt ∈ s.arrived, getMac pkt arp_sndha ≠ zeroMac) ∧
      (∀ r ∈ s.returned, r.net.ipbcast = 0xff) ∧
      s.returned.map (fun r => (r.nxthop, r.status, r.mac)) = [(9, OK, some zeroMac)] := by
  refine ⟨?_, ?_, ?_⟩
  · exact Runs.exists_reach_of_follow step (fun _ _ => True) (init_start (host 1))
      [.resolve 1 9, .send 1 5, .resume 1] _ (by decide +kernel)
  · exact Runs.exists_reach_of_follow step (fun _ _ => True) (init_start (host 1))
      [.resolve 1 9, .send 1 SYSERR, .resume 1] _ (by decide +kernel)
  · exact Runs.exists_reach_of_follow step (fun _ _ => True) (init_start (host 1))
      ([.resolve 1 9] ++
        ((List.range 15).map fun n => .arpIn (arpRequest (host (20 + n)) 1)) ++
        [.arpIn (answer 9 1), .resolve 2 77, .resume 1]) _ (by decide +kernel)

end Arp

end Net
end BbbXinu
