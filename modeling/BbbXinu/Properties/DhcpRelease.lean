import BbbXinu.Invariant.PacketBytes
import BbbXinu.Net.Dhcp

/-!
# The endpoint of a DHCP exchange

{lit}`getlocalip_boot` registers an endpoint and releases it after an acknowledgement and after
the last round.  When a receive fails or an offer has no server identifier it returns without
that.
-/

namespace BbbXinu
namespace Net

open Labels

/-!
## What is received
-/

/-- How an answer is treated: the loop goes on, or it ends because the receive has failed,
because an offer has no server identifier, or with an acknowledgement. -/
inductive AnswerKind where
  | other | failed | noServer | ack
  deriving DecidableEq, Repr

/-- The number of the exchange in the messages of a client. -/
def sentXid (ethucast : Mac) : UInt32 := htonl (get32 (setMac (fun _ => 0) 0 ethucast) 0)

/-- How an answer is treated when the buffer holds {lit}`p`. -/
def answerKind (ethucast : Mac) (p : Packet) (r : Received) : AnswerKind :=
  if r.inlen = TIMEOUT then .other
  else if r.inlen = SYSERR then .failed
  else if htonl (get32 p dc_xid) ≠ htonl (sentXid ethucast) then .other
  else if (bootOptions p r.inlen.toNat).msgtype = 2 then
    if getDhcpOptionValue p r.inlen.toNat DHCP_SERVER_ID = none then .noServer else .other
  else if p (dc_opt + 2) ≠ 5 then .other
  else .ack

/-- A call: what is on the stack before, what the caller wants, and what is received. -/
structure BootCall where
  dmsgSnd : Packet
  dmsgRvc : Packet
  args : Option BootArgs
  recv : Nat → Received

namespace BootCall

/-- The buffer after some receives.  What was there before stays behind shorter messages. -/
def buffer (c : BootCall) : Nat → Packet
  | 0 => c.dmsgRvc
  | k + 1 => stored (c.buffer k) 0 (c.recv k).bytes

def kind (c : BootCall) (ethucast : Mac) (k : Nat) : AnswerKind :=
  answerKind ethucast (c.buffer (k + 1)) (c.recv k)

/-- The first answer of some that ends the loop. -/
def ending (c : BootCall) (ethucast : Mac) (k n : Nat) : Option AnswerKind :=
  ((List.range' k n).map (c.kind ethucast)).find? fun a => a ≠ .other

/-- If an answer ends the call, it is an acknowledgement. -/
def EndsWell (c : BootCall) (ethucast : Mac) : Prop :=
  ∀ a ∈ c.ending ethucast 0 (3 * DHCP_RETRY), a = .ack

instance (c : BootCall) (ethucast : Mac) : Decidable (c.EndsWell ethucast) :=
  inferInstanceAs (Decidable (∀ a ∈ c.ending ethucast 0 (3 * DHCP_RETRY), a = .ack))

/-- The state in which the call is made. -/
def start (c : BootCall) (net : BootNetwork) (udp : Udp) : Boot where
  net := net
  udp := udp
  dmsgSnd := c.dmsgSnd
  dmsgRvc := c.dmsgRvc
  len := 0
  args := c.args
  sent := []
  released := []

end BootCall

/-- In a sequence of calls each that gets an endpoint releases it exactly once, and leaves the
table of endpoints as it was. -/
def CallsRelease : BootNetwork → Udp → List BootCall → Prop
  | _, _, [] => True
  | net, udp, c :: cs =>
      let r := (c.start net udp).getlocalipBoot c.recv
      (∀ slot, udp.freeSlot 0 UDP_DHCP_SPORT UDP_DHCP_CPORT = some slot →
        r.1.released = [slot] ∧ SameEndpoints udp r.1.udp) ∧ CallsRelease r.1.net r.1.udp cs

section

variable {s t u v : Udp} {slot : Int} {remip : UInt32} {remport locport : UInt16}
  {B : Boot} {c : BootCall} {E : Mac} {n k j : Nat} {net : BootNetwork}

/-!
## The table of endpoints
-/

theorem SameEndpoints.trans (h : SameEndpoints s t) (h' : SameEndpoints t u) :
    SameEndpoints s u := by
  intro i
  rcases h i with ⟨hfree, haddr⟩
  rcases h' i with ⟨hfree', haddr'⟩
  refine ⟨hfree.trans hfree', fun hused => ?_⟩
  rcases haddr hused with ⟨hip, hrem, hloc⟩
  rcases haddr' fun h => hused (hfree.mpr h) with ⟨hip', hrem', hloc'⟩
  exact ⟨hip'.trans hip, hrem'.trans hrem, hloc'.trans hloc⟩

theorem SameEndpoints.refl (s : Udp) : SameEndpoints s s :=
  fun _ => ⟨Iff.rfl, fun _ => ⟨rfl, rfl, rfl⟩⟩

/-- Whether there is a slot to register depends on the registered ones. -/
theorem SameEndpoints.freeSlot (h : SameEndpoints s t) :
    s.freeSlot remip remport locport = t.freeSlot remip remport locport := by
  have hany : ∀ i, decide ((s.udptab i).udstate ≠ .free ∧ (s.udptab i).udremport = remport ∧
      (s.udptab i).udlocport = locport ∧ (s.udptab i).udremip = remip) =
        decide ((t.udptab i).udstate ≠ .free ∧ (t.udptab i).udremport = remport ∧
      (t.udptab i).udlocport = locport ∧ (t.udptab i).udremip = remip) := by
    intro i
    apply decide_eq_decide.mpr
    rcases h i with ⟨hfree, haddr⟩
    by_cases hused : (s.udptab i).udstate = .free
    · exact iff_of_false (fun h' => h'.1 hused) fun h' => h'.1 (hfree.mp hused)
    · rcases haddr hused with ⟨hip, hrem, hloc⟩
      rw [hip, hrem, hloc]
      exact and_congr_left' (not_congr hfree)
  have hfind : ∀ i, decide ((s.udptab i).udstate = .free) = decide ((t.udptab i).udstate = .free) :=
    fun i => decide_eq_decide.mpr (h i).1
  unfold Udp.freeSlot
  simp only [hany, hfind]

theorem freeSlot_spec (h : s.freeSlot remip remport locport = some slot) :
    slot ∈ Udp.slots ∧ (s.udptab slot).udstate = .free := by
  unfold Udp.freeSlot at h
  split at h
  · cases h
  · have hfree := List.find?_some h
    exact ⟨List.mem_of_find?_eq_some h, of_decide_eq_true hfree⟩

theorem slots_bounds (h : slot ∈ Udp.slots) : 0 ≤ slot ∧ slot < UDP_SLOTS := by
  rcases List.mem_map.mp h with ⟨i, hi, rfl⟩
  have hlt := List.mem_range.mp hi
  unfold UDP_SLOTS at hlt ⊢
  change (0 : Int) ≤ (i : Int) ∧ (i : Int) < 6
  omega

theorem udptab_register (h : s.freeSlot remip remport locport = some slot) :
    (s.udpRegister remip remport locport).udptab =
      upd s.udptab slot ((s.udptab slot).register remip remport locport) := by
  unfold Udp.udpRegister
  rw [h]
  rfl

/-- An endpoint that has been registered cannot be registered again. -/
theorem freeSlot_register (h : s.freeSlot remip remport locport = some slot) :
    (s.udpRegister remip remport locport).freeSlot remip remport locport = none := by
  unfold Udp.freeSlot
  refine if_pos (List.any_eq_true.mpr ⟨slot, (freeSlot_spec h).1, decide_eq_true ?_⟩)
  rw [udptab_register h, upd_self]
  exact ⟨fun hno => (nomatch hno), rfl, rfl, rfl⟩

/-- To register an endpoint and release it again leaves the others. -/
theorem release_register (hslot : s.freeSlot remip remport locport = some slot)
    (h : SameEndpoints (s.udpRegister remip remport locport) v) :
    SameEndpoints s (v.udpRelease slot) := by
  rcases freeSlot_spec hslot with ⟨hmem, hfree⟩
  have hbounds := slots_bounds hmem
  have hreg := udptab_register hslot
  have hused : (v.udptab slot).udstate ≠ .free := by
    intro hv
    have hno := (h slot).1.mpr hv
    rw [hreg, upd_self] at hno
    cases hno
  have hrel : (v.udpRelease slot).udptab = upd v.udptab slot
      { ((v.udptab slot).drain (v.udptab slot).udcount.toNat).1 with udstate := .free } := by
    unfold Udp.udpRelease
    rw [if_neg (by omega), if_neg hused]
    rfl
  intro i
  rw [hrel]
  by_cases hi : i = slot
  · subst hi
    rw [upd_self]
    exact ⟨iff_of_true hfree rfl, fun hno => absurd hfree hno⟩
  · have hother := h i
    rw [hreg, upd_of_ne hi] at hother
    rw [upd_of_ne hi]
    exact hother

/-!
## What a client sends
-/

/-- Both messages carry the number of the exchange. -/
theorem get32_dhcpMessage (sip : UInt32) (opts : List UInt8) :
    get32 (dhcpMessage E sip opts) dc_xid = sentXid E := by
  have hkeep : ∀ i < 4, dhcpMessage E sip opts (dc_xid + i) =
      set32 (upd (upd (upd (fun _ => 0) dc_bop 1) dc_htype 1) dc_hlen 6) dc_xid (sentXid E)
        (dc_xid + i) := by
    intro i hi
    have hopt : ¬dc_opt ≤ dc_xid + i := by unfold dc_opt dc_xid; omega
    have hchaddr : ¬(dc_chaddr ≤ dc_xid + i ∧ dc_xid + i - dc_chaddr < ETH_ADDR_LEN) := by
      unfold dc_chaddr dc_xid
      omega
    have hcookie : dc_xid + i < dc_cookie := by unfold dc_cookie dc_xid; omega
    have hsip : dc_xid + i < dc_sip := by unfold dc_sip dc_xid; omega
    have hstored : dhcpMessage E sip opts (dc_xid + i) =
        set32 (setMac (set32 (set32 (upd (upd (upd (fun _ => 0) dc_bop 1) dc_htype 1) dc_hlen 6)
          dc_xid (sentXid E)) dc_sip sip) dc_chaddr E) dc_cookie (htonl 0x63825363) (dc_xid + i) :=
      if_neg hopt
    rw [hstored, set32_of_ne (Or.inl hcookie)]
    unfold setMac
    rw [dif_neg hchaddr, set32_of_ne (Or.inl hsip)]
  rw [get32_congr hkeep, get32_set32]

/-- A request is built if the offer has a server identifier. -/
theorem buildDhcpRequest_spec (p : Packet) (size : Nat) :
    (getDhcpOptionValue p size DHCP_SERVER_ID = none ∧ buildDhcpRequest E p size = none) ∨
    ∃ q len, getDhcpOptionValue p size DHCP_SERVER_ID ≠ none ∧
      buildDhcpRequest E p size = some (q, len) ∧ get32 q dc_xid = sentXid E := by
  unfold buildDhcpRequest
  cases getDhcpOptionValue p size DHCP_SERVER_ID with
  | none => exact Or.inl ⟨rfl, rfl⟩
  | some o => exact Or.inr ⟨_, _, Option.some_ne_none o, rfl, get32_dhcpMessage _ _⟩

/-!
## One answer
-/

/-- Some answers have been received, and none has ended the call.  {lit}`u` is the table with
the endpoint of the call. -/
structure Waiting (E : Mac) (u : Udp) (c : BootCall) (k : Nat) (B : Boot) : Prop where
  ethucast : B.net.ethucast = E
  xid : get32 B.dmsgSnd dc_xid = sentXid E
  buffer : B.dmsgRvc = c.buffer k
  endpoints : SameEndpoints u B.udp
  released : B.released = []

/-- An answer has ended the call.  Only an acknowledgement leads to the release. -/
structure Ended (E : Mac) (u : Udp) (slot : Int) (a : AnswerKind) (B : Boot) : Prop where
  ethucast : B.net.ethucast = E
  acknowledged : a = .ack → B.released = [slot] ∧ ∃ v, SameEndpoints u v ∧ B.udp = v.udpRelease slot
  refused : a ≠ .ack → B.released = [] ∧ SameEndpoints u B.udp

/-- To send does not end the wait. -/
theorem Waiting.sendto (h : Waiting E u c k B) : Waiting E u c k B.sendto :=
  ⟨h.ethucast, h.xid, h.buffer, h.endpoints, h.released⟩

/-- The state with the answer in the buffer, while others have run. -/
theorem Waiting.receive (h : Waiting E u c k B) :
    Waiting E u c (k + 1) { B with udp := (c.recv k).others B.udp,
                                   dmsgRvc := stored B.dmsgRvc 0 (c.recv k).bytes } := by
  refine ⟨h.ethucast, h.xid, ?_, h.endpoints.trans ((c.recv k).same B.udp), h.released⟩
  change stored B.dmsgRvc 0 (c.recv k).bytes = stored (c.buffer k) 0 (c.recv k).bytes
  rw [h.buffer]

/-- What the boot server and its file are does not matter to the endpoints. -/
theorem bootServer_frame (B : Boot) :
    B.bootServer.1.net = B.net ∧ B.bootServer.1.udp = B.udp ∧
      B.bootServer.1.released = B.released := by
  unfold Boot.bootServer
  split
  · exact ⟨rfl, rfl, rfl⟩
  · dsimp only
    split
    · exact ⟨rfl, rfl, rfl⟩
    · split
      · exact ⟨rfl, rfl, rfl⟩
      · exact ⟨rfl, rfl, rfl⟩

/-- An acknowledgement is taken over, the endpoint is released, and the call returns. -/
theorem Waiting.acknowledged (h : Waiting E u c k B) (b : BootOptions) :
    Ended E u slot .ack ((B.configure b).release slot).bootServer.1 := by
  rcases bootServer_frame ((B.configure b).release slot) with ⟨hnet, hudp, hrel⟩
  refine ⟨?_, fun _ => ⟨?_, B.udp, h.endpoints, hudp⟩, fun hno => absurd rfl hno⟩
  · rw [hnet]
    exact h.ethucast
  · rw [hrel]
    change B.released ++ [slot] = [slot]
    rw [h.released]
    rfl

/-- One round of the loop over the answers. -/
theorem answer_spec (slot : Int) (h : Waiting E u c k B) :
    (c.kind E k = .other ∧ ∃ B', B.answer slot (c.recv k) = (B', none) ∧
      Waiting E u c (k + 1) B') ∨
    (c.kind E k ≠ .other ∧ ∃ B' v, B.answer slot (c.recv k) = (B', some v) ∧
      Ended E u slot (c.kind E k) B') := by
  have hrec := h.receive
  unfold Boot.answer
  revert hrec
  generalize hB : ({ B with udp := (c.recv k).others B.udp,
                            dmsgRvc := stored B.dmsgRvc 0 (c.recv k).bytes } : Boot) = R
  intro hrec
  have hend : ∀ a, a ≠ AnswerKind.ack → Ended E u slot a R := fun a ha =>
    ⟨hrec.ethucast, fun hack => absurd hack ha, fun _ => ⟨hrec.released, hrec.endpoints⟩⟩
  unfold BootCall.kind answerKind
  rw [← hrec.buffer]
  dsimp only
  by_cases htime : (c.recv k).inlen = TIMEOUT
  · rw [if_pos htime, if_pos htime]
    exact Or.inl ⟨rfl, R, rfl, hrec⟩
  rw [if_neg htime, if_neg htime]
  by_cases hsys : (c.recv k).inlen = SYSERR
  · rw [if_pos hsys, if_pos hsys]
    exact Or.inr ⟨by decide, R, _, rfl, hend _ (by decide)⟩
  rw [if_neg hsys, if_neg hsys, hrec.xid]
  by_cases hxid : htonl (get32 R.dmsgRvc dc_xid) ≠ htonl (sentXid E)
  · rw [if_pos hxid, if_pos hxid]
    exact Or.inl ⟨rfl, R, rfl, hrec⟩
  rw [if_neg hxid, if_neg hxid]
  by_cases hoffer : (bootOptions R.dmsgRvc (c.recv k).inlen.toNat).msgtype = 2
  · rw [if_pos hoffer, if_pos hoffer, hrec.ethucast]
    rcases buildDhcpRequest_spec (E := E) R.dmsgRvc (c.recv k).inlen.toNat with
      ⟨hnone, hbuild⟩ | ⟨q, len, hsome, hbuild, hq⟩
    · rw [hbuild, if_pos hnone]
      exact Or.inr ⟨by decide, _, _, rfl,
        ⟨hrec.ethucast, fun hno => absurd hno (by decide),
          fun _ => ⟨hrec.released, hrec.endpoints⟩⟩⟩
    · rw [hbuild, if_neg hsome]
      exact Or.inl ⟨rfl, _, rfl, ⟨hrec.ethucast, hq, hrec.buffer, hrec.endpoints, hrec.released⟩⟩
  rw [if_neg hoffer, if_neg hoffer]
  by_cases hack : R.dmsgRvc (dc_opt + 2) ≠ 5
  · rw [if_pos hack, if_pos hack]
    exact Or.inl ⟨rfl, R, rfl, hrec⟩
  rw [if_neg hack, if_neg hack]
  exact Or.inr ⟨by decide, _, _, rfl, hrec.acknowledged _⟩

/-!
## The loops
-/

theorem ending_zero : c.ending E k 0 = none := rfl

theorem ending_succ_other (h : c.kind E k = .other) :
    c.ending E k (n + 1) = c.ending E (k + 1) n := by
  unfold BootCall.ending
  rw [List.range'_succ, List.map_cons, List.find?_cons_of_neg (by simp [h])]

theorem ending_succ_ends (h : c.kind E k ≠ .other) :
    c.ending E k (n + 1) = some (c.kind E k) := by
  unfold BootCall.ending
  rw [List.range'_succ, List.map_cons, List.find?_cons_of_pos (by simp [h])]

theorem ending_add (k m n : Nat) :
    c.ending E k (m + n) = (c.ending E k m).or (c.ending E (k + m) n) := by
  unfold BootCall.ending
  rw [← List.find?_append, ← List.map_append, ← List.range'_append_1]

/-- How a loop over the answers ends: with the first answer that ends it, or after the last. -/
def LoopSpec (E : Mac) (u : Udp) (slot : Int) (c : BootCall) (k n : Nat)
    (r : Boot × Option UInt32) : Prop :=
  (c.ending E k n = none ∧ ∃ B, r = (B, none) ∧ Waiting E u c (k + n) B) ∨
  ∃ a, c.ending E k n = some a ∧ ∃ B v, r = (B, some v) ∧ Ended E u slot a B

theorem answers_spec (slot : Int) (n : Nat) (h : Waiting E u c k B) :
    LoopSpec E u slot c k n (Boot.answers slot c.recv n k B) := by
  induction n generalizing k B with
  | zero => exact Or.inl ⟨ending_zero, B, rfl, h⟩
  | succ n ih =>
      unfold Boot.answers
      rcases answer_spec slot h with
        ⟨hkind, B', hanswer, hwait⟩ | ⟨hkind, B', v, hanswer, hended⟩
      · rw [hanswer]
        have hrest := ih hwait
        unfold LoopSpec at hrest ⊢
        rw [ending_succ_other hkind]
        rwa [show k + 1 + n = k + (n + 1) by omega] at hrest
      · rw [hanswer]
        exact Or.inr ⟨_, ending_succ_ends hkind, B', v, rfl, hended⟩

theorem retries_spec (slot : Int) (n : Nat) (h : Waiting E u c k B) :
    LoopSpec E u slot c k (3 * n) (Boot.retries slot c.recv n k B) := by
  induction n generalizing k B with
  | zero => exact Or.inl ⟨ending_zero, B, rfl, h⟩
  | succ n ih =>
      unfold Boot.retries
      have hsplit : c.ending E k (3 * (n + 1)) =
          (c.ending E k 3).or (c.ending E (k + 3) (3 * n)) := by
        rw [show 3 * (n + 1) = 3 + 3 * n by omega, ending_add]
      unfold LoopSpec
      rw [hsplit]
      rcases answers_spec slot 3 h.sendto with
        ⟨hnone, B', hanswers, hwait⟩ | ⟨a, hsome, B', v, hanswers, hended⟩
      · rw [hanswers, hnone, Option.none_or]
        have hrest := ih hwait
        unfold LoopSpec at hrest
        rwa [show k + 3 + 3 * n = k + 3 * (n + 1) by omega] at hrest
      · rw [hanswers, hsome]
        exact Or.inr ⟨a, rfl, B', v, rfl, hended⟩

/-!
## A call
-/

/-- A call that finds no endpoint to register does nothing. -/
theorem getlocalipBoot_none (c : BootCall) {udp : Udp}
    (h : udp.freeSlot 0 UDP_DHCP_SPORT UDP_DHCP_CPORT = none) :
    (c.start net udp).getlocalipBoot c.recv = (c.start net udp, UInt32.ofInt SYSERR) := by
  unfold Boot.getlocalipBoot
  rw [show (c.start net udp).udp = udp from rfl, h]

/-- The endpoint is released, and the table is as before, if and only if the answer that ends
the call, when there is one, is an acknowledgement. -/
theorem getlocalipBoot_spec (net : BootNetwork) (c : BootCall) {udp : Udp}
    (h : udp.freeSlot 0 UDP_DHCP_SPORT UDP_DHCP_CPORT = some slot) :
    let r := (c.start net udp).getlocalipBoot c.recv
    (c.EndsWell net.ethucast ∧ r.1.released = [slot] ∧ SameEndpoints udp r.1.udp ∧
      r.1.net.ethucast = net.ethucast) ∨
    (¬c.EndsWell net.ethucast ∧ r.1.released = [] ∧
      r.1.udp.freeSlot 0 UDP_DHCP_SPORT UDP_DHCP_CPORT = none) := by
  unfold Boot.getlocalipBoot
  rw [show (c.start net udp).udp = udp from rfl, h]
  dsimp only
  have hstart : Waiting net.ethucast (udp.udpRegister 0 UDP_DHCP_SPORT UDP_DHCP_CPORT) c 0
      { c.start net udp with
        udp := udp.udpRegister 0 UDP_DHCP_SPORT UDP_DHCP_CPORT
        dmsgSnd := (buildDhcpDiscover (c.start net udp).net.ethucast).1
        len := (buildDhcpDiscover (c.start net udp).net.ethucast).2 } :=
    ⟨rfl, get32_dhcpMessage _ _, rfl, SameEndpoints.refl _, rfl⟩
  unfold BootCall.EndsWell
  rcases retries_spec slot DHCP_RETRY hstart with
    ⟨hnone, B, hret, hwait⟩ | ⟨a, hsome, B, v, hret, hended⟩
  · rw [hret, hnone]
    refine Or.inl ⟨fun a ha => (nomatch ha), ?_, release_register h hwait.endpoints, hwait.ethucast⟩
    change B.released ++ [slot] = [slot]
    rw [hwait.released]
    rfl
  · rw [hret, hsome]
    by_cases ha : a = .ack
    · rcases hended.acknowledged ha with ⟨hrel, w, hw, hudp⟩
      refine Or.inl ⟨fun a' ha' => (Option.some.inj ha').symm.trans ha, hrel, ?_, hended.ethucast⟩
      rw [hudp]
      exact release_register h hw
    · rcases hended.refused ha with ⟨hrel, hsame⟩
      refine Or.inr ⟨fun hall => ha (hall a rfl), hrel, ?_⟩
      rw [← hsame.freeSlot]
      exact freeSlot_register h

/-- Every call that registers an endpoint releases it exactly once if and only if there is none
to register, or in each call the answer that ends it, when there is one, is an
acknowledgement: no receive fails before it, and no offer lacks a server identifier. -/
theorem callsRelease_iff (net : BootNetwork) (udp : Udp) (cs : List BootCall) :
    CallsRelease net udp cs ↔
      udp.freeSlot 0 UDP_DHCP_SPORT UDP_DHCP_CPORT = none ∨
        ∀ c ∈ cs, c.EndsWell net.ethucast := by
  induction cs generalizing net udp with
  | nil => exact iff_of_true trivial (Or.inr fun c hc => nomatch hc)
  | cons c cs ih =>
      unfold CallsRelease
      dsimp only
      rw [ih]
      cases hslot : udp.freeSlot 0 UDP_DHCP_SPORT UDP_DHCP_CPORT with
      | none =>
          rw [getlocalipBoot_none c hslot]
          exact iff_of_true ⟨fun _ h => (nomatch h), Or.inl hslot⟩ (Or.inl rfl)
      | some slot =>
          rcases getlocalipBoot_spec net c hslot with
            ⟨hwell, hrel, hsame, heth⟩ | ⟨hill, hrel, -⟩
          · rw [← hsame.freeSlot, hslot, heth]
            constructor
            · rintro ⟨-, hrest⟩
              refine Or.inr fun c' hc' => ?_
              rcases List.mem_cons.mp hc' with rfl | htail
              · exact hwell
              · exact (hrest.resolve_left (Option.some_ne_none slot)) c' htail
            · intro hall
              have hcs := hall.resolve_left (Option.some_ne_none slot)
              refine ⟨fun slot' h' => ?_, Or.inr fun c' hc' => hcs c' (List.mem_cons_of_mem c hc')⟩
              rw [← Option.some.inj h']
              exact ⟨hrel, hsame⟩
          · refine iff_of_false (fun hall => ?_) fun hall => ?_
            · have hone := (hall.1 slot rfl).1
              rw [hrel] at hone
              cases hone
            · exact hill (hall.resolve_left (Option.some_ne_none slot) c List.mem_cons_self)

end

/-!
## A receive that fails
-/

/-- A receive that is interrupted by a message from another process. -/
def failedReceive : Received where
  inlen := SYSERR
  bytes := []
  others := id
  length := rfl
  fits := by decide
  same := SameEndpoints.refl

/-- A call of a machine without an address, in which the first receive fails. -/
def failedCall : BootCall where
  dmsgSnd := fun _ => 0
  dmsgRvc := fun _ => 0
  args := none
  recv := fun _ => failedReceive

def unconfigured : BootNetwork where
  ipucast := 0
  ipbcast := 0
  ipvalid := false
  ethucast := Vector.ofFn fun _ => 2
  ethbcast := Vector.ofFn fun _ => 0xff
  ipmask := 0
  ipprefix := 0
  iprouter := 0

theorem failedCall_keeps_endpoint : ¬CallsRelease unconfigured Udp.init [failedCall] := by
  rintro ⟨hone, -⟩
  have hslot : Udp.init.freeSlot 0 UDP_DHCP_SPORT UDP_DHCP_CPORT = some 0 := by decide
  have hill : ¬failedCall.EndsWell unconfigured.ethucast := by decide
  rcases getlocalipBoot_spec unconfigured failedCall hslot with ⟨hwell, -⟩ | ⟨-, hrel, -⟩
  · exact hill hwell
  · have hreleased := (hone 0 hslot).1
    rw [hrel] at hreleased
    cases hreleased

end Net
end BbbXinu
