import BbbXinu.Queues.Spec
import BbbXinu.Rfs.Files

/-!
# The length in a reply of the file server

{lit}`rflread` copies as many bytes as the reply says, returns that number and adds it to
the position, and {lit}`rflwrite` adds it, too.  Neither compares it to the number that was
asked for, nor to what was received.
-/

namespace BbbXinu
namespace Rfs

open CStrings Net

/-- The reply that a call accepts, and what {lit}`rfscomm` returned with it: the number of
bytes received. -/
def accepted (s : Rfs) (c : RfsCall) (f : Surroundings) : Option (Packet × Int) :=
  match s.request f.msg c with
  | (s, .request _ msg rlen) =>
      let r := (rfscomm s.port f.wire msg f.resp rlen).2
      if Replied r.1 r.2 then some r else none
  | _ => none

/-- What {lit}`rflread` stores and returns is what it may: no more than was asked for, and
nothing but data of the datagram that it received. -/
structure ReadBounded (s : Rfs) (d : Fin Nrfl) (count : Int) (f : Surroundings)
    (t : Rfs × Int × List UInt8) : Prop where
  room : t.2.2.length ≤ count.toNat
  received : ∀ k < t.2.2.length, ∃ r ∈ s.accepted (.rflread d count) f, ∃ j < RETRIES,
    r.2 = min (f.wire.round j).msglen RRES_SIZE ∧ (rf_data + k : Nat) < r.2 ∧
      t.2.2[k]? = some ((f.wire.round j).udpdata (rf_data + k))
  retval : t.2.1 = SYSERR ∨ 0 ≤ t.2.1 ∧ t.2.1 ≤ count
  advance : (t.1.rfltab d).rfpos = (s.rfltab d).rfpos + UInt32.ofNat t.2.1.toNat

/-- {lit}`rflwrite` advances the position by no more than was asked for. -/
def WriteBounded (s : Rfs) (d : Fin Nrfl) (count : Int) (t : Rfs × Int × List UInt8) : Prop :=
  ((t.1.rfltab d).rfpos - (s.rfltab d).rfpos).toNat ≤ count.toNat

section

variable {s : Rfs} {d : Fin Nrfl} {count : Int} {f : Surroundings} {buff : Nat → UInt8}
  {judge : Packet → Int → Verdict} {rlen left i : Nat} {round : Nat → CommRound} {xmit : Bool}
  {reply msg : Packet} {seq : UInt32} {retval v : Int}

/-!
## What is received
-/

theorem rfsVerdict_done (h : rfsVerdict seq msg reply retval = .done v) : v = retval := by
  unfold rfsVerdict at h
  split at h
  · cases h
  · cases h
    rfl

/-- The reply begins with the datagram that is accepted. -/
theorem commLoop_received (hjudge : ∀ reply retval v, judge reply retval = .done v → v = retval)
    (h : Replied (commLoop judge rlen round left i xmit reply).1
      (commLoop judge rlen round left i xmit reply).2) :
    ∃ j < i + left,
      (commLoop judge rlen round left i xmit reply).2 = min (round j).msglen rlen ∧
      ∀ k : Nat, (k : Int) < (commLoop judge rlen round left i xmit reply).2 →
        (commLoop judge rlen round left i xmit reply).1 k = (round j).udpdata k := by
  induction left generalizing i xmit reply with
  | zero => exact absurd rfl h.2.1
  | succ left ih =>
      unfold commLoop at h ⊢
      split at h
      · exact absurd rfl h.1
      · rename_i hsent
        rw [if_neg hsent]
        dsimp only at h ⊢
        split at h
        · rename_i htime
          rw [if_pos htime]
          rcases ih h with ⟨j, hj, hrest⟩
          exact ⟨j, by omega, hrest⟩
        · rename_i htime
          rw [if_neg htime]
          split at h
          · exact absurd rfl h.1
          · rename_i herror
            rw [if_neg herror]
            split at h
            · rcases ih h with ⟨j, hj, hrest⟩
              exact ⟨j, by omega, hrest⟩
            · rename_i v hverdict
              have hv := hjudge _ _ _ hverdict
              refine ⟨i, by omega, hv, ?_⟩
              intro k hk
              dsimp only at hk ⊢
              exact if_pos (by omega)

theorem rfscomm_received (p : Port) (w : Wire) (msg reply : Packet) (rlen : Nat)
    (h : Replied (rfscomm p w msg reply rlen).2.1 (rfscomm p w msg reply rlen).2.2) :
    ∃ j < RETRIES, (rfscomm p w msg reply rlen).2.2 = min (w.round j).msglen rlen ∧
      ∀ k : Nat, (k : Int) < (rfscomm p w msg reply rlen).2.2 →
        (rfscomm p w msg reply rlen).2.1 k = (w.round j).udpdata k := by
  unfold rfscomm at h ⊢
  split at h
  · exact absurd rfl h.1
  · dsimp only at h ⊢
    rcases commLoop_received (fun _ _ _ => rfsVerdict_done) h with ⟨j, hj, hrest⟩
    exact ⟨j, by omega, hrest⟩

/-!
## The calls
-/

/-- A read is rejected, or makes its request with the name in the control block. -/
theorem rflreadRequest_cases (s : Rfs) (d : Fin Nrfl) (stack : Packet) (count : Int) :
    s.rflreadRequest d stack count = .returned SYSERR ∨
      (0 < count ∧ count ≤ RF_DATALEN) ∧ (s.rfltab d).rfstate ≠ .free ∧
        ∃ len, nullAt (s.rfltab d).rfname RF_NAMLEN = some len ∧
          s.rflreadRequest d stack count =
            .request d (putRange (putName (clearName (formHeader stack RF_MSG_RREQ))
              (s.rfltab d).rfname len) (s.rfltab d).rfpos count) RRES_SIZE := by
  unfold rflreadRequest
  dsimp only
  split
  · exact Or.inl rfl
  · rename_i hcount
    split
    · exact Or.inl rfl
    · rename_i hfree
      split
      · exact Or.inl rfl
      · cases nullAt (s.rfltab d).rfname RF_NAMLEN with
        | none => exact Or.inl rfl
        | some len => exact Or.inr ⟨by omega, hfree, len, rfl, rfl⟩

/-- A write is not rejected for its count or its device. -/
def WriteOpen (s : Rfs) (d : Fin Nrfl) (count : Int) : Prop :=
  (0 < count ∧ count ≤ RF_DATALEN) ∧ (s.rfltab d).rfstate ≠ .free ∧
    (s.rfltab d).rfmode &&& RF_MODE_W ≠ 0

instance (s : Rfs) (d : Fin Nrfl) (count : Int) : Decidable (WriteOpen s d count) :=
  inferInstanceAs (Decidable ((_ ∧ _) ∧ _ ∧ _))

/-- The string behind the null byte at an offset of the name in a control block. -/
def tailOf (blk : Rflcblk) (len : Nat) : Option Nat :=
  nullAt (fun k => blk.rfname (len + 1 + k)) (RF_NAMLEN - (len + 1))

/-- A write is rejected, or copies the name and what is behind it. -/
theorem rflwriteRequest_cases (s : Rfs) (d : Fin Nrfl) (stack : Packet) (buff : Nat → UInt8)
    (count : Int) :
    (s.rflwriteRequest d stack buff count = .returned SYSERR ∧
      (WriteOpen s d count → nullAt (s.rfltab d).rfname RF_NAMLEN = none)) ∨
    WriteOpen s d count ∧ ∃ len, nullAt (s.rfltab d).rfname RF_NAMLEN = some len ∧
      ((tailOf (s.rfltab d) len = none ∧ s.rflwriteRequest d stack buff count = .fault) ∨
        ∃ more, tailOf (s.rfltab d) len = some more ∧ s.rflwriteRequest d stack buff count =
          .request d (putData (putRange (copy (putName (clearName (formHeader stack RF_MSG_WREQ))
            (s.rfltab d).rfname len) (rf_name + (len + 1)) (s.rfltab d).rfname (len + 1) (more + 1))
            (s.rfltab d).rfpos count) buff count.toNat) WRES_SIZE) := by
  unfold rflwriteRequest tailOf
  dsimp only
  by_cases hcount : count ≤ 0 ∨ count > RF_DATALEN
  · rw [if_pos hcount]
    exact Or.inl ⟨rfl, fun hopen => absurd hopen.1 (by omega)⟩
  · rw [if_neg hcount]
    by_cases hdev : (s.rfltab d).rfstate = .free ∨ (s.rfltab d).rfmode &&& RF_MODE_W = 0
    · rw [if_pos hdev]
      exact Or.inl ⟨rfl, fun hopen => absurd hdev (not_or.mpr hopen.2)⟩
    · rw [if_neg hdev]
      cases nullAt (s.rfltab d).rfname RF_NAMLEN with
      | none => exact Or.inl ⟨rfl, fun _ => rfl⟩
      | some len =>
          refine Or.inr ⟨⟨by omega, not_or.mp hdev⟩, len, rfl, ?_⟩
          dsimp only
          cases nullAt (fun k => (s.rfltab d).rfname (len + 1 + k)) (RF_NAMLEN - (len + 1)) with
          | none => exact Or.inl ⟨rfl, rfl⟩
          | some more => exact Or.inr ⟨more, rfl, rfl⟩

theorem request_rflread {stack : Packet} :
    s.request stack (.rflread d count) = (s, s.rflreadRequest d stack count) := rfl

theorem request_rflwrite {stack : Packet} :
    s.request stack (.rflwrite d buff count) = (s, s.rflwriteRequest d stack buff count) := rfl

theorem accepted_of_returned {c : RfsCall} {s' : Rfs}
    (h : s.request f.msg c = (s', .returned retval)) : s.accepted c f = none := by
  unfold accepted
  rw [h]

theorem call_of_returned {c : RfsCall} {s' : Rfs}
    (h : s.request f.msg c = (s', .returned retval)) : s.call c f = some (s', retval, []) := by
  unfold call
  rw [h]

theorem accepted_of_fault {c : RfsCall} {s' : Rfs} (h : s.request f.msg c = (s', .fault)) :
    s.accepted c f = none := by
  unfold accepted
  rw [h]

theorem call_of_fault {c : RfsCall} {s' : Rfs} (h : s.request f.msg c = (s', .fault)) :
    s.call c f = none := by
  unfold call
  rw [h]

theorem accepted_of_request {c : RfsCall} {s' : Rfs} {i : Fin Nrfl}
    (h : s.request f.msg c = (s', .request i msg rlen)) :
    s.accepted c f =
      if Replied (rfscomm s'.port f.wire msg f.resp rlen).2.1
          (rfscomm s'.port f.wire msg f.resp rlen).2.2 then
        some (rfscomm s'.port f.wire msg f.resp rlen).2
      else none := by
  unfold accepted
  rw [h]

theorem call_of_request {c : RfsCall} {s' : Rfs} {i : Fin Nrfl}
    (h : s.request f.msg c = (s', .request i msg rlen)) :
    s.call c f =
      some (Rfs.reply { s' with port := (rfscomm s'.port f.wire msg f.resp rlen).1 } i
        (rfscomm s'.port f.wire msg f.resp rlen).2.1
        (rfscomm s'.port f.wire msg f.resp rlen).2.2 c) := by
  unfold call
  rw [h]

theorem rflreadReply_of_replied (h : Replied reply retval) :
    s.rflreadReply d reply retval =
      (s.setBlk d { s.rfltab d with rfpos := (s.rfltab d).rfpos + lenOf reply },
        int32 (lenOf reply).toNat,
        (List.range (lenOf reply).toNat).map fun i => reply (rf_data + i)) := if_pos h

theorem rflreadReply_of_not_replied (h : ¬ Replied reply retval) :
    s.rflreadReply d reply retval = (s, SYSERR, []) := if_neg h

theorem rflwriteReply_of_replied (h : Replied reply retval) :
    s.rflwriteReply d reply retval =
      (s.setBlk d { s.rfltab d with rfpos := (s.rfltab d).rfpos + lenOf reply },
        int32 (lenOf reply).toNat) := if_pos h

theorem rflwriteReply_of_not_replied (h : ¬ Replied reply retval) :
    s.rflwriteReply d reply retval = (s, SYSERR) := if_neg h

/-- A read that accepts no reply changes no control block; otherwise it asked for no more
than fits into a reply. -/
theorem call_rflread (s : Rfs) (d : Fin Nrfl) (count : Int) (f : Surroundings) :
    (s.accepted (.rflread d count) f = none ∧ ∃ s' : Rfs, s'.rfltab = s.rfltab ∧
      s.call (.rflread d count) f = some (s', SYSERR, [])) ∨
    ∃ r, s.accepted (.rflread d count) f = some r ∧ (0 < count ∧ count ≤ RF_DATALEN) ∧
      (∃ j < RETRIES, r.2 = min (f.wire.round j).msglen RRES_SIZE ∧
        ∀ k : Nat, (k : Int) < r.2 → r.1 k = (f.wire.round j).udpdata k) ∧
      ∃ s' : Rfs, s'.rfltab = s.rfltab ∧ s.call (.rflread d count) f =
        some (s'.setBlk d { s'.rfltab d with rfpos := (s'.rfltab d).rfpos + lenOf r.1 },
          int32 (lenOf r.1).toNat,
          (List.range (lenOf r.1).toNat).map fun i => r.1 (rf_data + i)) := by
  rcases rflreadRequest_cases s d f.msg count with h | ⟨hcount, _, len, _, h⟩
  · have hreq : s.request f.msg (.rflread d count) = (s, .returned SYSERR) := by
      rw [request_rflread, h]
    exact Or.inl ⟨accepted_of_returned hreq, s, rfl, call_of_returned hreq⟩
  · generalize putRange _ _ count = msg at h
    have hreq : s.request f.msg (.rflread d count) = (s, .request d msg RRES_SIZE) := by
      rw [request_rflread, h]
    rw [accepted_of_request hreq, call_of_request hreq]
    have hreceived := rfscomm_received s.port f.wire msg f.resp RRES_SIZE
    generalize rfscomm s.port f.wire msg f.resp RRES_SIZE = r at hreceived ⊢
    unfold Rfs.reply
    dsimp only
    by_cases hr : Replied r.2.1 r.2.2
    · right
      rw [if_pos hr, rflreadReply_of_replied hr]
      exact ⟨r.2, rfl, hcount, hreceived hr, { s with port := r.1 }, rfl, rfl⟩
    · left
      rw [if_neg hr, rflreadReply_of_not_replied hr]
      exact ⟨rfl, { s with port := r.1 }, rfl, rfl⟩

/-- A write that accepts no reply changes no control block, if it returns. -/
theorem call_rflwrite (s : Rfs) (d : Fin Nrfl) (buff : Nat → UInt8) (count : Int)
    (f : Surroundings) :
    (s.accepted (.rflwrite d buff count) f = none ∧
      ∀ t ∈ s.call (.rflwrite d buff count) f, t.1.rfltab = s.rfltab) ∨
    ∃ r, s.accepted (.rflwrite d buff count) f = some r ∧
      ∃ s' : Rfs, s'.rfltab = s.rfltab ∧ s.call (.rflwrite d buff count) f =
        some (s'.setBlk d { s'.rfltab d with rfpos := (s'.rfltab d).rfpos + lenOf r.1 },
          int32 (lenOf r.1).toNat, []) := by
  rcases rflwriteRequest_cases s d f.msg buff count with ⟨h, _⟩ |
    ⟨_, len, _, ⟨_, h⟩ | ⟨more, _, h⟩⟩
  · have hreq : s.request f.msg (.rflwrite d buff count) = (s, .returned SYSERR) := by
      rw [request_rflwrite, h]
    rw [accepted_of_returned hreq, call_of_returned hreq]
    left
    refine ⟨rfl, ?_⟩
    rintro t ⟨⟩
    rfl
  · have hreq : s.request f.msg (.rflwrite d buff count) = (s, .fault) := by
      rw [request_rflwrite, h]
    rw [accepted_of_fault hreq, call_of_fault hreq]
    left
    refine ⟨rfl, ?_⟩
    rintro t ⟨⟩
  · generalize putData _ buff _ = msg at h
    have hreq : s.request f.msg (.rflwrite d buff count) = (s, .request d msg WRES_SIZE) := by
      rw [request_rflwrite, h]
    rw [accepted_of_request hreq, call_of_request hreq]
    generalize rfscomm s.port f.wire msg f.resp WRES_SIZE = r
    unfold Rfs.reply
    dsimp only
    by_cases hr : Replied r.2.1 r.2.2
    · right
      rw [if_pos hr, rflwriteReply_of_replied hr]
      refine ⟨r.2, rfl, { s with port := r.1 }, rfl, ?_⟩
      dsimp only
    · left
      rw [if_neg hr, rflwriteReply_of_not_replied hr]
      refine ⟨rfl, ?_⟩
      rintro t ⟨⟩
      rfl

/-!
## Every count and every reply
-/

/-- A read is bounded if and only if the length in the reply is. -/
theorem read_bounded_iff (s : Rfs) (d : Fin Nrfl) (count : Int) (f : Surroundings) :
    (∀ t ∈ s.call (.rflread d count) f, ReadBounded s d count f t) ↔
      ∀ r ∈ s.accepted (.rflread d count) f, ((lenOf r.1).toNat : Int) ≤ count ∧
        (lenOf r.1 ≠ 0 → ((rf_data + (lenOf r.1).toNat : Nat) : Int) ≤ r.2) := by
  rcases call_rflread s d count f with ⟨hnone, s', hsame, hcall⟩ |
    ⟨r, hr, hcount, ⟨j, hj, hlen, hbytes⟩, s', hsame, hcall⟩
  · rw [hnone, hcall]
    constructor
    · rintro _ r ⟨⟩
    · rintro _ t ⟨⟩
      refine ⟨Nat.zero_le _, ?_, Or.inl rfl, ?_⟩
      · intro k hk
        cases hk
      · rw [hsame]
        exact (UInt32.add_zero _).symm
  · constructor
    · rintro hbounded _ hr'
      rw [hr] at hr'
      cases hr'
      have ht := hbounded _ hcall
      have hroom := ht.room
      dsimp only at hroom
      rw [List.length_map, List.length_range] at hroom
      refine ⟨by omega, ?_⟩
      intro hne
      have hpos : 0 < (lenOf r.1).toNat :=
        Nat.pos_of_ne_zero fun h => hne (UInt32.toNat_inj.mp h)
      rcases ht.received ((lenOf r.1).toNat - 1)
        (by rw [List.length_map, List.length_range]; omega) with ⟨r', hr', j', _, _, hlt, _⟩
      rw [hr] at hr'
      cases hr'
      omega
    · rintro hreply t ht
      rw [hcall] at ht
      cases ht
      rcases hreply r hr with ⟨hle, hwhole⟩
      have hint : int32 (lenOf r.1).toNat = (lenOf r.1).toNat := by
        unfold RF_DATALEN at hcount
        exact int32_eq (by omega) (by omega)
      refine ⟨?_, ?_, Or.inr ?_, ?_⟩
      · rw [List.length_map, List.length_range]
        omega
      · intro k hk
        rw [List.length_map, List.length_range] at hk
        have hne : lenOf r.1 ≠ 0 := by
          intro hzero
          rw [hzero] at hk
          cases hk
        have hlt : ((rf_data + k : Nat) : Int) < r.2 := by
          have hend := hwhole hne
          omega
        refine ⟨r, hr, j, hj, hlen, hlt, ?_⟩
        rw [List.getElem?_map, List.getElem?_range hk, ← hbytes _ hlt]
        rfl
      · dsimp only
        rw [hint]
        omega
      · dsimp only
        rw [hint, Int.toNat_natCast, UInt32.ofNat_toNat, ← hsame]
        exact congrArg Rflcblk.rfpos upd_self

/-- A write is bounded if and only if the length in the reply is. -/
theorem write_bounded_iff (s : Rfs) (d : Fin Nrfl) (buff : Nat → UInt8) (count : Int)
    (f : Surroundings) :
    (∀ t ∈ s.call (.rflwrite d buff count) f, WriteBounded s d count t) ↔
      ∀ r ∈ s.accepted (.rflwrite d buff count) f, (lenOf r.1).toNat ≤ count.toNat := by
  unfold WriteBounded
  rcases call_rflwrite s d buff count f with ⟨hnone, hsame⟩ | ⟨r, hr, s', hsame, hcall⟩
  · rw [hnone]
    constructor
    · rintro _ r ⟨⟩
    · intro _ t ht
      rw [hsame t ht, UInt32.sub_self]
      exact Nat.zero_le _
  · have hdiff : ((s'.setBlk d { s'.rfltab d with
        rfpos := (s'.rfltab d).rfpos + lenOf r.1 }).rfltab d).rfpos - (s.rfltab d).rfpos =
        lenOf r.1 := by
      unfold setBlk
      dsimp only
      rw [upd_self, hsame, UInt32.add_comm, UInt32.add_sub_cancel]
    constructor
    · rintro hbounded _ hr'
      rw [hr] at hr'
      cases hr'
      have hle := hbounded _ hcall
      dsimp only at hle
      rw [hdiff] at hle
      exact hle
    · rintro hreply t ht
      rw [hcall] at ht
      cases ht
      rw [hdiff]
      exact hreply r hr

/-- What {lit}`rflread` stores, returns and adds to the position, and what {lit}`rflwrite`
adds to it, is within the count and what was received, if and only if the length in the
reply that is accepted is. -/
theorem remote_transfer_iff (s : Rfs) (d : Fin Nrfl) (buff : Nat → UInt8) (count : Int)
    (f : Surroundings) :
    ((∀ t ∈ s.call (.rflread d count) f, ReadBounded s d count f t) ↔
      ∀ r ∈ s.accepted (.rflread d count) f, ((lenOf r.1).toNat : Int) ≤ count ∧
        (lenOf r.1 ≠ 0 → ((rf_data + (lenOf r.1).toNat : Nat) : Int) ≤ r.2)) ∧
    ((∀ t ∈ s.call (.rflwrite d buff count) f, WriteBounded s d count t) ↔
      ∀ r ∈ s.accepted (.rflwrite d buff count) f, (lenOf r.1).toNat ≤ count.toNat) :=
  ⟨read_bounded_iff s d count f, write_bounded_iff s d buff count f⟩

/-!
## One open file
-/

/-- A reply of the server to a request of a given type and sequence number. -/
def answerTo (type : UInt16) (seq len : UInt32) : Packet :=
  set32 (set32 (set16 (fun _ => 0) msg_type (htons (type ||| MSG_RESPONSE))) msg_seq (htonl seq))
    rf_len (htonl len)

/-- The server answers at once, with a datagram of the greatest length. -/
def answering (type : UInt16) (seq len : UInt32) : Surroundings where
  msg := fun _ => 0
  resp := fun _ => 0
  wire :=
    { slot := 0, localip := true
      round := fun _ => { sent := true, msglen := 1168, udpdata := answerTo type seq len } }

/-- The devices are numbered from 7 on. -/
def freshRfs : Rfs := init fun i => 7 + i.val

/-- After the file {lit}`a` was opened. -/
def openedRfs : Rfs :=
  (freshRfs.step (.rfsopen ⟨[97], by decide⟩ [], answering RF_MSG_OREQ 1 0)).getD freshRfs

/-- A byte is asked for, and comes. -/
theorem remote_transfer_one :
    ((openedRfs.call (.rflread 0 1) (answering RF_MSG_RREQ 2 1)).map fun t => t.2.1) = some 1 ∧
      ∀ t ∈ openedRfs.call (.rflread 0 1) (answering RF_MSG_RREQ 2 1),
        ReadBounded openedRfs 0 1 (answering RF_MSG_RREQ 2 1) t :=
  ⟨by decide +kernel,
    (remote_transfer_iff openedRfs 0 (fun _ => 0) 1 (answering RF_MSG_RREQ 2 1)).1.mpr
      (by decide +kernel)⟩

/-- A byte is asked for, and two come. -/
theorem remote_read_overruns :
    ¬ ∀ (s : Rfs) (d : Fin Nrfl) (count : Int) (f : Surroundings),
      ∀ t ∈ s.call (.rflread d count) f, ReadBounded s d count f t := by
  intro hall
  have hlen : ((openedRfs.call (.rflread 0 1) (answering RF_MSG_RREQ 2 2)).map
      fun t => t.2.2.length) = some 2 := by decide +kernel
  rcases Option.map_eq_some_iff.mp hlen with ⟨t, ht, htwo⟩
  have hroom := (hall openedRfs 0 1 (answering RF_MSG_RREQ 2 2) t ht).room
  rw [htwo] at hroom
  exact absurd hroom (by decide)

end

end Rfs
end BbbXinu
