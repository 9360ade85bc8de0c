import BbbXinu.Properties.RemoteExchange

/-!
# Opening the remote disk again

When {lit}`rdsopen` fails, the device should be as it was, so that another call can open it.
Two of its returns leave the state at pending, and then no call ever opens the device.
-/

namespace BbbXinu
namespace Rds

open CStrings Net

/-- What a call of {lit}`rdsopen` is given, and what is on its stack. -/
structure Attempt where
  wire : Wire
  msg : Packet
  resp : Packet
  diskid : CString
  dvnum : Nat

def RdsCblk.attempt (rdptr : RdsCblk) (a : Attempt) : RdsCblk × Int :=
  rdsopen rdptr a.wire a.msg a.resp a.diskid a.dvnum

/-- The ID is not empty and fits. -/
def FitsId (diskid : CString) : Prop :=
  0 < diskid.chars.length ∧ diskid.chars.length < RD_IDLEN

/-- The server answers the first message that is sent from the port, and opens the disk. -/
structure Obliges (p : Port) (w : Wire) : Prop where
  slot : p.registered = true ∨ w.slot ≠ SYSERR
  localip : w.localip = true
  sent : (w.round 0).sent = true
  fields : MSG_FIELDS ≤ (w.round 0).msglen
  seq : seqOf (w.round 0).udpdata = p.seq
  type : typeOf (w.round 0).udpdata = RD_MSG_OREQ ||| MSG_RESPONSE
  status : statusOf (w.round 0).udpdata = 0

/-- A correct open succeeds. -/
def CanOpen (rdptr : RdsCblk) : Prop :=
  ∀ a : Attempt, FitsId a.diskid → Obliges rdptr.port a.wire →
    (rdptr.attempt a).1.rdState = .opened ∧ (rdptr.attempt a).2 = a.dvnum

/-- A call that fails leaves the state, and what was free can be opened later. -/
def Retriable (rdptr : RdsCblk) (a : Attempt) : Prop :=
  (rdptr.attempt a).2 = SYSERR →
    (rdptr.attempt a).1.rdState = rdptr.rdState ∧
      (rdptr.rdState = .free → CanOpen (rdptr.attempt a).1)

section

variable {rdptr : RdsCblk} {a : Attempt} {p : Port} {w : Wire} {msg resp d : Packet} {n len : Nat}

/-!
## A correct open
-/

theorem statusOf_fill (h : MSG_FIELDS ≤ n) : statusOf (fill msg d n) = statusOf d := by
  unfold MSG_FIELDS at h
  unfold statusOf
  rw [get16_congr (fill_of_lt (by unfold msg_status; omega))
    (fill_of_lt (by unfold msg_status; omega))]

theorem typeOf_set32 (seq : UInt32) : typeOf (set32 msg msg_seq seq) = typeOf msg := by
  unfold typeOf
  have hsame : ∀ i < 2, set32 msg msg_seq seq i = msg i := by
    intro i hi
    exact set32_of_ne (Or.inl (by unfold msg_seq; omega))
  rw [get16_congr (o := msg_type) (hsame 0 (by decide)) (hsame 1 (by decide))]

theorem typeOf_openRequest (msg : Packet) (diskid : Nat → UInt8) (len : Nat) :
    typeOf (openRequest msg diskid len) = RD_MSG_OREQ := by
  have hsame : ∀ i < 2, openRequest msg diskid len i =
      set16 msg msg_type (htons RD_MSG_OREQ) i := by
    intro i hi
    unfold openRequest rd_id
    rw [copy_of_lt (by omega), copy_of_lt (by omega)]
    unfold msg_seq msg_status
    rw [set32_of_ne (by omega), set16_of_ne (by omega) (by omega)]
  unfold typeOf
  rw [get16_congr (o := msg_type) (hsame 0 (by decide)) (hsame 1 (by decide)), get16_set16,
    htons_htons]

theorem Obliges.registers (h : Obliges p w) :
    ∃ q, p.register w = some q ∧ q.seq = p.seq := by
  unfold Port.register
  by_cases hr : p.registered = true
  · exact ⟨p, if_pos hr, rfl⟩
  · refine ⟨{ p with registered := true, udpslot := w.slot }, ?_, rfl⟩
    rw [if_neg hr, if_neg (h.slot.resolve_left hr)]

/-- The exchange ends with the first datagram. -/
theorem Obliges.rdscomm (resp : Packet) (h : Obliges p w) (hmsg : typeOf msg = RD_MSG_OREQ) :
    (Net.rdscomm p w msg resp ORES_SIZE).2.2 = OK ∧
      statusOf (Net.rdscomm p w msg resp ORES_SIZE).2.1 = 0 := by
  rcases h.registers with ⟨q, hq, hseq⟩
  have hlen : MSG_FIELDS ≤ (min (w.round 0).msglen ORES_SIZE).toNat := by
    have hfields := h.fields
    unfold MSG_FIELDS at hfields ⊢
    unfold ORES_SIZE
    omega
  have hnever : ∀ v : Int, v < 0 → min (w.round 0).msglen ORES_SIZE ≠ v := by
    intro v hv heq
    rw [heq] at hlen
    unfold MSG_FIELDS at hlen
    omega
  have hjudge : rdsJudge q.seq (set32 msg msg_seq (htonl q.seq))
      (fill resp (w.round 0).udpdata (min (w.round 0).msglen ORES_SIZE).toNat)
      (min (w.round 0).msglen ORES_SIZE).toNat = .done OK := by
    unfold rdsJudge
    rw [seqOf_fill hlen, typeOf_fill hlen, statusOf_fill hlen, h.seq, h.type, h.status, hseq,
      typeOf_set32, hmsg, if_neg (fun hne => hne.2 rfl)]
    dsimp only
    rw [if_neg (by decide), if_neg (by decide)]
  unfold Net.rdscomm
  rw [hq]
  dsimp only
  rw [if_neg (by rw [h.localip]; decide)]
  dsimp only [RETRIES]
  unfold commLoop
  rw [if_neg (by rw [h.sent]; decide)]
  dsimp only
  rw [if_neg (hnever TIMEOUT (by decide)), if_neg (hnever SYSERR (by decide)), hjudge]
  exact ⟨rfl, (statusOf_fill hlen).trans h.status⟩

theorem canOpen_of_free (h : rdptr.rdState = .free) : CanOpen rdptr := by
  intro a hid hserver
  have hnullAt : nullAt a.diskid.mem RD_IDLEN = some a.diskid.chars.length := by
    rw [a.diskid.nullAt_mem, if_pos hid.2]
  have hcomm := hserver.rdscomm a.resp
    (typeOf_openRequest a.msg a.diskid.mem a.diskid.chars.length)
  unfold RdsCblk.attempt rdsopen
  rw [if_neg (not_not.mpr h)]
  dsimp only
  rw [hnullAt]
  dsimp only
  rw [if_neg hid.1.ne', hcomm.1, hcomm.2, if_neg (by decide), if_neg (by decide),
    if_neg (not_not.mpr rfl)]
  exact ⟨rfl, rfl⟩

/-!
## A failed one
-/

/-- With an ID that does not fit, or is empty, the state stays at pending. -/
theorem attempt_of_not_fitsId (h : rdptr.rdState = .free) (hid : ¬ FitsId a.diskid) :
    (rdptr.attempt a).1.rdState = .pend ∧ (rdptr.attempt a).2 = SYSERR := by
  unfold RdsCblk.attempt rdsopen
  rw [if_neg (not_not.mpr h)]
  dsimp only
  rw [a.diskid.nullAt_mem]
  by_cases hlong : a.diskid.chars.length < RD_IDLEN
  · rw [if_pos hlong]
    dsimp only
    rw [if_pos (by unfold FitsId at hid; omega)]
    exact ⟨rfl, rfl⟩
  · rw [if_neg hlong]
    exact ⟨rfl, rfl⟩

/-- With an ID that fits, the state is reset if the call fails. -/
theorem attempt_of_fitsId (h : rdptr.rdState = .free) (hid : FitsId a.diskid)
    (hfails : (rdptr.attempt a).2 = SYSERR) : (rdptr.attempt a).1.rdState = .free := by
  unfold RdsCblk.attempt rdsopen at hfails ⊢
  rw [if_neg (not_not.mpr h)] at hfails ⊢
  dsimp only at hfails ⊢
  rw [a.diskid.nullAt_mem, if_pos hid.2] at hfails ⊢
  dsimp only at hfails ⊢
  rw [if_neg hid.1.ne'] at hfails ⊢
  split at hfails
  · rename_i hretval
    rw [if_pos hretval]
  · rename_i hretval
    rw [if_neg hretval]
    split at hfails
    · rename_i htime
      rw [if_pos htime]
    · rename_i htime
      rw [if_neg htime]
      split at hfails
      · rename_i hstatus
        rw [if_pos hstatus]
      · exact absurd hfails (by unfold SYSERR; dsimp only; omega)

theorem attempt_of_not_free (h : rdptr.rdState ≠ .free) : rdptr.attempt a = (rdptr, SYSERR) :=
  if_pos h

/-- A device that is pending stays so, and no call opens it. -/
theorem stays_pend (l : List Attempt) (h : rdptr.rdState = .pend) :
    (l.foldl (fun rdptr a => (rdptr.attempt a).1) rdptr) = rdptr := by
  induction l with
  | nil => rfl
  | cons a l ih =>
      rw [List.foldl_cons, attempt_of_not_free (by rw [h]; decide)]
      exact ih

/-- A call that fails can be repeated, if and only if the device was not free or the ID is
not empty and fits. -/
theorem remote_open_iff (rdptr : RdsCblk) (a : Attempt) :
    Retriable rdptr a ↔ (rdptr.rdState = .free → FitsId a.diskid) := by
  unfold Retriable
  constructor
  · intro hretry hfree
    by_contra hid
    rcases attempt_of_not_fitsId hfree hid with ⟨hpend, hfails⟩
    rw [(hretry hfails).1, hfree] at hpend
    cases hpend
  · intro hid hfails
    by_cases hfree : rdptr.rdState = .free
    · have hstate := attempt_of_fitsId hfree (hid hfree) hfails
      exact ⟨hstate.trans hfree.symm, fun _ => canOpen_of_free hstate⟩
    · rw [attempt_of_not_free hfree]
      exact ⟨rfl, fun h => absurd h hfree⟩

/-!
## A device that is free
-/

def freeBlk : RdsCblk where
  rdState := .free
  rdId := fun _ => 0
  port := { seq := 1, registered := false, udpslot := 0 }

/-- A network on which nothing is received. -/
def silentWire : Wire where
  slot := 0
  localip := true
  round := fun _ => { sent := true, msglen := TIMEOUT, udpdata := fun _ => 0 }

def silentAttempt (diskid : CString) : Attempt where
  wire := silentWire
  msg := fun _ => 0
  resp := fun _ => 0
  diskid := diskid
  dvnum := 4

/-- When the server does not answer, the device can be opened later. -/
theorem remote_open_timeout :
    (freeBlk.attempt (silentAttempt ⟨[100, 49], by decide⟩)).2 = SYSERR ∧
      CanOpen (freeBlk.attempt (silentAttempt ⟨[100, 49], by decide⟩)).1 := by
  have hfails : (freeBlk.attempt (silentAttempt ⟨[100, 49], by decide⟩)).2 = SYSERR := by
    decide +kernel
  have hretry := (remote_open_iff freeBlk (silentAttempt ⟨[100, 49], by decide⟩)).mpr
    fun _ => ⟨by decide, by decide⟩
  exact ⟨hfails, (hretry hfails).2 rfl⟩

/-- After an empty ID no call opens the device. -/
theorem remote_open_locked :
    (∀ l : List Attempt, (l.foldl (fun rdptr a => (rdptr.attempt a).1)
      (freeBlk.attempt (silentAttempt ⟨[], by decide⟩)).1).rdState = .pend) ∧
    ¬ ∀ (rdptr : RdsCblk) (a : Attempt), Retriable rdptr a := by
  have hpend : (freeBlk.attempt (silentAttempt ⟨[], by decide⟩)).1.rdState = .pend := by
    decide +kernel
  constructor
  · intro l
    rw [stays_pend l hpend]
    exact hpend
  · intro hall
    have hsame := (hall freeBlk (silentAttempt ⟨[], by decide⟩) (by decide +kernel)).1
    rw [hpend] at hsame
    cases hsame

end

end Rds
end BbbXinu
