import BbbXinu.Invariant.PacketBytes
import BbbXinu.Properties.RemoteReads

/-!
# Names in requests

A request has the name of the file that it is about, with null bytes up to the end of the
field.  {lit}`rflwrite` copies what it finds behind the name in the control block, and
{lit}`rfsndmsg` neither clears the field nor looks at the length of the name.
-/

namespace BbbXinu
namespace Rfs

open CStrings Net

/-- The name field has the name, which fits, and null bytes behind it. -/
def NameIs (msg : Packet) (name : List UInt8) : Prop :=
  name.length < RF_NAMLEN ∧ ∀ i < RF_NAMLEN, msg (rf_name + i) = name.getD i 0

/-- The position in a message. -/
def posOf (msg : Packet) : UInt32 := htonl (get32 msg rf_pos)

/-- The fields of a request for a part of a file. -/
structure RangeIs (msg : Packet) (pos : UInt32) (count : Int) : Prop where
  pos : posOf msg = pos
  len : ((lenOf msg).toNat : Int) = count

/-- The data field has the bytes, and null bytes behind them. -/
def DataIs (msg : Packet) (buff : Nat → UInt8) (count : Int) : Prop :=
  ∀ i < RF_DATALEN, msg (rf_data + i) = if (i : Int) < count then buff i else 0

/-- A request has what the call is about in its fields.  {lit}`names` are the names with
which the files were opened. -/
def Carries (names : Fin Nrfl → List UInt8) (s : Rfs) (msg : Packet) : RfsCall → Prop
  | .rfsopen name mode => typeOf msg = RF_MSG_OREQ ∧ NameIs msg name.chars ∧
      rfsgetmode mode = some (htonl (get32 msg rf_mode))
  | .rflread d count => typeOf msg = RF_MSG_RREQ ∧ NameIs msg (names d) ∧
      RangeIs msg (s.rfltab d).rfpos count
  | .rflwrite d buff count => typeOf msg = RF_MSG_WREQ ∧ NameIs msg (names d) ∧
      RangeIs msg (s.rfltab d).rfpos count ∧ DataIs msg buff count
  | .rfscontrol d func arg1 =>
      match messageType func with
      | some type => typeOf msg = type ∧ NameIs msg arg1.chars
      | none => typeOf msg = RF_MSG_SREQ ∧ cstr (s.rfltab d).rfname RF_NAMLEN ≠ none ∧
          NameIs msg ((cstr (s.rfltab d).rfname RF_NAMLEN).getD [])
  | .rflclose _ => False
  | .rflseek _ _ => False

/-- The calls that make no request. -/
def Local : RfsCall → Prop
  | .rflclose _ => True
  | .rflseek _ _ => True
  | _ => False

/-- A call stays inside the arrays, and makes the right request or is rejected. -/
def Right (names : Fin Nrfl → List UInt8) (s : Rfs) (c : RfsCall) (stack : Packet) : Prop :=
  match (s.request stack c).2 with
  | .returned retval => retval = SYSERR ∨ Local c
  | .fault => False
  | .request _ msg _ => Carries names s msg c

/-- The byte behind the null byte of the name in a control block is in the array, and
null. -/
def TailClear (blk : Rflcblk) : Prop :=
  ∀ len, nullAt blk.rfname RF_NAMLEN = some len →
    len + 1 < RF_NAMLEN ∧ blk.rfname (len + 1) = 0

/-- For a write that is not rejected, nothing is left behind the name; for a control
function that goes to {lit}`rfsndmsg`, the name fits and the stack has null bytes where the
rest of the field will be. -/
def Fits (s : Rfs) (c : RfsCall) (stack : Packet) : Prop :=
  match c with
  | .rflwrite d _ count => WriteOpen s d count → TailClear (s.rfltab d)
  | .rfscontrol d func arg1 => (nullAt (s.rfltab d).rfname (RF_NAMLEN - 1)).isSome →
      (messageType func).isSome → arg1.chars.length < RF_NAMLEN ∧
        ∀ i < RF_NAMLEN, arg1.chars.length < i → stack (rf_name + i) = 0
  | _ => True

/-- What an observer keeps: for each device the name with which its file was opened. -/
def noteNames (names : Fin Nrfl → List UInt8) (s : Rfs) (l : RfsCall × Surroundings) (s' : Rfs) :
    Fin Nrfl → List UInt8 :=
  match l.1, s.freeEntry with
  | .rfsopen name _, some i =>
      if (s'.rfltab i).rfstate = .used then upd names i name.chars else names
  | _, _ => names

/-- A control block in use has the name with which its file was opened. -/
def Named (t : Rfs × (Fin Nrfl → List UInt8)) : Prop :=
  ∀ d, (t.1.rfltab d).rfstate = .used → cstr (t.1.rfltab d).rfname RF_NAMLEN = some (t.2 d)

section

variable {s s' : Rfs} {d : Fin Nrfl} {names : Fin Nrfl → List UInt8} {stack msg msg' : Packet}
  {name buff : Nat → UInt8} {n : List UInt8} {type : UInt16} {pos : UInt32} {count : Int}
  {c : RfsCall} {i len : Nat}

/-!
## The fields of a message
-/

theorem typeOf_congr (h : Agree rf_name msg msg') : typeOf msg = typeOf msg' := by
  unfold typeOf
  rw [get16_congr (h msg_type (by decide)) (h (msg_type + 1) (by decide))]

theorem NameIs.congr (h : NameIs msg' n) (heq : Agree rf_pos msg msg') : NameIs msg n := by
  refine ⟨h.1, ?_⟩
  intro i hi
  rw [heq (rf_name + i) (by unfold rf_name rf_pos; unfold RF_NAMLEN at hi; omega)]
  exact h.2 i hi

theorem RangeIs.congr (h : RangeIs msg' pos count) (heq : Agree rf_data msg msg') :
    RangeIs msg pos count := by
  have hpos : get32 msg rf_pos = get32 msg' rf_pos :=
    get32_congr fun i hi => heq (rf_pos + i) (by unfold rf_pos rf_data; omega)
  have hlen : get32 msg rf_len = get32 msg' rf_len :=
    get32_congr fun i hi => heq (rf_len + i) (by unfold rf_len rf_data; omega)
  constructor
  · unfold posOf
    rw [hpos]
    exact h.pos
  · unfold lenOf
    rw [hlen]
    exact h.len

theorem typeOf_formHeader : typeOf (formHeader stack type) = type := by
  have hsame : ∀ i < 2, formHeader stack type i = set16 stack msg_type (htons type) i := by
    intro i hi
    unfold formHeader
    rw [set32_of_ne (by unfold msg_seq; omega),
      set16_of_ne (by unfold msg_status; omega) (by unfold msg_status; omega)]
  unfold typeOf
  rw [get16_congr (o := msg_type) (hsame 0 (by decide)) (hsame 1 (by decide)), get16_set16,
    htons_htons]

theorem formHeader_of_ge (h : rf_name ≤ i) : formHeader stack type i = stack i := by
  unfold rf_name at h
  unfold formHeader
  rw [set32_of_ne (by unfold msg_seq; omega),
    set16_of_ne (by unfold msg_status; omega) (by unfold msg_status; omega),
    set16_of_ne (by unfold msg_type; omega) (by unfold msg_type; omega)]

theorem clearName_agree : Agree rf_name (clearName msg) msg := fun _ hi => copy_of_lt hi

theorem putName_agree : Agree rf_name (putName msg name len) msg := fun _ hi => copy_of_lt hi

theorem typeOf_putName : typeOf (putName (clearName (formHeader stack type)) name len) = type := by
  rw [typeOf_congr putName_agree, typeOf_congr clearName_agree, typeOf_formHeader]

/-- The name is copied over null bytes. -/
theorem nameIs_putName (hname : cstr name RF_NAMLEN = some n)
    (hclear : ∀ i < RF_NAMLEN, n.length < i → msg (rf_name + i) = 0) :
    NameIs (putName msg name n.length) n := by
  have hlt := cstr_length_lt hname
  refine ⟨hlt, ?_⟩
  intro i hi
  unfold putName
  by_cases hin : i ≤ n.length
  · rw [copy_inside (by omega) (by omega), show 0 + (rf_name + i - rf_name) = i by omega,
      cstr_apply hname hin]
  · rw [copy_of_le (by omega), hclear i hi (by omega), List.getD_eq_default _ _ (by omega)]

theorem clearName_name (hi : i < RF_NAMLEN) : clearName msg (rf_name + i) = 0 :=
  copy_inside (by omega) (by omega)

theorem putRange_agree : Agree rf_pos (putRange msg pos count) msg := by
  intro i hi
  unfold putRange
  rw [set32_of_ne (Or.inl (by unfold rf_len; unfold rf_pos at hi; omega)), set32_of_ne (Or.inl hi)]

theorem rangeIs_putRange (hcount : 0 < count) (hle : count ≤ RF_DATALEN) :
    RangeIs (putRange msg pos count) pos count := by
  unfold RF_DATALEN at hle
  constructor
  · unfold posOf putRange
    rw [get32_congr (q := set32 msg rf_pos (htonl pos))
      fun i hi => set32_of_ne (Or.inl (by unfold rf_len rf_pos; omega)), get32_set32, htonl_htonl]
  · unfold lenOf putRange
    rw [get32_set32, htonl_htonl, UInt32.toNat_ofNat']
    omega

theorem putData_agree {k : Nat} : Agree rf_data (putData msg buff k) msg := by
  intro i hi
  unfold putData
  rw [copy_of_lt (by omega), copy_of_lt hi]

theorem dataIs_putData (hcount : 0 < count) :
    DataIs (putData msg buff count.toNat) buff count := by
  intro i hi
  unfold putData
  by_cases hin : (i : Int) < count
  · rw [if_pos hin, copy_of_lt (by omega), copy_inside (by omega) (by omega),
      show 0 + (rf_data + i - rf_data) = i by omega]
  · rw [if_neg hin, copy_inside (by omega) (by omega)]

/-!
## The requests
-/

theorem nameIs_clearName (hname : cstr name RF_NAMLEN = some n) :
    NameIs (putName (clearName msg) name n.length) n :=
  nameIs_putName hname fun _ hi _ => clearName_name hi

/-- Names in use stay, and no control block comes into use. -/
def Keeps (s s' : Rfs) : Prop :=
  ∀ d, (s'.rfltab d).rfstate = .used →
    (s.rfltab d).rfstate = .used ∧ (s'.rfltab d).rfname = (s.rfltab d).rfname

theorem keeps_of_eq (h : s'.rfltab = s.rfltab) : Keeps s s' := by
  intro d hd
  rw [h] at hd ⊢
  exact ⟨hd, rfl⟩

theorem keeps_setBlk {blk : Rflcblk}
    (h : blk.rfstate = .used → (s.rfltab d).rfstate = .used ∧ blk.rfname = (s.rfltab d).rfname) :
    Keeps s (s.setBlk d blk) := by
  intro d' hd'
  change (upd s.rfltab d blk d').rfstate = .used at hd'
  change _ ∧ (upd s.rfltab d blk d').rfname = _
  by_cases hdd : d' = d
  · subst hdd
    rw [upd_self] at hd' ⊢
    exact h hd'
  · rw [upd_of_ne hdd] at hd' ⊢
    exact ⟨hd', rfl⟩

theorem freeEntry_free {j : Fin Nrfl} (h : s.freeEntry = some j) : (s.rfltab j).rfstate = .free :=
  of_decide_eq_true (List.find?_some (p := fun i => decide ((s.rfltab i).rfstate = .free)) h)

/-- A free control block that stays free. -/
theorem keeps_free {j : Fin Nrfl} {blk : Rflcblk} (hblk : blk.rfstate = .free) :
    Keeps s (s.setBlk j blk) := by
  apply keeps_setBlk
  intro hused
  rw [hblk] at hused
  cases hused

/-- An open is rejected, or makes a request for a name that fits and is in the first free
control block then. -/
theorem rfsopenRequest_cases (s : Rfs) (stack : Packet) (name : CString) (mode : List UInt8) :
    (∃ s', Keeps s s' ∧ s.rfsopenRequest stack name mode = (s', .returned SYSERR)) ∨
    ∃ j mbits, s.freeEntry = some j ∧ cstr name.mem RF_NAMLEN = some name.chars ∧
      rfsgetmode mode = some mbits ∧
      s.rfsopenRequest stack name mode =
        (s.setBlk j { s.rfltab j with
          rfname := copy (s.rfltab j).rfname 0 name.mem 0 (name.chars.length + 1)
          rfmode := mbits },
        .request j (set32 (putName (clearName (formHeader stack RF_MSG_OREQ)) name.mem
          name.chars.length) rf_mode (htonl mbits)) ORES_SIZE) := by
  unfold rfsopenRequest
  cases hfree : s.freeEntry with
  | none => exact Or.inl ⟨s, keeps_of_eq rfl, rfl⟩
  | some j =>
      have hstate := freeEntry_free hfree
      dsimp only
      rw [name.nullAt_mem]
      by_cases hlt : name.chars.length < RF_NAMLEN
      · rw [if_pos hlt]
        dsimp only
        by_cases hzero : name.chars.length = 0
        · rw [if_pos hzero]
          refine Or.inl ⟨_, ?_, rfl⟩
          exact keeps_free hstate
        · rw [if_neg hzero]
          cases hmode : rfsgetmode mode with
          | none =>
              refine Or.inl ⟨_, ?_, rfl⟩
              exact keeps_free hstate
          | some mbits => exact Or.inr ⟨j, mbits, rfl, name.cstr_mem hlt, rfl, rfl⟩
      · rw [if_neg hlt]
        refine Or.inl ⟨_, ?_, rfl⟩
        exact keeps_free hstate

theorem right_of_returned {retval : Int} (h : (s.request stack c).2 = .returned retval)
    (hret : retval = SYSERR ∨ Local c) : Right names s c stack := by
  unfold Right
  rw [h]
  exact hret

theorem not_right_of_fault (h : (s.request stack c).2 = .fault) : ¬ Right names s c stack := by
  unfold Right
  rw [h]
  exact id

theorem right_of_request {j : Fin Nrfl} {rlen : Nat}
    (h : (s.request stack c).2 = .request j msg rlen) :
    Right names s c stack ↔ Carries names s msg c := by
  unfold Right
  rw [h]

theorem right_rfsopen (names : Fin Nrfl → List UInt8) (s : Rfs) (stack : Packet) (name : CString)
    (mode : List UInt8) : Right names s (.rfsopen name mode) stack := by
  rcases rfsopenRequest_cases s stack name mode with ⟨s', _, h⟩ | ⟨j, mbits, _, hname, hmode, h⟩
  · have hreq : (s.request stack (.rfsopen name mode)).2 = .returned SYSERR := congrArg Prod.snd h
    exact right_of_returned hreq (Or.inl rfl)
  · have hreq : (s.request stack (.rfsopen name mode)).2 = .request j _ ORES_SIZE :=
      congrArg Prod.snd h
    have hagree : Agree rf_pos
        (set32 (putName (clearName (formHeader stack RF_MSG_OREQ)) name.mem name.chars.length)
          rf_mode (htonl mbits))
        (putName (clearName (formHeader stack RF_MSG_OREQ)) name.mem name.chars.length) :=
      fun _ hi => set32_of_ne (Or.inl hi)
    rw [right_of_request hreq]
    refine ⟨?_, (nameIs_clearName hname).congr hagree, ?_⟩
    · rw [typeOf_congr (fun i hi => hagree i (lt_trans hi (by decide))), typeOf_putName]
    · rw [get32_set32, htonl_htonl]
      exact hmode

theorem used_of_ne_free (h : (s.rfltab d).rfstate ≠ .free) : (s.rfltab d).rfstate = .used := by
  cases hstate : (s.rfltab d).rfstate with
  | free => exact absurd hstate h
  | used => rfl

/-- The name that is copied to a request is that with which the file was opened. -/
theorem Named.nullAt (hnamed : Named (s, names)) (hstate : (s.rfltab d).rfstate ≠ .free)
    (hlen : nullAt (s.rfltab d).rfname RF_NAMLEN = some len) :
    cstr (s.rfltab d).rfname RF_NAMLEN = some (names d) ∧ len = (names d).length := by
  have hname := hnamed d (used_of_ne_free hstate)
  refine ⟨hname, ?_⟩
  have hnullAt := cstr_nullAt hname
  rw [hlen] at hnullAt
  exact Option.some.inj hnullAt

theorem right_rflread (hnamed : Named (s, names)) (stack : Packet) (count : Int) :
    Right names s (.rflread d count) stack := by
  rcases rflreadRequest_cases s d stack count with h | ⟨hcount, hfree, len, hlen, h⟩
  · exact right_of_returned (c := .rflread d count) h (Or.inl rfl)
  · rcases hnamed.nullAt hfree hlen with ⟨hname, rfl⟩
    rw [right_of_request (c := .rflread d count) h]
    refine ⟨?_, (nameIs_clearName hname).congr putRange_agree, ?_⟩
    · rw [typeOf_congr (fun i hi => putRange_agree i (lt_trans hi (by decide))), typeOf_putName]
    · exact rangeIs_putRange hcount.1 hcount.2

theorem tailOf_eq_some {blk : Rflcblk} {more : Nat} (h : tailOf blk len = some more) :
    len + 1 + more < RF_NAMLEN ∧ blk.rfname (len + 1 + more) = 0 ∧
      ∀ k < more, blk.rfname (len + 1 + k) ≠ 0 := by
  rcases nullAt_eq_some_iff.mp h with ⟨hlt, hzero, hbefore⟩
  exact ⟨by omega, hzero, hbefore⟩

/-- A control block is clear behind its name if and only if what is there is the empty
string. -/
theorem tailClear_iff {blk : Rflcblk} (hlen : nullAt blk.rfname RF_NAMLEN = some len) :
    TailClear blk ↔ tailOf blk len = some 0 := by
  unfold TailClear tailOf
  rw [nullAt_eq_some_iff]
  constructor
  · intro hclear
    rcases hclear len hlen with ⟨hlt, hzero⟩
    exact ⟨by omega, hzero, fun i hi => absurd hi (Nat.not_lt_zero i)⟩
  · rintro ⟨hlt, hzero, _⟩ len' hlen'
    rw [hlen] at hlen'
    cases hlen'
    exact ⟨by omega, hzero⟩

/-- What is copied behind the name is part of the name in the request, unless it is
empty. -/
theorem nameIs_copy_iff {blk : Rflcblk} {more : Nat} (msg : Packet)
    (hname : cstr blk.rfname RF_NAMLEN = some n) (hmore : tailOf blk n.length = some more) :
    NameIs (copy (putName (clearName msg) blk.rfname n.length) (rf_name + (n.length + 1))
      blk.rfname (n.length + 1) (more + 1)) n ↔ more = 0 := by
  rcases tailOf_eq_some hmore with ⟨hlt, hzero, hbefore⟩
  have hbase : NameIs (putName (clearName msg) blk.rfname n.length) n := nameIs_clearName hname
  constructor
  · intro hcopied
    by_contra hpos
    have hbyte := hcopied.2 (n.length + 1) (by omega)
    rw [copy_inside le_rfl (by omega), Nat.sub_self, Nat.add_zero,
      List.getD_eq_default _ _ (by omega)] at hbyte
    exact hbefore 0 (by omega) hbyte
  · rintro rfl
    refine ⟨hbase.1, ?_⟩
    intro i hi
    by_cases hplace : i = n.length + 1
    · rw [hplace, copy_inside le_rfl (by omega), Nat.sub_self, hzero,
        List.getD_eq_default _ _ (by omega)]
    · rw [← hbase.2 i hi]
      by_cases hbelow : i ≤ n.length
      · exact copy_of_lt (by omega)
      · exact copy_of_le (by omega)

theorem right_rflwrite_iff (hnamed : Named (s, names)) (stack : Packet) (buff : Nat → UInt8)
    (count : Int) :
    Right names s (.rflwrite d buff count) stack ↔
      (WriteOpen s d count → TailClear (s.rfltab d)) := by
  rcases rflwriteRequest_cases s d stack buff count with ⟨h, hnone⟩ |
    ⟨hopen, len, hlen, ⟨htail, h⟩ | ⟨more, htail, h⟩⟩
  · refine iff_of_true (right_of_returned (c := .rflwrite d buff count) h (Or.inl rfl)) ?_
    intro hopen len hlen
    rw [hnone hopen] at hlen
    cases hlen
  · refine iff_of_false (not_right_of_fault (c := .rflwrite d buff count) h) ?_
    intro hclear
    rw [(tailClear_iff hlen).mp (hclear hopen)] at htail
    cases htail
  · rcases hnamed.nullAt hopen.2.1 hlen with ⟨hname, rfl⟩
    rw [right_of_request (c := .rflwrite d buff count) h, imp_iff_right hopen, tailClear_iff hlen,
      htail, Option.some_inj, ← nameIs_copy_iff (formHeader stack RF_MSG_WREQ) hname htail]
    generalize hcopied :
      copy (putName (clearName (formHeader stack RF_MSG_WREQ)) _ _) _ _ _ _ = copied
    have htype : typeOf copied = RF_MSG_WREQ := by
      rw [← hcopied, typeOf_congr fun i hi => copy_of_lt (by omega), typeOf_putName]
    have hagree : Agree rf_pos (putData (putRange copied (s.rfltab d).rfpos count) buff
        count.toNat) copied :=
      fun i hi => (putData_agree i (lt_trans hi (by decide))).trans (putRange_agree i hi)
    constructor
    · rintro ⟨_, hmsg, _⟩
      exact hmsg.congr fun i hi => (hagree i hi).symm
    · intro hmsg
      refine ⟨?_, hmsg.congr hagree, ?_, dataIs_putData hopen.1.1⟩
      · rw [typeOf_congr fun i hi => hagree i (lt_trans hi (by decide)), htype]
      · exact (rangeIs_putRange hopen.1.1 hopen.1.2).congr putData_agree

theorem typeOf_sndmsg : typeOf (putName (formHeader stack type) name len) = type := by
  rw [typeOf_congr putName_agree, typeOf_formHeader]

/-- Without clearing the field, the name is followed by what is on the stack. -/
theorem nameIs_sndmsg_iff (hname : cstr name RF_NAMLEN = some n) :
    NameIs (putName (formHeader stack type) name n.length) n ↔
      ∀ i < RF_NAMLEN, n.length < i → stack (rf_name + i) = 0 := by
  have hstack : ∀ i, formHeader stack type (rf_name + i) = stack (rf_name + i) :=
    fun i => formHeader_of_ge (Nat.le_add_right _ i)
  constructor
  · intro hmsg i hi hlt
    have hbyte := hmsg.2 i hi
    unfold putName at hbyte
    rw [copy_of_le (by omega), List.getD_eq_default _ _ (by omega), hstack] at hbyte
    exact hbyte
  · intro hclear
    apply nameIs_putName hname
    intro i hi hlt
    rw [hstack]
    exact hclear i hi hlt

theorem nameIs_formHeader (h : NameIs msg n) : NameIs (formHeader msg type) n := by
  refine ⟨h.1, ?_⟩
  intro i hi
  rw [formHeader_of_ge (Nat.le_add_right _ i)]
  exact h.2 i hi

theorem carries_sndmsg {func : Int} {arg1 : CString} (h : messageType func = some type) :
    Carries names s msg (.rfscontrol d func arg1) ↔ typeOf msg = type ∧ NameIs msg arg1.chars := by
  simp only [Carries, h]

theorem carries_size {func : Int} {arg1 : CString} (h : messageType func = none)
    (hname : cstr (s.rfltab d).rfname RF_NAMLEN = some n) :
    Carries names s msg (.rfscontrol d func arg1) ↔ typeOf msg = RF_MSG_SREQ ∧ NameIs msg n := by
  simp only [Carries, h, hname, ne_eq, reduceCtorEq, not_false_eq_true, true_and, Option.getD_some]

theorem right_rfscontrol_iff (names : Fin Nrfl → List UInt8) (s : Rfs) (d : Fin Nrfl)
    (stack : Packet) (func : Int) (arg1 : CString) :
    Right names s (.rfscontrol d func arg1) stack ↔ Fits s (.rfscontrol d func arg1) stack := by
  have hreq : (s.request stack (.rfscontrol d func arg1)).2 =
      s.rfscontrolRequest d stack func arg1 := rfl
  unfold rfscontrolRequest at hreq
  dsimp only at hreq
  unfold Fits
  dsimp only
  cases hlen : nullAt (s.rfltab d).rfname (RF_NAMLEN - 1) with
  | none =>
      rw [hlen] at hreq
      exact iff_of_true (right_of_returned hreq (Or.inl rfl)) fun h => absurd h (by decide)
  | some len =>
      rw [hlen] at hreq
      dsimp only at hreq
      cases htype : messageType func with
      | some type =>
          rw [htype] at hreq
          dsimp only at hreq
          unfold rfsndmsgRequest at hreq
          rw [imp_iff_right Option.isSome_some, imp_iff_right Option.isSome_some]
          by_cases hlong : RF_NAMLEN ≤ arg1.chars.length
          · rw [if_pos hlong] at hreq
            exact iff_of_false (not_right_of_fault hreq) fun h => absurd h.1 (by omega)
          · rw [if_neg hlong] at hreq
            rw [right_of_request hreq, carries_sndmsg htype, and_iff_right typeOf_sndmsg,
              and_iff_right (by omega : arg1.chars.length < RF_NAMLEN)]
            exact nameIs_sndmsg_iff (arg1.cstr_mem (by omega))
      | none =>
          rw [htype] at hreq
          dsimp only at hreq
          refine iff_of_true ?_ fun _ h => absurd h (by decide)
          by_cases hsize : func = RFS_CTL_SIZE
          · rw [if_pos hsize] at hreq
            have hname : cstr (s.rfltab d).rfname RF_NAMLEN =
                some (Scatter.front (s.rfltab d).rfname len) := by
              refine cstr_mono (?_ : cstr _ (RF_NAMLEN - 1) = _) (by decide)
              unfold cstr
              rw [hlen]
              rfl
            have hlength : len = (Scatter.front (s.rfltab d).rfname len).length :=
              Scatter.length_front.symm
            have hput : NameIs (putName (clearName stack) (s.rfltab d).rfname
                (Scatter.front (s.rfltab d).rfname len).length) _ := nameIs_clearName hname
            rw [← hlength] at hput
            rw [right_of_request hreq, carries_size htype hname]
            exact ⟨typeOf_formHeader, nameIs_formHeader hput⟩
          · rw [if_neg hsize] at hreq
            exact right_of_returned hreq (Or.inl rfl)

/-- A call makes the right request if and only if it fits. -/
theorem right_iff_fits (hnamed : Named (s, names)) (c : RfsCall) (stack : Packet) :
    Right names s c stack ↔ Fits s c stack := by
  cases c with
  | rfsopen name mode => exact iff_of_true (right_rfsopen names s stack name mode) trivial
  | rflclose d =>
      exact iff_of_true (right_of_returned (c := .rflclose d) rfl (Or.inr trivial)) trivial
  | rflseek d pos =>
      exact iff_of_true (right_of_returned (c := .rflseek d pos) rfl (Or.inr trivial)) trivial
  | rflread d count => exact iff_of_true (right_rflread hnamed stack count) trivial
  | rflwrite d buff count => exact right_rflwrite_iff hnamed stack buff count
  | rfscontrol d func arg1 => exact right_rfscontrol_iff names s d stack func arg1

/-!
## Runs
-/

theorem Keeps.trans {s'' : Rfs} (h : Keeps s s') (h' : Keeps s' s'') : Keeps s s'' := by
  intro d hd
  rcases h' d hd with ⟨hd', hname'⟩
  rcases h d hd' with ⟨hd'', hname⟩
  exact ⟨hd'', hname'.trans hname⟩

/-- Only the position of a control block changes. -/
theorem keeps_setPos {s₀ : Rfs} (h : s₀.rfltab = s.rfltab) (pos : UInt32) :
    Keeps s (s₀.setBlk d { s₀.rfltab d with rfpos := pos }) :=
  (keeps_of_eq h).trans (keeps_setBlk fun hused => ⟨hused, rfl⟩)

/-- A control block comes into use with the name with which its file is opened. -/
def Opens (s s' : Rfs) (c : RfsCall) : Prop :=
  ∃ name mode j blk, c = .rfsopen name mode ∧ s.freeEntry = some j ∧
    s'.rfltab = upd s.rfltab j blk ∧ blk.rfstate = .used ∧
    cstr blk.rfname RF_NAMLEN = some name.chars

theorem call_rfsopen {t : Rfs × Int × List UInt8} {f : Surroundings} {name : CString}
    {mode : List UInt8} (h : s.call (.rfsopen name mode) f = some t) :
    Keeps s t.1 ∨ Opens s t.1 (.rfsopen name mode) := by
  rcases rfsopenRequest_cases s f.msg name mode with ⟨s₁, hkeeps, hreq⟩ |
    ⟨j, mbits, hfree, hname, _, hreq⟩
  · rw [call_of_returned (c := .rfsopen name mode) hreq] at h
    cases h
    exact Or.inl hkeeps
  · rw [call_of_request (c := .rfsopen name mode) hreq] at h
    have hstate := freeEntry_free hfree
    generalize rfscomm _ _ _ _ _ = r at h
    cases h
    unfold Rfs.reply rfsopenReply
    dsimp only
    split
    · right
      refine ⟨name, mode, j, _, rfl, hfree, upd_upd, rfl, ?_⟩
      change cstr (upd s.rfltab j _ j).rfname RF_NAMLEN = _
      rw [upd_self]
      exact cstr_copy hname
    · left
      have hkeeps : Keeps s (s.setBlk j { s.rfltab j with
          rfname := copy (s.rfltab j).rfname 0 name.mem 0 (name.chars.length + 1)
          rfmode := mbits }) := keeps_free hstate
      exact hkeeps

theorem call_cases {t : Rfs × Int × List UInt8} {f : Surroundings} (h : s.call c f = some t) :
    Keeps s t.1 ∨ Opens s t.1 c := by
  cases c with
  | rfsopen name mode => exact call_rfsopen h
  | rflclose d =>
      rw [call_of_returned (c := .rflclose d) rfl] at h
      cases h
      left
      unfold rflclose
      split
      · exact keeps_of_eq rfl
      · exact keeps_free rfl
  | rflseek d pos =>
      rw [call_of_returned (c := .rflseek d pos) rfl] at h
      cases h
      left
      unfold rflseek
      split
      · exact keeps_of_eq rfl
      · exact keeps_setPos rfl pos
  | rflread d count =>
      left
      rcases call_rflread s d count f with ⟨_, s₁, hsame, hcall⟩ | ⟨r, _, _, _, s₁, hsame, hcall⟩
      · rw [hcall] at h
        cases h
        exact keeps_of_eq hsame
      · rw [hcall] at h
        cases h
        exact keeps_setPos hsame _
  | rflwrite d buff count =>
      left
      rcases call_rflwrite s d buff count f with ⟨_, hsame⟩ | ⟨r, _, s₁, hsame, hcall⟩
      · exact keeps_of_eq (hsame t h)
      · rw [hcall] at h
        cases h
        exact keeps_setPos hsame _
  | rfscontrol d func arg1 =>
      left
      cases hreq : s.rfscontrolRequest d f.msg func arg1 with
      | returned retval =>
          rw [call_of_returned (c := .rfscontrol d func arg1) (congrArg (Prod.mk s) hreq)] at h
          cases h
          exact keeps_of_eq rfl
      | fault =>
          rw [call_of_fault (c := .rfscontrol d func arg1) (congrArg (Prod.mk s) hreq)] at h
          cases h
      | request j msg rlen =>
          rw [call_of_request (c := .rfscontrol d func arg1) (congrArg (Prod.mk s) hreq)] at h
          cases h
          exact keeps_of_eq rfl

theorem Named.step {t t' : Rfs × (Fin Nrfl → List UInt8)} {l : RfsCall × Surroundings}
    (hnamed : Named t) (hstep : Runs.observed step noteNames t l = some t') : Named t' := by
  rcases Runs.observed_eq hstep with ⟨hcall, hnote⟩
  rcases Option.map_eq_some_iff.mp hcall with ⟨r, hr, hr'⟩
  rcases t with ⟨s, names⟩
  rcases t' with ⟨s', names'⟩
  rcases l with ⟨c, f⟩
  dsimp only at hr' hnote
  subst hr' hnote
  intro d hd
  dsimp only at hd ⊢
  rcases call_cases hr with hkeeps | ⟨name, mode, j, blk, rfl, hfree, htab, hused, hname⟩
  · have hnames : noteNames names s (c, f) r.1 = names := by
      unfold noteNames
      split
      · rename_i j _ hfree
        rw [if_neg]
        intro hused
        have hstate := (hkeeps j hused).1
        rw [freeEntry_free hfree] at hstate
        cases hstate
      · rfl
    rcases hkeeps d hd with ⟨hstate, hsame⟩
    rw [hnames, hsame]
    exact hnamed d hstate
  · have hnames : noteNames names s (.rfsopen name mode, f) r.1 = upd names j name.chars := by
      unfold noteNames
      rw [hfree]
      dsimp only
      rw [htab, upd_self, if_pos hused]
    rw [hnames]
    rw [htab] at hd ⊢
    by_cases hdj : d = j
    · rw [hdj, upd_self, upd_self]
      exact hname
    · rw [upd_of_ne hdj] at hd ⊢
      rw [upd_of_ne hdj]
      exact hnamed d hd

/-- The system as it is started, before anything is observed. -/
def NameStart (dev : Fin Nrfl → Int) (t : Rfs × (Fin Nrfl → List UInt8)) : Prop :=
  t = (init dev, fun _ => [])

theorem reach_named {dev : Fin Nrfl → Int} {t : Rfs × (Fin Nrfl → List UInt8)}
    (ht : Runs.Reach (Runs.observed step noteNames) (fun _ _ => True) (NameStart dev) t) :
    Named t := by
  apply ht.invariant (I := Named)
  · rintro _ rfl d hd
    cases hd
  · intro _ _ _ _ hI _ hstep
    exact hI.step hstep

/-- In every run, whatever names were used before, a call makes the request that it should
make, inside the arrays, or is rejected, if and only if it fits. -/
theorem request_names_iff (dev : Fin Nrfl → Int) {t : Rfs × (Fin Nrfl → List UInt8)}
    (ht : Runs.Reach (Runs.observed step noteNames) (fun _ _ => True) (NameStart dev) t)
    (c : RfsCall) (stack : Packet) : Right t.2 t.1 c stack ↔ Fits t.1 c stack :=
  right_iff_fits (reach_named ht) c stack

def sampleDev (i : Fin Nrfl) : Int := 7 + i.val

/-- A file is opened and written for the first time. -/
theorem request_names_first :
    ∃ t : Rfs × (Fin Nrfl → List UInt8), (t.2 0 = [97] ∧ WriteOpen t.1 0 1) ∧
      Right t.2 t.1 (.rflwrite 0 (fun _ => 65) 1) (fun _ => 7) := by
  have hrun : ∃ t, Runs.Reach (Runs.observed step noteNames) (fun _ _ => True)
      (NameStart sampleDev) t ∧ ((t.2 0 = [97] ∧ WriteOpen t.1 0 1) ∧
        nullAt (t.1.rfltab 0).rfname RF_NAMLEN = some 1 ∧ (t.1.rfltab 0).rfname 2 = 0) :=
    Runs.exists_reach_of_follow (Runs.observed step noteNames) (fun _ _ => True)
      (s := (init sampleDev, fun _ => [])) (by exact rfl)
      [(.rfsopen ⟨[97], by decide⟩ [], answering RF_MSG_OREQ 1 0)]
      (fun t => (t.2 0 = [97] ∧ WriteOpen t.1 0 1) ∧
        nullAt (t.1.rfltab 0).rfname RF_NAMLEN = some 1 ∧ (t.1.rfltab 0).rfname 2 = 0)
      (by decide +kernel)
  rcases hrun with ⟨t, ht, hopen, hlen, hzero⟩
  refine ⟨t, hopen, (request_names_iff sampleDev ht _ _).mpr ?_⟩
  intro _ len hlen'
  rw [hlen] at hlen'
  cases hlen'
  exact ⟨by decide, hzero⟩

/-- The file {lit}`abc` is opened and closed, and then the file {lit}`a` is opened and
written. -/
theorem request_names_stale :
    ¬ ∀ t : Rfs × (Fin Nrfl → List UInt8),
      Runs.Reach (Runs.observed step noteNames) (fun _ _ => True) (NameStart sampleDev) t →
        ∀ (c : RfsCall) (stack : Packet), Right t.2 t.1 c stack := by
  intro hall
  have hrun : ∃ t, Runs.Reach (Runs.observed step noteNames) (fun _ _ => True)
      (NameStart sampleDev) t ∧ (WriteOpen t.1 0 1 ∧
        nullAt (t.1.rfltab 0).rfname RF_NAMLEN = some 1 ∧ (t.1.rfltab 0).rfname 2 = 99) :=
    Runs.exists_reach_of_follow (Runs.observed step noteNames) (fun _ _ => True)
      (s := (init sampleDev, fun _ => [])) (by exact rfl)
      [(.rfsopen ⟨[97, 98, 99], by decide⟩ [], answering RF_MSG_OREQ 1 0),
        (.rflclose 0, answering RF_MSG_OREQ 1 0),
        (.rfsopen ⟨[97], by decide⟩ [], answering RF_MSG_OREQ 2 0)]
      (fun t => WriteOpen t.1 0 1 ∧
        nullAt (t.1.rfltab 0).rfname RF_NAMLEN = some 1 ∧ (t.1.rfltab 0).rfname 2 = 99)
      (by decide +kernel)
  rcases hrun with ⟨t, ht, hopen, hlen, hbyte⟩
  have hright := hall t ht (.rflwrite 0 (fun _ => 65) 1) (fun _ => 0)
  have hclear := (right_rflwrite_iff (reach_named ht) _ _ 1).mp hright hopen 1 hlen
  rw [hbyte] at hclear
  exact absurd hclear.2 (by decide)

end

end Rfs
end BbbXinu
