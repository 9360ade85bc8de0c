import BbbXinu.Lfs.Files
import BbbXinu.Net.Exchange

/-!
# Remote files

{lit}`rfsopen`, {lit}`rfscontrol` and the calls on an open remote file.  Each runs with
{lit}`rf_mutex` held from its beginning to its end, so a call is one step.  It is given in
two parts, up to {lit}`rfscomm` and from there on, with what is on its stack and what
{lit}`rfscomm` gives as parameters.
-/

namespace BbbXinu
namespace Rfs

open CStrings Net

def RF_NAMLEN : Nat := 128
def RF_DATALEN : Nat := 1024
def Nrfl : Nat := 10

instance : NeZero Nrfl := ⟨by decide⟩

def RF_MODE_R : UInt32 := 0x01
def RF_MODE_W : UInt32 := 0x02

/-! The types of requests. -/

def RF_MSG_RREQ : UInt16 := 0x0001
def RF_MSG_WREQ : UInt16 := 0x0002
def RF_MSG_OREQ : UInt16 := 0x0003
def RF_MSG_DREQ : UInt16 := 0x0004
def RF_MSG_TREQ : UInt16 := 0x0005
def RF_MSG_SREQ : UInt16 := 0x0006
def RF_MSG_MREQ : UInt16 := 0x0007
def RF_MSG_XREQ : UInt16 := 0x0008

/-! Control functions. -/

def RFS_CTL_DEL : Int := 1
def RFS_CTL_TRUNC : Int := 2
def RFS_CTL_MKDIR : Int := 3
def RFS_CTL_RMDIR : Int := 4
def RFS_CTL_SIZE : Int := 5

/-! Where the fields of the messages are, behind those that all messages have. -/

def rf_name : Nat := 8
def rf_pos : Nat := 136
def rf_mode : Nat := 136
def rf_size : Nat := 136
def rf_len : Nat := 140
def rf_data : Nat := 144

/-! The sizes of the buffers for replies. -/

def HDR_SIZE : Nat := 136
def ORES_SIZE : Nat := 140
def SRES_SIZE : Nat := 140
def RRES_SIZE : Nat := 1168
def WRES_SIZE : Nat := 144

/-- {lit}`RF_FREE` and {lit}`RF_USED`. -/
inductive RfState where
  | free | used
  deriving DecidableEq, Repr

/-- {lit}`struct rflcblk`. -/
structure Rflcblk where
  rfstate : RfState
  rfdev : Int
  rfname : Nat → UInt8
  rfpos : UInt32
  rfmode : UInt32

/-- What a call comes to at {lit}`rfscomm`: it has returned before, it has left the arrays,
or it hands over a request, for the file of a control block and with the size of the
buffer for the reply. -/
inductive Built where
  | returned (retval : Int)
  | fault
  | request (i : Fin Nrfl) (msg : Packet) (rlen : Nat)

end Rfs

/-- The control blocks, and what {lit}`Rf_data` keeps of the exchanges. -/
structure Rfs where
  rfltab : Fin Rfs.Nrfl → Rfs.Rflcblk
  port : Net.Port

namespace Rfs

open CStrings Net

variable (s : Rfs) (d : Fin Nrfl)

def setBlk (blk : Rflcblk) : Rfs := { s with rfltab := upd s.rfltab d blk }

/-!
## Messages
-/

/-- The first fields, over what is on the stack. -/
def formHeader (stack : Packet) (type : UInt16) : Packet :=
  set32 (set16 (set16 stack msg_type (htons type)) msg_status (htons 0)) msg_seq 0

/-- Start the name as all zero bytes. -/
def clearName (msg : Packet) : Packet := copy msg rf_name (fun _ => 0) 0 RF_NAMLEN

/-- Copy a name of {lit}`len` characters, with its null byte. -/
def putName (msg : Packet) (name : Nat → UInt8) (len : Nat) : Packet :=
  copy msg rf_name name 0 (len + 1)

/-- The data of a write request, with null bytes behind. -/
def putData (msg : Packet) (buff : Nat → UInt8) (count : Nat) : Packet :=
  copy (copy msg rf_data buff 0 count) (rf_data + count) (fun _ => 0) 0 (RF_DATALEN - count)

/-- The position and the count of a request. -/
def putRange (msg : Packet) (pos : UInt32) (count : Int) : Packet :=
  set32 (set32 msg rf_pos (htonl pos)) rf_len (htonl (UInt32.ofNat count.toNat))

/-- {lit}`rfsgetmode` is the same function as {lit}`lfgetmode`. -/
def rfsgetmode (mode : List UInt8) : Option UInt32 := Lfs.lfgetmode mode

/-!
## Up to the exchange
-/

/-- The first free entry. -/
def freeEntry : Option (Fin Nrfl) :=
  (List.finRange Nrfl).find? fun i => (s.rfltab i).rfstate = .free

def rfsopenRequest (stack : Packet) (name : CString) (mode : List UInt8) : Rfs × Built :=
  match s.freeEntry with
  | none => (s, .returned SYSERR)
  | some i =>
      let rfptr := s.rfltab i
      match nullAt name.mem RF_NAMLEN with
      | none =>
          (s.setBlk i { rfptr with rfname := copy rfptr.rfname 0 name.mem 0 RF_NAMLEN },
            .returned SYSERR)
      | some len =>
          let rfptr := { rfptr with rfname := copy rfptr.rfname 0 name.mem 0 (len + 1) }
          if len = 0 then (s.setBlk i rfptr, .returned SYSERR)
          else
            match rfsgetmode mode with
            | none => (s.setBlk i { rfptr with rfmode := 0xffffffff }, .returned SYSERR)
            | some mbits =>
                let msg := putName (clearName (formHeader stack RF_MSG_OREQ)) name.mem len
                (s.setBlk i { rfptr with rfmode := mbits },
                  .request i (set32 msg rf_mode (htonl mbits)) ORES_SIZE)

def rflclose : Rfs × Int :=
  if (s.rfltab d).rfstate = .free then (s, SYSERR)
  else (s.setBlk d { s.rfltab d with rfstate := .free }, OK)

def rflseek (pos : UInt32) : Rfs × Int :=
  if (s.rfltab d).rfstate = .free then (s, SYSERR)
  else (s.setBlk d { s.rfltab d with rfpos := pos }, OK)

def rflreadRequest (stack : Packet) (count : Int) : Built :=
  let rfptr := s.rfltab d
  if count ≤ 0 ∨ count > RF_DATALEN then .returned SYSERR
  else if rfptr.rfstate = .free then .returned SYSERR
  else if rfptr.rfmode &&& RF_MODE_R = 0 then .returned SYSERR
  else
    match nullAt rfptr.rfname RF_NAMLEN with
    | none => .returned SYSERR
    | some len =>
        let msg := putName (clearName (formHeader stack RF_MSG_RREQ)) rfptr.rfname len
        .request d (putRange msg rfptr.rfpos count) RRES_SIZE

/-- The name is copied twice: a second loop goes on behind the null byte, up to the next
one. -/
def rflwriteRequest (stack : Packet) (buff : Nat → UInt8) (count : Int) : Built :=
  let rfptr := s.rfltab d
  if count ≤ 0 ∨ count > RF_DATALEN then .returned SYSERR
  else if rfptr.rfstate = .free ∨ rfptr.rfmode &&& RF_MODE_W = 0 then .returned SYSERR
  else
    match nullAt rfptr.rfname RF_NAMLEN with
    | none => .returned SYSERR
    | some len =>
        let msg := putName (clearName (formHeader stack RF_MSG_WREQ)) rfptr.rfname len
        match nullAt (fun k => rfptr.rfname (len + 1 + k)) (RF_NAMLEN - (len + 1)) with
        | none => .fault
        | some more =>
            let msg := copy msg (rf_name + (len + 1)) rfptr.rfname (len + 1) (more + 1)
            .request d (putData (putRange msg rfptr.rfpos count) buff count.toNat) WRES_SIZE

/-- {lit}`rfsndmsg`: the loop ends at the end of the name only. -/
def rfsndmsgRequest (stack : Packet) (type : UInt16) (name : CString) : Built :=
  if RF_NAMLEN ≤ name.chars.length then .fault
  else .request d (putName (formHeader stack type) name.mem name.chars.length) HDR_SIZE

/-- The request for a control function that calls {lit}`rfsndmsg`. -/
def messageType (func : Int) : Option UInt16 :=
  if func = RFS_CTL_DEL then some RF_MSG_DREQ
  else if func = RFS_CTL_TRUNC then some RF_MSG_TREQ
  else if func = RFS_CTL_MKDIR then some RF_MSG_MREQ
  else if func = RFS_CTL_RMDIR then some RF_MSG_XREQ
  else none

def rfscontrolRequest (stack : Packet) (func : Int) (arg1 : CString) : Built :=
  let rfptr := s.rfltab d
  match nullAt rfptr.rfname (RF_NAMLEN - 1) with
  | none => .returned SYSERR
  | some len =>
      match messageType func with
      | some type => rfsndmsgRequest d stack type arg1
      | none =>
          if func = RFS_CTL_SIZE then
            -- The header is filled in after the name.
            .request d (formHeader (putName (clearName stack) rfptr.rfname len) RF_MSG_SREQ)
              SRES_SIZE
          else .returned SYSERR

/-!
## From the exchange on
-/

/-- There is a reply, and its status is 0. -/
def Replied (reply : Packet) (retval : Int) : Prop :=
  retval ≠ SYSERR ∧ retval ≠ TIMEOUT ∧ statusOf reply = 0

instance (reply : Packet) (retval : Int) : Decidable (Replied reply retval) :=
  inferInstanceAs (Decidable (_ ∧ _ ∧ _))

/-- The length in a reply. -/
def lenOf (reply : Packet) : UInt32 := htonl (get32 reply rf_len)

def rfsopenReply (reply : Packet) (retval : Int) : Rfs × Int :=
  if Replied reply retval then
    (s.setBlk d { s.rfltab d with rfpos := 0, rfstate := .used }, (s.rfltab d).rfdev)
  else (s, SYSERR)

/-- What is returned, and what was stored in the caller's buffer.  The length is that of the
reply, and the loop takes as many bytes from there on as it says. -/
def rflreadReply (reply : Packet) (retval : Int) : Rfs × Int × List UInt8 :=
  if Replied reply retval then
    (s.setBlk d { s.rfltab d with rfpos := (s.rfltab d).rfpos + lenOf reply },
      int32 (lenOf reply).toNat,
      (List.range (lenOf reply).toNat).map fun i => reply (rf_data + i))
  else (s, SYSERR, [])

def rflwriteReply (reply : Packet) (retval : Int) : Rfs × Int :=
  if Replied reply retval then
    (s.setBlk d { s.rfltab d with rfpos := (s.rfltab d).rfpos + lenOf reply },
      int32 (lenOf reply).toNat)
  else (s, SYSERR)

def rfscontrolReply (func : Int) (reply : Packet) (retval : Int) : Int :=
  if func = RFS_CTL_SIZE then
    if retval = SYSERR ∨ retval = TIMEOUT then SYSERR
    else int32 (htonl (get32 reply rf_size)).toNat
  else if Replied reply retval then OK
  else SYSERR

/-!
## Calls
-/

/-- The calls. -/
inductive RfsCall where
  | rfsopen (name : CString) (mode : List UInt8)
  | rflclose (d : Fin Nrfl)
  | rflseek (d : Fin Nrfl) (pos : UInt32)
  | rflread (d : Fin Nrfl) (count : Int)
  | rflwrite (d : Fin Nrfl) (buff : Nat → UInt8) (count : Int)
  | rfscontrol (d : Fin Nrfl) (func : Int) (arg1 : CString)

/-- What a call finds: what is on the stack in its message and in its buffer for the
reply, and the network. -/
structure Surroundings where
  msg : Packet
  resp : Packet
  wire : Wire

/-- The part of a call up to {lit}`rfscomm`. -/
def request (stack : Packet) : RfsCall → Rfs × Built
  | .rfsopen name mode => s.rfsopenRequest stack name mode
  | .rflclose d => ((s.rflclose d).1, .returned (s.rflclose d).2)
  | .rflseek d pos => ((s.rflseek d pos).1, .returned (s.rflseek d pos).2)
  | .rflread d count => (s, s.rflreadRequest d stack count)
  | .rflwrite d buff count => (s, s.rflwriteRequest d stack buff count)
  | .rfscontrol d func arg1 => (s, s.rfscontrolRequest d stack func arg1)

/-- The part of a call from {lit}`rfscomm` on. -/
def reply (i : Fin Nrfl) (resp : Packet) (retval : Int) : RfsCall → Rfs × Int × List UInt8
  | .rfsopen _ _ => ((s.rfsopenReply i resp retval).1, (s.rfsopenReply i resp retval).2, [])
  | .rflread d _ => s.rflreadReply d resp retval
  | .rflwrite d _ _ => ((s.rflwriteReply d resp retval).1, (s.rflwriteReply d resp retval).2, [])
  | .rfscontrol _ func _ => (s, rfscontrolReply func resp retval, [])
  | .rflclose _ => (s, OK, [])
  | .rflseek _ _ => (s, OK, [])

/-- A call: the state after it, what it returns, and what it stores in the caller's buffer.
There is no result when it leaves the arrays. -/
def call (c : RfsCall) (f : Surroundings) : Option (Rfs × Int × List UInt8) :=
  let (s, built) := s.request f.msg c
  match built with
  | .returned retval => some (s, retval, [])
  | .fault => none
  | .request i msg rlen =>
      let (port, resp, retval) := rfscomm s.port f.wire msg f.resp rlen
      some (reply { s with port := port } i resp retval c)

def step (l : RfsCall × Surroundings) : Option Rfs := (s.call l.1 l.2).map fun t => t.1

/-- The control blocks after {lit}`rflinit`, and {lit}`Rf_data` after {lit}`rfsinit`. -/
def init (dev : Fin Nrfl → Int) : Rfs where
  rfltab := fun i =>
    { rfstate := .free, rfdev := dev i, rfname := fun _ => 0, rfpos := 0, rfmode := 0 }
  port := { seq := 1, registered := false, udpslot := 0 }

end Rfs
end BbbXinu
