import BbbXinu.Lib.CStrings
import BbbXinu.Lib.Runs
import BbbXinu.Net.Packet

/-!
# Exchanges with a remote server

{lit}`rdscomm` and {lit}`rfscomm`: both give a request the next sequence number, and then
send it and wait for a reply, up to three times.  They differ in what they make of a
datagram, which is a parameter here.  Their messages begin with the same three fields.

The server answers requests that were made, with the sequence number of the request in a
message that has at least the three fields.  The network may lose an answer, delay it,
deliver it many times and in any order: whatever was answered before may be delivered
now.  The lists of requests, answers and results are not part of the code.
-/

namespace BbbXinu
namespace Net

/-! The fields of {lit}`struct rd_msg_hdr` and {lit}`struct rf_msg_hdr`. -/

def msg_type : Nat := 0
def msg_status : Nat := 2
def msg_seq : Nat := 4
def MSG_FIELDS : Nat := 8

/-- {lit}`RD_RETRIES`, and {lit}`RF_RETRIES`. -/
def RETRIES : Nat := 3

/-- {lit}`RD_MSG_RESPONSE`, and {lit}`RF_MSG_RESPONSE`. -/
def MSG_RESPONSE : UInt16 := 0x0100

/-- A 16-bit field that is read as a signed one. -/
def int16 (x : UInt16) : Int := if x.toNat < 32768 then x.toNat else x.toNat - 65536

def seqOf (p : Packet) : UInt32 := htonl (get32 p msg_seq)

def typeOf (p : Packet) : UInt16 := htons (get16 p msg_type)

def statusOf (p : Packet) : UInt16 := htons (get16 p msg_status)

/-- A datagram overwrites the beginning of a buffer. -/
def fill (buf datagram : Packet) (n : Nat) : Packet := fun i => if i < n then datagram i else buf i

/-- What the loop does after a datagram: it goes on, and sends again or not, or it returns. -/
inductive Verdict where
  | retry (xmit : Bool)
  | done (retval : Int)
  deriving DecidableEq, Repr

/-- What {lit}`rfscomm` makes of a datagram of a given length. -/
def rfsJudge (seq : UInt32) (msg reply : Packet) (retval : Nat) : Verdict :=
  if seqOf reply ≠ seq then .retry true
  else if int16 (typeOf reply) ≠ (typeOf msg ||| MSG_RESPONSE).toNat then .retry true
  else .done retval

/-- What {lit}`rdscomm` makes of a datagram.  After a smaller sequence number it does not
send again, but it goes on to look at the type. -/
def rdsJudge (seq : UInt32) (msg reply : Packet) (_ : Nat) : Verdict :=
  if ¬seqOf reply < seq ∧ seqOf reply ≠ seq then .retry true
  else
    let xmit := !decide (seqOf reply < seq)
    if int16 (typeOf reply) ≠ (typeOf msg ||| MSG_RESPONSE).toNat then .retry xmit
    else if statusOf reply ≠ 0 then .done SYSERR
    else .done OK

/-- A datagram of the server, and the number of the request that it answers. -/
structure Answer where
  request : Nat
  bytes : Packet
  len : Nat

/-- The call that is going on: the number of its request, its message and sequence number,
the buffer for the reply and its size, the rounds of the loop that are left, and whether
it will send or receive. -/
structure Exchange where
  request : Nat
  seq : UInt32
  msg : Packet
  reply : Packet
  rlen : Nat
  left : Nat
  sending : Bool

/-- What a call returned, its buffer, and the datagram on which it returned, if any. -/
structure Result where
  request : Nat
  retval : Int
  reply : Packet
  got : Option Answer

structure Comm where
  seq : UInt32
  current : Option Exchange
  asked : List Packet
  answers : List Answer
  results : List Result

inductive CommLabel where
  | call (msg reply : Packet) (rlen : Nat)
  | send (ok : Bool)
  | answer (a : Answer)
  | timeout
  | error
  | deliver (k : Nat)

namespace Comm

/-- The call returns. -/
def finish (s : Comm) (e : Exchange) (retval : Int) (got : Option Answer) : Comm :=
  { s with
    current := none
    results := s.results ++ [{ request := e.request, retval, reply := e.reply, got }] }

/-- The next round of the loop, if there is one. -/
def retry (s : Comm) (e : Exchange) (xmit : Bool) : Comm :=
  if e.left ≤ 1 then s.finish e TIMEOUT none
  else { s with current := some { e with left := e.left - 1, sending := xmit } }

/-- The message that is sent has the next sequence number. -/
def stamp (s : Comm) (msg : Packet) : Packet := set32 msg msg_seq (htonl s.seq)

def call (s : Comm) (msg reply : Packet) (rlen : Nat) : Comm :=
  { s with
    seq := s.seq + 1
    current := some { request := s.asked.length, seq := s.seq, msg := s.stamp msg, reply, rlen,
                      left := RETRIES, sending := true }
    asked := s.asked ++ [s.stamp msg] }

/-- An answer that the server may give. -/
def Answers (s : Comm) (a : Answer) : Prop :=
  ∃ msg ∈ s.asked[a.request]?, get32 a.bytes msg_seq = get32 msg msg_seq ∧ MSG_FIELDS ≤ a.len

instance (s : Comm) (a : Answer) : Decidable (s.Answers a) :=
  inferInstanceAs (Decidable (∃ msg ∈ s.asked[a.request]?, _ = _ ∧ _ ≤ _))

/-- A datagram is received. -/
def deliver (judge : UInt32 → Packet → Packet → Nat → Verdict) (s : Comm) (e : Exchange)
    (a : Answer) : Comm :=
  let retval := min a.len e.rlen
  let e := { e with reply := fill e.reply a.bytes retval }
  match judge e.seq e.msg e.reply retval with
  | .retry xmit => s.retry e xmit
  | .done v => s.finish e v (some a)

/-- Calls are made one at a time, with a buffer that has room for the fields.  The server
and the network act at any time; a call sends and receives in turn. -/
def step (judge : UInt32 → Packet → Packet → Nat → Verdict) (s : Comm) :
    CommLabel → Option Comm
  | .call msg reply rlen =>
      if s.current.isNone ∧ MSG_FIELDS ≤ rlen then some (s.call msg reply rlen) else none
  | .send ok => s.current.bind fun e =>
      if ¬e.sending then none
      else if ok then some { s with current := some { e with sending := false } }
      else some (s.finish e SYSERR none)
  | .answer a => if s.Answers a then some { s with answers := s.answers ++ [a] } else none
  | .timeout => s.current.bind fun e => if e.sending then none else some (s.retry e true)
  | .error => s.current.bind fun e => if e.sending then none else some (s.finish e SYSERR none)
  | .deliver k => s.current.bind fun e =>
      if e.sending then none else (s.answers[k]?).map fun a => s.deliver judge e a

/-- {lit}`rdsinit` and {lit}`rfsinit` start with sequence number 1. -/
def init : Comm where
  seq := 1
  current := none
  asked := []
  answers := []
  results := []

def Init (s : Comm) : Prop := s = init

end Comm

/-!
## Calls of a remote server

{lit}`rdscomm` and {lit}`rfscomm` as their callers see them: what they return, and what is
in the buffer for the reply then.  That depends on what the calls of the UDP functions
give, which is a parameter here.
-/

/-- What {lit}`udp_send` and {lit}`udp_recv` give in a round of the loop: whether the
datagram is sent, and then {lit}`TIMEOUT`, {lit}`SYSERR` or the length of a datagram that
has come, and its data. -/
structure CommRound where
  sent : Bool
  msglen : Int
  udpdata : Packet

/-- What the network does during a call: what {lit}`udp_register` returns, whether the
local IP address is known or {lit}`getlocalip` finds it, and the rounds of the loop. -/
structure Wire where
  slot : Int
  localip : Bool
  round : Nat → CommRound

/-- What is kept of the exchanges with a server in {lit}`struct rdscblk` and in
{lit}`Rf_data`: the next sequence number to use, and the UDP slot. -/
structure Port where
  seq : UInt32
  registered : Bool
  udpslot : Int

/-- For the first time after reboot, register the server port. -/
def Port.register (p : Port) (w : Wire) : Option Port :=
  if p.registered then some p
  else if w.slot = SYSERR then none
  else some { p with registered := true, udpslot := w.slot }

/-- The loop that sends a message and receives a reply, with the rounds that are left and
those that are over.  {lit}`judge` is what the function makes of a datagram. -/
def commLoop (judge : Packet → Int → Verdict) (rlen : Nat) (round : Nat → CommRound) :
    Nat → Nat → Bool → Packet → Packet × Int
  | 0, _, _, reply => (reply, TIMEOUT)
  | left + 1, i, xmit, reply =>
      if xmit = true ∧ (round i).sent = false then (reply, SYSERR)
      else
        let retval := min (round i).msglen rlen
        if retval = TIMEOUT then commLoop judge rlen round left (i + 1) true reply
        else if retval = SYSERR then (reply, SYSERR)
        else
          let reply := fill reply (round i).udpdata retval.toNat
          match judge reply retval with
          | .retry xmit => commLoop judge rlen round left (i + 1) xmit reply
          | .done v => (reply, v)

/-- Handle communication with the remote disk server: the port, the reply, and
{lit}`OK`, {lit}`SYSERR` or {lit}`TIMEOUT`. -/
def rdscomm (p : Port) (w : Wire) (msg reply : Packet) (rlen : Nat) : Port × Packet × Int :=
  match p.register w with
  | none => (p, reply, SYSERR)
  | some p =>
      if w.localip = false then (p, reply, SYSERR)
      else
        let msg := set32 msg msg_seq (htonl p.seq)
        ({ p with seq := p.seq + 1 },
          commLoop (fun reply retval => rdsJudge p.seq msg reply retval.toNat) rlen w.round
            RETRIES 0 true reply)

/-- {lit}`rfscomm` returns the length of the reply. -/
def rfsVerdict (seq : UInt32) (msg reply : Packet) (retval : Int) : Verdict :=
  match rfsJudge seq msg reply retval.toNat with
  | .retry xmit => .retry xmit
  | .done _ => .done retval

/-- Handle communication with the remote file server: the port, the reply, and its length,
{lit}`SYSERR` or {lit}`TIMEOUT`. -/
def rfscomm (p : Port) (w : Wire) (msg reply : Packet) (rlen : Nat) : Port × Packet × Int :=
  match p.register w with
  | none => (p, reply, SYSERR)
  | some p =>
      let msg := set32 msg msg_seq (htonl p.seq)
      ({ p with seq := p.seq + 1 },
        commLoop (rfsVerdict p.seq msg) rlen w.round RETRIES 0 true reply)

end Net
end BbbXinu

/-!
## Opening the remote disk

{lit}`rdsopen` for every disk ID and every course of the exchange with the server.
-/

namespace BbbXinu
namespace Rds

open CStrings Net

def RD_IDLEN : Nat := 64
def RD_MSG_OREQ : UInt16 := 0x0030

/-- Where {lit}`rd_id` is in a message. -/
def rd_id : Nat := 8

/-- The size of {lit}`struct rd_msg_ores`. -/
def ORES_SIZE : Nat := 72

/-- {lit}`RD_FREE`, {lit}`RD_OPEN` and {lit}`RD_PEND`. -/
inductive OpenState where
  | free | opened | pend
  deriving DecidableEq, Repr

/-- What {lit}`rdsopen` uses of {lit}`struct rdscblk`. -/
structure RdsCblk where
  rdState : OpenState
  rdId : Nat → UInt8
  port : Port

/-- Hand-craft an open request message, over what is on the stack. -/
def openRequest (stack diskid : Nat → UInt8) (len : Nat) : Packet :=
  let msg := set16 stack msg_type (htons RD_MSG_OREQ)
  let msg := set16 msg msg_status (htons 0)
  let msg := set32 msg msg_seq 0
  let msg := copy msg rd_id (fun _ => 0) 0 RD_IDLEN
  copy msg rd_id diskid 0 (len + 1)

/-- Open a remote disk device and specify an ID to use.  What {lit}`msg` and {lit}`resp`
hold is on the stack before. -/
def rdsopen (rdptr : RdsCblk) (w : Wire) (msg resp : Packet) (diskid : CString) (dvnum : Nat) :
    RdsCblk × Int :=
  if rdptr.rdState ≠ .free then (rdptr, SYSERR)
  else
    let rdptr := { rdptr with rdState := .pend }
    match nullAt diskid.mem RD_IDLEN with
    | none => ({ rdptr with rdId := copy rdptr.rdId 0 diskid.mem 0 RD_IDLEN }, SYSERR)
    | some len =>
        let rdptr := { rdptr with rdId := copy rdptr.rdId 0 diskid.mem 0 (len + 1) }
        if len = 0 then (rdptr, SYSERR)
        else
          let (port, resp, retval) :=
            rdscomm rdptr.port w (openRequest msg diskid.mem len) resp ORES_SIZE
          let rdptr := { rdptr with port := port }
          if retval = SYSERR then ({ rdptr with rdState := .free }, SYSERR)
          else if retval = TIMEOUT then ({ rdptr with rdState := .free }, SYSERR)
          else if statusOf resp ≠ 0 then ({ rdptr with rdState := .free }, SYSERR)
          else ({ rdptr with rdState := .opened }, dvnum)

end Rds
end BbbXinu
