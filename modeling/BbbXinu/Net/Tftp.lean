import BbbXinu.Lib.Scatter
import BbbXinu.Net.Packet

/-!
# Downloading a file

{lit}`tftpget_mb` with {lit}`tftp_send1`, a server and the network between them.  The
network keeps every datagram that was sent and delivers it any number of times, at any
time; so it loses, duplicates, delays and reorders datagrams.  The server opens a session
with a port of its own for every read request that it gets, also for a repeated one, and
sends the next block of the file when the last one was acknowledged, and the last one
again at any time.

A message is the list of its bytes.  The buffers of the caller are different ones.  The
log is not part of the code; it has the numbers of the blocks that were copied.
-/

namespace BbbXinu
namespace Net

open Scatter (store)

def TFTP_RRQ : UInt16 := 1
def TFTP_DATA : UInt16 := 3
def TFTP_ACK : UInt16 := 4
def TFTP_ERROR : UInt16 := 5
def TFTP_PORT : UInt16 := 69
def TFTP_MAXNAM : Nat := 64
def TFTP_MAXDATA : Nat := 512
def TFTP_MAXRETRIES : Nat := 3

/-- The size of {lit}`struct tftp_msg`. -/
def TFTP_MSG : Nat := 4 + TFTP_MAXDATA

/-!
## Messages
-/

/-- A message in a buffer. -/
def inBuffer (bytes : List UInt8) : Packet := fun i => bytes.getD i 0

/-- A field as {lit}`ntohs` gives it. -/
def field16 (bytes : List UInt8) (o : Nat) : UInt16 := htons (get16 (inBuffer bytes) o)

def tf_opcode : Nat := 0
def tf_dblk : Nat := 2

/-- A field as {lit}`htons` leaves it. -/
def word (w : UInt16) : List UInt8 := [UInt8.ofNat (w.toNat / 256), UInt8.ofNat (w.toNat % 256)]

def octet : List UInt8 := [111, 99, 116, 101, 116]

/-- A read request. -/
def rrqMsg (filename : List UInt8) : List UInt8 :=
  word TFTP_RRQ ++ filename ++ [0] ++ octet ++ [0]

def ackMsg (blk : UInt16) : List UInt8 := word TFTP_ACK ++ word blk

/-- The bytes of a block of a file; the first block is number 1. -/
def blockOf (file : List UInt8) (b : Nat) : List UInt8 :=
  (file.drop ((b - 1) * TFTP_MAXDATA)).take TFTP_MAXDATA

/-- The number of blocks of a file, the last of which is short. -/
def blocks (file : List UInt8) : Nat := file.length / TFTP_MAXDATA + 1

def dataMsg (file : List UInt8) (b : Nat) : List UInt8 :=
  word TFTP_DATA ++ word (UInt16.ofNat b) ++ blockOf file b

/-- The name in a read request for a file as it is. -/
def rrqName (bytes : List UInt8) : Option (List UInt8) :=
  let name := (bytes.drop 2).takeWhile fun b => b ≠ 0
  let mode := ((bytes.drop 2).dropWhile fun b => b ≠ 0).drop 1
  if field16 bytes tf_opcode = TFTP_RRQ ∧ (mode.takeWhile fun b => b ≠ 0) = octet then some name
  else none

/-!
## Arguments
-/

/-- The characters of a string before its end, at most so many. -/
def strnlen (s : Nat → UInt8) (len : Nat) : Nat :=
  ((List.range len).find? fun n => s n = 0).getD len

/-- A buffer of the caller: is it there, and how large is it? -/
structure RcvBuf where
  given : Bool
  size : UInt32

/-- The arguments of {lit}`tftpget_mb`.  An array that is not there has no elements. -/
structure TftpArgs where
  serverip : UInt32
  filename : Option (Nat → UInt8)
  rcv_bufs : List RcvBuf

namespace TftpArgs

/-- The test of the arguments. -/
def Valid (a : TftpArgs) : Prop :=
  a.filename.isSome ∧ a.serverip ≠ 0 ∧ a.rcv_bufs ≠ [] ∧
    ∀ b ∈ a.rcv_bufs, b.given = true ∧ b.size ≠ 0

instance (a : TftpArgs) : Decidable a.Valid :=
  inferInstanceAs (Decidable (_ ∧ _ ≠ _ ∧ _ ≠ _ ∧ ∀ b ∈ a.rcv_bufs, b.given = true ∧ b.size ≠ 0))

/-- The name that is asked for. -/
def name (a : TftpArgs) : List UInt8 :=
  match a.filename with
  | none => []
  | some filename => (List.range (strnlen filename (TFTP_MAXNAM + 1))).map filename

def size (a : TftpArgs) (b : Nat) : Nat := ((a.rcv_bufs[b]?).map fun buf => buf.size.toNat).getD 0

/-- {lit}`tftpget` is {lit}`tftpget_mb` with one buffer. -/
def tftpget (serverip : UInt32) (filename : Option (Nat → UInt8)) (rcv_buf : RcvBuf) : TftpArgs :=
  { serverip, filename, rcv_bufs := [rcv_buf] }

end TftpArgs

/-!
## The machine
-/

/-- A datagram, with the port of the server that it goes to or comes from. -/
structure Datagram where
  port : UInt16
  bytes : List UInt8

/-- A session of the server: the file, and the last block that was sent. -/
structure Session where
  file : List UInt8
  block : Nat

/-- The variables of {lit}`tftpget_mb`.  A pointer is the number of a buffer and an offset. -/
structure Get where
  remport : UInt16
  expected : UInt16
  i : Nat
  filesiz : Nat
  outmsg : List UInt8
  curr_buf : Nat × Nat
  curr_buf_ind : Nat
  curr_used : Nat

structure Tftp where
  get : Option Get
  result : Option Int
  rcv_bufs : Nat → Nat → UInt8
  toServer : List Datagram
  toClient : List Datagram
  sessions : UInt16 → Option Session
  copied : List Nat

/-- The flags say which calls of other routines succeed. -/
inductive TftpLabel where
  | call (utime registered sent : Bool)
  | recv (k : Nat) (sent : Bool)
  | timeout (sent : Bool)
  | error
  | request (k : Nat) (port : UInt16)
  | ack (k : Nat)
  | resend (port : UInt16)
  | refuse (port : UInt16) (text : List UInt8)

/-- The next buffer, if the current one is full. -/
def nextBuf (a : TftpArgs) (g : Get) : Option Get :=
  if a.size g.curr_buf_ind ≤ g.curr_used then
    if a.rcv_bufs.length ≤ g.curr_buf_ind + 1 then none
    else
      some { g with
        curr_buf_ind := g.curr_buf_ind + 1
        curr_buf := (g.curr_buf_ind + 1, 0)
        curr_used := 0 }
  else some g

/-- The place of one more byte was used. -/
def Get.advance (g : Get) : Get :=
  { g with
    curr_buf := (g.curr_buf.1, g.curr_buf.2 + 1)
    curr_used := g.curr_used + 1
    filesiz := g.filesiz + 1 }

/-- The loop that moves a block into the buffers, and whether it came to the end. -/
def copyBlock (a : TftpArgs) :
    List UInt8 → Get → (Nat → Nat → UInt8) → Get × (Nat → Nat → UInt8) × Bool
  | [], g, bufs => (g, bufs, true)
  | b :: rest, g, bufs =>
      match nextBuf a g with
      | none => (g, bufs, false)
      | some g => copyBlock a rest g.advance (store bufs g.curr_buf b)

namespace Tftp

def finish (s : Tftp) (status : Int) : Tftp := { s with get := none, result := some status }

def sendto (s : Tftp) (d : Datagram) : Tftp := { s with toServer := s.toServer ++ [d] }

/-- {lit}`tftp_send1`, up to the place where it waits. -/
def tftpSend1 (s : Tftp) (g : Get) (sent : Bool) : Tftp :=
  if sent then { s.sendto { port := g.remport, bytes := g.outmsg } with get := some g }
  else s.finish SYSERR

/-- {lit}`tftpget_mb`, up to the place where it waits. -/
def tftpgetMb (a : TftpArgs) (s : Tftp) (utime registered sent : Bool) : Tftp :=
  if ¬a.Valid then s.finish SYSERR
  else if a.name.length ≤ 0 ∨ TFTP_MAXNAM < a.name.length then s.finish SYSERR
  else if !utime then s.finish SYSERR
  else if !registered then s.finish SYSERR
  else
    s.tftpSend1
      { remport := TFTP_PORT
        expected := 1
        i := 0
        filesiz := 0
        outmsg := rrqMsg a.name
        curr_buf := (0, 0)
        curr_buf_ind := 0
        curr_used := 0 } sent

/-- {lit}`tftpget_mb` behind the copying of a block with so many bytes. -/
def acknowledge (s : Tftp) (g : Get) (dlen : Nat) (sent : Bool) : Tftp :=
  let g := { g with outmsg := ackMsg g.expected }
  if dlen < 512 then
    if sent then (s.sendto { port := g.remport, bytes := g.outmsg }).finish g.filesiz
    else s.finish SYSERR
  else s.tftpSend1 { g with expected := g.expected + 1, i := 0 } sent

/-- {lit}`tftpget_mb` with the block that it expects. -/
def accept (a : TftpArgs) (s : Tftp) (g : Get) (data : List UInt8) (sent : Bool) : Tftp :=
  let r := copyBlock a data g s.rcv_bufs
  let s := { s with rcv_bufs := r.2.1, copied := s.copied ++ [g.expected.toNat] }
  if r.2.2 then s.acknowledge r.1 data.length sent else s.finish r.1.filesiz

/-- {lit}`tftp_send1` with a datagram. -/
def recv (a : TftpArgs) (s : Tftp) (g : Get) (d : Datagram) (sent : Bool) : Tftp :=
  let inmsg := d.bytes.take TFTP_MSG
  let g := { g with remport := d.port }
  if inmsg.length < 4 then { s with get := some g }
  else if field16 inmsg tf_opcode = TFTP_ERROR then s.finish SYSERR
  else if field16 inmsg tf_opcode = TFTP_DATA ∧ field16 inmsg tf_dblk = g.expected then
    s.accept a g (inmsg.drop 4) sent
  else { s with get := some g }

/-- {lit}`tftpget_mb` after {lit}`tftp_send1` has returned {lit}`TIMEOUT`. -/
def timeout (s : Tftp) (g : Get) (sent : Bool) : Tftp :=
  if g.i + 1 < TFTP_MAXRETRIES then s.tftpSend1 { g with i := g.i + 1 } sent
  else s.finish SYSERR

/-- The server sends a message. -/
def reply (s : Tftp) (port : UInt16) (bytes : List UInt8) : Tftp :=
  { s with toClient := s.toClient ++ [{ port, bytes }] }

/-- The server sends a block. -/
def serve (s : Tftp) (port : UInt16) (x : Session) : Tftp :=
  { s.reply port (dataMsg x.file x.block) with sessions := upd s.sessions port (some x) }

/-- The server gets an acknowledgement of the last block that it sent. -/
def acked (s : Tftp) (port : UInt16) (x : Session) : Tftp :=
  if (blockOf x.file x.block).length < TFTP_MAXDATA then
    { s with sessions := upd s.sessions port none }
  else s.serve port { x with block := x.block + 1 }

/-- The call is made once.  The server has some files. -/
def step (files : List UInt8 → Option (List UInt8)) (a : TftpArgs) (s : Tftp) :
    TftpLabel → Option Tftp
  | .call utime registered sent =>
      if s.get.isSome ∨ s.result.isSome then none
      else some (s.tftpgetMb a utime registered sent)
  | .recv k sent => s.get.bind fun g => (s.toClient[k]?).map fun d => s.recv a g d sent
  | .timeout sent => s.get.map fun g => s.timeout g sent
  | .error => s.get.map fun _ => s.finish SYSERR
  | .request k port => (s.toServer[k]?).bind fun d =>
      if d.port = TFTP_PORT ∧ (s.sessions port).isNone then
        ((rrqName d.bytes).bind files).map fun file => s.serve port { file, block := 1 }
      else none
  | .ack k => (s.toServer[k]?).bind fun d => (s.sessions d.port).bind fun x =>
      if d.bytes = ackMsg (UInt16.ofNat x.block) then some (s.acked d.port x) else none
  | .resend port => (s.sessions port).map fun x => s.serve port x
  | .refuse port text => some (s.reply port (word TFTP_ERROR ++ text))

/-- The caller has made no call, and nothing was sent. -/
def Init (s : Tftp) : Prop :=
  s.get = none ∧ s.result = none ∧ s.toServer = [] ∧ s.toClient = [] ∧
    (∀ port, s.sessions port = none) ∧ s.copied = []

end Tftp

end Net
end BbbXinu
