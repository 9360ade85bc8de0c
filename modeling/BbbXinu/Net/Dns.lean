import BbbXinu.Net.Packet
import BbbXinu.Shell.State

/-!
# Domain names

{lit}`dns.c`: a question is built, and the answers of a response are searched.  Offsets are
those from the start of the message.  What {lit}`dns_bldq` and {lit}`dns_getrname` store they
store at the next place behind what they have stored before.
-/

namespace BbbXinu
namespace Net

def DNS_QT_A : UInt16 := 1
def DNS_QC_IN : UInt16 := 1

def dns_qdcount : Nat := 4
def dns_ancount : Nat := 6
def dns_data : Nat := 12

/-- The bytes of a 16-bit field, as they lie in a message. -/
def netBytes (x : UInt16) : List UInt8 := [UInt8.ofNat (x.toNat / 256), UInt8.ofNat (x.toNat % 256)]

/-!
## A question
-/

/-- The loop over the characters of a name.  The length of the label that is being copied is
kept at {lit}`llptr`.  There is no result when {lit}`SYSERR` is returned. -/
def bldqLoop : List UInt8 → List UInt8 → Nat → Nat → Option (List UInt8 × Nat)
  | [], data, _, qlen => some (data, qlen)
  | ch :: dname, data, llptr, qlen =>
      if 512 ≤ qlen then none
      else if ch ≠ DOT then bldqLoop dname ((data ++ [ch]).modify llptr (· + 1)) llptr (qlen + 1)
      else bldqLoop dname (data ++ [0]) data.length (qlen + 1)

/-- Build a question: what is stored, and its length. -/
def dnsBldq (dname : List UInt8) : Option (List UInt8 × Nat) :=
  (bldqLoop dname [0] 0 1).map fun r =>
    (r.1 ++ [0] ++ netBytes DNS_QT_A ++ netBytes DNS_QC_IN, r.2 + 1 + 2 + 2)

/-!
## A name
-/

/-- What {lit}`dns_getrname` does: what it stores, the message then, the offsets that it
reads, and the place in the message where it stops. -/
structure Rname where
  rname : List UInt8
  packet : Packet
  reads : List Nat
  son : Nat

/-- The offset in a pointer, when its first byte has been cleared. -/
def pointee (p : Packet) (son : Nat) : Nat := 256 * (p son).toNat + (p (son + 1)).toNat

/-- A pointer whose first byte is cleared of the two bits that tell it from a label. -/
def unmarked (p : Packet) (son : Nat) : Packet := upd p son (p son &&& 0x3f)

/-- The loop over the labels of a name.  A pointer ends it with a call for the name elsewhere,
whose value is not used. -/
def getrnameLoop : Nat → Packet → Nat → Option Rname
  | 0, _, _ => none
  | fuel + 1, p, son =>
      let llen := (p son).toNat
      if llen = 0 then some { rname := [0], packet := p, reads := [son], son := son + 1 }
      else if llen ≤ 63 then
        (getrnameLoop fuel p (son + 1 + llen)).map fun r =>
          { r with
            rname := (List.range llen).map (fun i => p (son + 1 + i)) ++ DOT :: r.rname
            reads := (List.range (1 + llen)).map (son + ·) ++ r.reads }
      else
        (getrnameLoop fuel (unmarked p son) (pointee (unmarked p son) son)).map fun r =>
          { r with reads := son :: (son + 1) :: r.reads, son := son + 2 }

/-- Make a string of the name in a resource record. -/
def dnsGetrname (fuel : Nat) (p : Packet) (son : Nat) : Option (Rname × Nat) :=
  (getrnameLoop fuel p son).map fun r => (r, r.son - son)

/-!
## A response
-/

/-- Skip the name in a question. -/
def skipName (p : Packet) : Nat → Nat → Option Nat
  | 0, _ => none
  | fuel + 1, dptr =>
      let llen := (p dptr).toNat
      if llen = 0 then some (dptr + 1)
      else if 63 < llen then some (dptr + 2)
      else skipName p fuel (dptr + (1 + llen))

/-- Skip the questions of which the given number is left. -/
def skipQuestions (fuel : Nat) (p : Packet) : Nat → Nat → Option Nat
  | 0, dptr => some dptr
  | i + 1, dptr => (skipName p fuel dptr).bind fun d => skipQuestions fuel p i (d + (2 + 2))

/-- Bytes as characters. -/
def charsOf (s : List UInt8) : List Char := s.map fun b => Char.ofNat b.toNat

/-- The loop over the answers of which the given number is left. -/
def searchAnswers (fuel : Nat) (dname : List UInt8) : Nat → Packet → Nat → Option UInt32
  | 0, _, _ => some (UInt32.ofInt SYSERR)
  | i + 1, p, dptr =>
      (dnsGetrname fuel p dptr).bind fun (r, dlen) =>
        let d := dptr + dlen
        if strncmp (charsOf r.rname) (charsOf dname) dname.length = 0 ∧
            htons (get16 r.packet d) = DNS_QT_A then some (get32 r.packet (d + 10))
        else
          searchAnswers fuel dname i r.packet
            (d + 8 + (2 + (htons (get16 r.packet (d + 8))).toNat))

/-- The address in the first answer for a name. -/
def dnsGeta (fuel : Nat) (dname : List UInt8) (p : Packet) : Option UInt32 :=
  (skipQuestions fuel p (htons (get16 p dns_qdcount)).toNat dns_data).bind fun dptr =>
    searchAnswers fuel dname (htons (get16 p dns_ancount)).toNat p dptr

end Net
end BbbXinu
