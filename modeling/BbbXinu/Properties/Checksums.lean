import BbbXinu.Invariant.PacketBytes

/-!
# Internet checksums

{lit}`ipcksum` and {lit}`icmp_cksum` add the carries of the 32-bit sum to its low half
once.  When that addition has a carry of its own it is lost, and the checksum is wrong.
The theorem of this module says that this is the only thing that goes wrong, but for
the header of nothing but zeros.
-/

namespace BbbXinu
namespace Net

open OnesComplement (checksum fold)

/-- What a verifier asks of a range of bytes: their words add up to all ones. -/
def Verified (p : Packet) (start len : Nat) : Prop :=
  OnesComplement.sum (words p start len) = 65535

instance (p : Packet) (start len : Nat) : Decidable (Verified p start len) :=
  inferInstanceAs (Decidable (_ = _))

/-- One addition of the carries of a sum leaves no further carry. -/
def FoldsOnce (n : Nat) : Prop := n % 65536 + n / 65536 < 65536

instance (n : Nat) : Decidable (FoldsOnce n) := inferInstanceAs (Decidable (_ < _))

/-- The IP header of a packet in network byte order, before it has a checksum. -/
def bareHeader (p : Packet) : Packet := set16 (ipHton p) net_ipcksum 0

/-- The ICMP message of a packet in network byte order, before it has a checksum. -/
def bareMessage (p : Packet) : Packet := set16 (icmpHton p) net_iccksum 0

/-!
## The checksums as numbers
-/

section Numbers

variable {p q : Packet} {start len n c : Nat}

theorem verified_iff : Verified p start len ↔ fold (words p start len).sum = 65535 := by
  unfold Verified
  rw [OnesComplement.sum_eq fun w => words_lt]

theorem checksum_words :
    checksum (words p start len) = 65535 - fold (words p start len).sum := by
  unfold OnesComplement.checksum
  rw [OnesComplement.sum_eq fun w => words_lt]

theorem foldOnce_of_once (h : FoldsOnce n) : foldOnce n = fold n := by
  have h' : n % 65536 + n / 65536 < 65536 := h
  rw [OnesComplement.fold_eq_of_no_carry h]
  unfold foldOnce
  omega

theorem foldOnce_of_carry (h : ¬FoldsOnce n) (hn : n / 65536 < 65536) :
    foldOnce n = n % 65536 + n / 65536 - 65536 := by
  have h' : ¬n % 65536 + n / 65536 < 65536 := h
  unfold foldOnce
  omega

theorem fold_of_carry (h : ¬FoldsOnce n) (hn : n / 65536 < 65536) :
    fold n = n % 65536 + n / 65536 - 65535 :=
  OnesComplement.fold_eq_of_carry (by unfold FoldsOnce at h; omega) hn

/-- The checksum of {lit}`icmp_cksum` is the right one exactly when no carry is lost. -/
theorem complement_right_iff (hn : n / 65536 < 65536) :
    65535 - foldOnce n = 65535 - fold n ↔ FoldsOnce n := by
  constructor
  · intro heq
    by_contra h
    have hlt := OnesComplement.fold_lt n
    rw [foldOnce_of_carry h (by omega), fold_of_carry h hn] at heq
    unfold FoldsOnce at h
    omega
  · intro h
    rw [foldOnce_of_once h]

/-- With its checksum a sum is a multiple of 65535, if no carry is lost. -/
theorem filled_of_once (h : FoldsOnce n) :
    n + (65535 - foldOnce n) = 65535 * (n / 65536 + 1) := by
  have h' : n % 65536 + n / 65536 < 65536 := h
  rw [foldOnce_of_once h, OnesComplement.fold_eq_of_no_carry h]
  omega

/-- With a lost carry it is one more than that. -/
theorem filled_of_carry (h : ¬FoldsOnce n) (hn : n / 65536 < 65536) :
    n + (65535 - foldOnce n) = 65535 * (n / 65536 + 2) + 1 := by
  have h' : ¬n % 65536 + n / 65536 < 65536 := h
  rw [foldOnce_of_carry h hn]
  omega

/-- A range with its checksum filled in verifies exactly when no carry is lost. -/
theorem filled_right_iff (hn : n / 65536 < 65536) :
    fold (n + (65535 - foldOnce n)) = 65535 ↔ FoldsOnce n := by
  rw [OnesComplement.fold_eq_ones]
  by_cases h : FoldsOnce n
  · rw [filled_of_once h]
    exact iff_of_true ⟨Nat.mul_mod_right _ _, by omega⟩ h
  · rw [filled_of_carry h hn]
    exact iff_of_false (fun hok => by omega) h

/-- As {lit}`complement_right_iff`, for a checksum that is 0 in place of all ones. -/
theorem zero_right_iff (hn : n / 65536 < 65536) :
    ((if foldOnce n = 0 then 0 else 65535 - foldOnce n) = 65535 - fold n ↔
      FoldsOnce n ∧ n ≠ 0) := by
  have hlt := OnesComplement.fold_lt n
  by_cases h : FoldsOnce n
  · have hzero := OnesComplement.fold_eq_zero (n := n)
    rw [foldOnce_of_once h]
    split
    · omega
    · exact ⟨fun _ => ⟨h, fun h0 => by omega⟩, fun _ => rfl⟩
  · have hcarry : ¬n % 65536 + n / 65536 < 65536 := h
    rw [foldOnce_of_carry h (by omega), fold_of_carry h hn]
    refine iff_of_false ?_ fun hok => h hok.1
    split
    · omega
    · omega

/-- As {lit}`filled_right_iff`, for a checksum that is 0 in place of all ones. -/
theorem zero_filled_right_iff (hn : n / 65536 < 65536) :
    fold (n + if foldOnce n = 0 then 0 else 65535 - foldOnce n) = 65535 ↔
      FoldsOnce n ∧ n ≠ 0 := by
  by_cases h0 : foldOnce n = 0
  · have hzero := OnesComplement.fold_eq_zero (n := n)
    rw [if_pos h0, Nat.add_zero]
    by_cases h : FoldsOnce n
    · rw [foldOnce_of_once h] at h0
      exact iff_of_false (by omega) fun hok => hok.2 (hzero.mp h0)
    · have hcarry : ¬n % 65536 + n / 65536 < 65536 := h
      rw [foldOnce_of_carry h hn] at h0
      rw [fold_of_carry h hn]
      exact iff_of_false (by omega) fun hok => h hok.1
  · rw [if_neg h0, filled_right_iff hn]
    refine ⟨fun h => ⟨h, fun hn0 => h0 ?_⟩, fun h => h.1⟩
    rw [hn0]
    rfl

/-- {lit}`ipcksum` tells right headers from wrong ones but for two kinds of sums. -/
theorem zero_test_iff (hn : n / 65536 < 65535) :
    (((if foldOnce n = 0 then 0 else 65535 - foldOnce n) ≠ 0 ↔ fold n ≠ 65535) ↔
      n % 65536 + n / 65536 ≠ 65536 ∧ n ≠ 0) := by
  have hlt := OnesComplement.fold_lt n
  by_cases h : FoldsOnce n
  · have hzero := OnesComplement.fold_eq_zero (n := n)
    have h' : n % 65536 + n / 65536 < 65536 := h
    rw [foldOnce_of_once h]
    split
    · omega
    · omega
  · have hcarry : ¬n % 65536 + n / 65536 < 65536 := h
    rw [foldOnce_of_carry h (by omega), fold_of_carry h (by omega)]
    split
    · omega
    · omega

end Numbers

/-!
## What is sent
-/

section Sent

variable (p : Packet)

/-- The header that is sent is the bare one with the checksum filled in. -/
theorem ipOut_header : (words (ipOut p).1 net_ipvh 20).sum =
    (words (bareHeader p) net_ipvh 20).sum +
      if foldOnce (words (bareHeader p) net_ipvh 20).sum = 0 then 0
      else 65535 - foldOnce (words (bareHeader p) net_ipvh 20).sum := by
  obtain ⟨q, hq⟩ : ∃ q, q = set16 (ipHton (protoOut p)) net_ipcksum 0 := ⟨_, rfl⟩
  have hagree : Agree net_ictype q (bareHeader p) := by
    rw [hq]
    exact (Agree.ipHton fun i hi => protoOut_of_lt hi).set16
  have hwords : words q net_ipvh 20 = words (bareHeader p) net_ipvh 20 :=
    words_congr fun i _ hi => hagree i hi
  have heth : words (ipOut p).1 net_ipvh 20 =
      words (set16 q net_ipcksum (htons (ipcksum q))) net_ipvh 20 := by
    rw [hq]
    exact words_congr fun i hi _ => swap16_of_ne (by unfold net_ipvh net_ethtype at *; omega)
      (by unfold net_ipvh net_ethtype at *; omega)
  have hzero : set16 q net_ipcksum 0 = q := by
    rw [hq]
    exact set16_set16
  have hset : (words (set16 q net_ipcksum (htons (UInt16.ofNat (ipcksum q).toNat)))
      net_ipvh 20).sum = (words (set16 q net_ipcksum 0) net_ipvh 20).sum + (ipcksum q).toNat :=
    words_sum_set (k := 5) (by decide) (ipcksum q).toNat_lt
  rw [heth, ← hwords, ← ipcksum_toNat]
  rwa [UInt16.ofNat_toNat, hzero] at hset

/-- The encapsulated ICMP message with its checksum. -/
theorem protoOut_icmp {len : Nat} (hproto : p net_ipproto = IP_ICMP)
    (hlen : (get16 p net_iplen).toNat = IP_HDR_LEN + len) :
    protoOut p = set16 (bareMessage p) net_iccksum
      (htons (icmpCksum (bareMessage p) net_ictype len)) := by
  have hsame : get16 (bareMessage p) net_iplen = get16 p net_iplen := rfl
  have hint : ((get16 p net_iplen).toNat : Int) - (IP_HDR_LEN : Nat) = len := by omega
  unfold protoOut
  rw [if_neg (by rw [hproto]; decide), if_pos hproto]
  change set16 (bareMessage p) net_iccksum (htons (icmpCksum (bareMessage p) net_ictype
    ((get16 (bareMessage p) net_iplen).toNat - (IP_HDR_LEN : Nat)))) = _
  rw [hsame, hint]

/-- The message that is sent is the bare one with the checksum filled in. -/
theorem ipOut_message {len : Nat} (hproto : p net_ipproto = IP_ICMP)
    (hlen : (get16 p net_iplen).toNat = IP_HDR_LEN + len) (h8 : ICMP_HDR_LEN ≤ len) :
    (words (ipOut p).1 net_ictype len).sum = (words (bareMessage p) net_ictype len).sum +
      (65535 - foldOnce (words (bareMessage p) net_ictype len).sum) := by
  have hlt := (get16 p net_iplen).toNat_lt
  have hbehind : words (ipOut p).1 net_ictype len = words (protoOut p) net_ictype len := by
    refine words_congr fun i hi _ => ?_
    change swap16 net_ethtype (set16 (set16 (ipHton (protoOut p)) net_ipcksum 0) net_ipcksum _) i
      = protoOut p i
    have hi' : 34 ≤ i := hi
    rw [swap16_of_ne (by unfold net_ethtype; omega) (by unfold net_ethtype; omega),
      set16_set16, set16_of_ne (by unfold net_ipcksum; omega) (by unfold net_ipcksum; omega),
      ipHton_of_ge hi]
  have hzero : set16 (bareMessage p) net_iccksum 0 = bareMessage p := set16_set16
  have hset : (words (set16 (bareMessage p) net_iccksum (htons (UInt16.ofNat
      (icmpCksum (bareMessage p) net_ictype len).toNat))) net_ictype len).sum =
      (words (set16 (bareMessage p) net_iccksum 0) net_ictype len).sum +
        (icmpCksum (bareMessage p) net_ictype len).toNat :=
    words_sum_set (k := 1) (by unfold ICMP_HDR_LEN at h8; omega)
      (icmpCksum (bareMessage p) net_ictype len).toNat_lt
  rw [UInt16.ofNat_toNat, hzero] at hset
  rw [hbehind, protoOut_icmp p hproto hlen, hset, icmpCksum_toNat _ _ (by omega)]

theorem ipIn_bad_iff (net : Network) : ipIn net p = .badCksum ↔ ipcksum p ≠ 0 := by
  constructor
  · intro hdrop h0
    have hlocal : ∀ r, ipLocal r ≠ .badCksum := fun r => by
      unfold ipLocal
      split
      · exact nofun
      · split
        · exact nofun
        · exact nofun
    have hdeliver : ∀ r, ipDeliver net r ≠ .badCksum := fun r => by
      unfold ipDeliver
      split
      · exact hlocal r
      · split
        · split
          · exact hlocal r
          · exact nofun
        · split
          · exact hlocal r
          · exact nofun
    unfold ipIn at hdrop
    rw [if_neg (not_not.mpr h0)] at hdrop
    simp only at hdrop
    split at hdrop
    · cases hdrop
    · split at hdrop
      · exact hdeliver _ hdrop
      · split at hdrop
        · split at hdrop
          · cases hdrop
          · exact hdeliver _ hdrop
        · exact hdeliver _ hdrop
  · intro h
    unfold ipIn
    rw [if_pos h]

end Sent

/-!
## When the checksums are right
-/

/-- Both routines compute the ones-complement checksum, what is sent verifies, and a header
is refused when it is wrong, exactly as far as no carry is lost; and a header of zeros is
not taken for what it is. -/
theorem checksums_right_iff (p : Packet) :
    ((ipcksum p).toNat = checksum (words p net_ipvh 20) ↔
      FoldsOnce (words p net_ipvh 20).sum ∧ (words p net_ipvh 20).sum ≠ 0) ∧
    (∀ start len : Nat, len ≤ 65535 →
      ((icmpCksum p start len).toNat = checksum (words p start len) ↔
        FoldsOnce (words p start len).sum)) ∧
    (Verified (ipOut p).1 net_ipvh 20 ↔
      FoldsOnce (words (bareHeader p) net_ipvh 20).sum ∧
        (words (bareHeader p) net_ipvh 20).sum ≠ 0) ∧
    (∀ len, p net_ipproto = IP_ICMP → (get16 p net_iplen).toNat = IP_HDR_LEN + len →
      ICMP_HDR_LEN ≤ len →
      (Verified (ipOut p).1 net_ictype len ↔
        FoldsOnce (words (bareMessage p) net_ictype len).sum)) ∧
    ∀ net, ((ipIn net p = .badCksum ↔ ¬Verified p net_ipvh 20) ↔
      (words p net_ipvh 20).sum % 65536 + (words p net_ipvh 20).sum / 65536 ≠ 65536 ∧
        (words p net_ipvh 20).sum ≠ 0) := by
  have hle := words_sum_le p net_ipvh 20
  refine ⟨?_, fun start len hlen => ?_, ?_, fun len hproto hiplen h8 => ?_, fun net => ?_⟩
  · rw [ipcksum_toNat, checksum_words]
    exact zero_right_iff (by omega)
  · have hle' := words_sum_le p start len
    rw [icmpCksum_toNat p start (by omega), checksum_words]
    exact complement_right_iff (by omega)
  · have hle' := words_sum_le (bareHeader p) net_ipvh 20
    rw [verified_iff, ipOut_header]
    exact zero_filled_right_iff (by omega)
  · have hlt := (get16 p net_iplen).toNat_lt
    have hle' := words_sum_le (bareMessage p) net_ictype len
    rw [verified_iff, ipOut_message p hproto hiplen h8]
    exact filled_right_iff (by omega)
  · have hzero : ipcksum p ≠ 0 ↔ (ipcksum p).toNat ≠ 0 :=
      not_congr UInt16.toNat_inj.symm
    rw [ipIn_bad_iff, hzero, verified_iff, ipcksum_toNat]
    exact zero_test_iff (by omega)

/-- The header and the ICMP header of an echo request without data, as {lit}`icmp_mkpkt`
leaves them, with a given IDENT and sequence number. -/
def echoRequest (ipid icseq : UInt16) : Packet :=
  let bytes : List UInt8 := [0, 0, 0, 0, 0, 0, 0, 0, 0, 0, 0, 0, 0, 8, 0x45, 0, 28, 0,
    UInt8.ofNat (ipid.toNat % 256), UInt8.ofNat (ipid.toNat / 256), 0, 0, 0xff, 1, 0, 0,
    1, 0, 0, 10, 2, 0, 0, 10, 8, 0, 0, 0, 1, 0,
    UInt8.ofNat (icseq.toNat % 256), UInt8.ofNat (icseq.toNat / 256)]
  fun i => bytes.getD i 0

/-- The first request verifies, in both of its checksums. -/
theorem checksums_right_iff_request :
    Verified (ipOut (echoRequest 32767 1)).1 net_ipvh 20 ∧
      Verified (ipOut (echoRequest 32767 1)).1 net_ictype 8 :=
  ⟨(checksums_right_iff (echoRequest 32767 1)).2.2.1.mpr (by decide +kernel),
    ((checksums_right_iff (echoRequest 32767 1)).2.2.2.1 8 (by decide +kernel)
      (by decide +kernel) (by decide)).mpr (by decide +kernel)⟩

/-- The request with this IDENT is sent with a wrong header checksum. -/
theorem checksum_lost_carry :
    (words (bareHeader (echoRequest 42975 1)) net_ipvh 20).sum = 0x1ffff ∧
      (ipcksum (bareHeader (echoRequest 42975 1))).toNat = 0 ∧
      checksum (words (bareHeader (echoRequest 42975 1)) net_ipvh 20) = 65534 ∧
      ¬Verified (ipOut (echoRequest 42975 1)).1 net_ipvh 20 := by
  decide +kernel

end Net
end BbbXinu
