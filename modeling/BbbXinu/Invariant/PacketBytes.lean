import Mathlib.Tactic.IntervalCases
import BbbXinu.Lib.Positional
import BbbXinu.Net.Packet

/-!
# The bytes of a packet

What the conversions between host and network byte order leave alone, the words of a
packet as the network reads them, and the two checksums as functions of the sum of
these words.
-/

namespace BbbXinu
namespace Net

/-!
## Reading and writing fields
-/

section Fields

variable {p q : Packet} {o i start : Nat} {w : UInt16}

theorem htons_toNat (x : UInt16) : (htons x).toNat = x.toNat / 256 + 256 * (x.toNat % 256) := by
  have hx := x.toNat_lt
  have hhigh : x.toNat >>> 8 &&& 255 = x.toNat / 256 := by
    rw [Nat.shiftRight_eq_div_pow, Nat.and_two_pow_sub_one_eq_mod _ 8]
    exact Nat.mod_eq_of_lt (by omega)
  have hlow : (x.toNat &&& 255) <<< 8 % 2 ^ 16 = (x.toNat % 256) <<< 8 := by
    rw [Nat.and_two_pow_sub_one_eq_mod _ 8, Nat.shiftLeft_eq]
    exact Nat.mod_eq_of_lt (by omega)
  calc (htons x).toNat
      = (x.toNat >>> 8 &&& 255) ||| ((x.toNat &&& 255) <<< 8 % 2 ^ 16) := by simp [htons]
    _ = (x.toNat % 256) <<< 8 ||| x.toNat / 256 := by rw [hhigh, hlow, Nat.or_comm]
    _ = (x.toNat % 256) <<< 8 + x.toNat / 256 :=
        (Nat.shiftLeft_add_eq_or_of_lt (show x.toNat / 256 < 2 ^ 8 by omega) _).symm
    _ = x.toNat / 256 + 256 * (x.toNat % 256) := by rw [Nat.shiftLeft_eq]; omega

theorem get16_toNat : (get16 p o).toNat = (p o).toNat + 256 * (p (o + 1)).toNat := by
  have h1 := (p o).toNat_lt
  have h2 := (p (o + 1)).toNat_lt
  exact Nat.mod_eq_of_lt (by omega)

/-- Exchanging the bytes twice changes nothing. -/
theorem htons_htons (x : UInt16) : htons (htons x) = x := by
  apply UInt16.toNat_inj.mp
  have hx := x.toNat_lt
  rw [htons_toNat, htons_toNat]
  omega

/-- A field exchanged by {lit}`htons` is read in network byte order. -/
theorem htons_get16 : (htons (get16 p o)).toNat = 256 * (p o).toNat + (p (o + 1)).toNat := by
  have h1 := (p o).toNat_lt
  rw [htons_toNat, get16_toNat]
  omega

theorem set16_of_ne (h : i ≠ o) (h1 : i ≠ o + 1) : set16 p o w i = p i := by
  unfold set16
  rw [upd_of_ne h1, upd_of_ne h]

theorem set16_low : (set16 p o w o).toNat = w.toNat % 256 := by
  unfold set16
  rw [upd_of_ne (by omega), upd_self]
  exact Nat.mod_eq_of_lt (by omega)

theorem set16_high : (set16 p o w (o + 1)).toNat = w.toNat / 256 := by
  have h := w.toNat_lt
  unfold set16
  rw [upd_self]
  exact Nat.mod_eq_of_lt (by omega)

theorem set16_set16 {v : UInt16} : set16 (set16 p o w) o v = set16 p o v := by
  funext i
  by_cases h1 : i = o + 1
  · rw [h1]
    exact upd_self.trans upd_self.symm
  · by_cases h : i = o
    · rw [h]
      simp [set16, upd_apply]
    · rw [set16_of_ne h h1, set16_of_ne h h1, set16_of_ne h h1]

/-- A stored field depends on nothing that lies outside it. -/
theorem set16_congr (h : p i = q i) : set16 p o w i = set16 q o w i := by
  simp only [set16, upd_apply, h]

theorem swap16_of_ne (h : i ≠ o) (h1 : i ≠ o + 1) : swap16 o p i = p i := set16_of_ne h h1

theorem set32_of_ne {v : UInt32} (h : i < o ∨ o + 4 ≤ i) : set32 p o v i = p i := by
  unfold set32
  rw [set16_of_ne (by omega) (by omega), set16_of_ne (by omega) (by omega)]

theorem swap32_of_ge (h : o + 4 ≤ i) : swap32 o p i = p i := by
  exact set32_of_ne (Or.inr h)

theorem get16_congr (h : p o = q o) (h1 : p (o + 1) = q (o + 1)) : get16 p o = get16 q o := by
  unfold get16
  rw [h, h1]

theorem get16_set16 : get16 (set16 p o w) o = w := by
  have hlow := set16_low (p := p) (o := o) (w := w)
  have hhigh := set16_high (p := p) (o := o) (w := w)
  apply UInt16.toNat_inj.mp
  rw [get16_toNat, hlow, hhigh]
  omega

theorem get32_set32 {v : UInt32} : get32 (set32 p o v) o = v := by
  have hv := v.toNat_lt
  have hlow : get16 (set32 p o v) o = UInt16.ofNat (v.toNat % 65536) := by
    unfold set32
    rw [get16_congr (set16_of_ne (by omega) (by omega)) (set16_of_ne (by omega) (by omega)),
      get16_set16]
  have hhigh : get16 (set32 p o v) (o + 2) = UInt16.ofNat (v.toNat / 65536) := get16_set16
  have h1 : (UInt16.ofNat (v.toNat % 65536)).toNat = v.toNat % 65536 :=
    Nat.mod_eq_of_lt (by omega)
  have h2 : (UInt16.ofNat (v.toNat / 65536)).toNat = v.toNat / 65536 :=
    Nat.mod_eq_of_lt (by omega)
  unfold get32
  rw [hlow, hhigh, h1, h2]
  apply UInt32.toNat_inj.mp
  exact (Nat.mod_eq_of_lt (by omega)).trans (by omega)

/-- Exchanging the bytes twice changes nothing. -/
theorem htonl_htonl (x : UInt32) : htonl (htonl x) = x := by
  apply UInt32.eq_of_toBitVec_eq
  apply BitVec.eq_of_getLsbD_eq
  intro i hi
  unfold htonl
  interval_cases i <;> simp

theorem get32_congr (h : ∀ i < 4, p (o + i) = q (o + i)) : get32 p o = get32 q o := by
  have hlow : get16 p o = get16 q o := get16_congr (h 0 (by decide)) (h 1 (by decide))
  have hhigh : get16 p (o + 2) = get16 q (o + 2) :=
    get16_congr (h 2 (by decide)) (h 3 (by decide))
  unfold get32
  rw [hlow, hhigh]

/-- Two packets that agree below an offset. -/
def Agree (n : Nat) (p q : Packet) : Prop := ∀ i < n, p i = q i

namespace Agree

variable {n : Nat}

theorem set16 (h : Agree n p q) : Agree n (Net.set16 p o w) (Net.set16 q o w) :=
  fun i hi => set16_congr (h i hi)

theorem swap16 (h : Agree n p q) (ho : o + 2 ≤ n) : Agree n (swap16 o p) (swap16 o q) := by
  unfold Net.swap16
  rw [get16_congr (h o (by omega)) (h (o + 1) (by omega))]
  exact h.set16

theorem swap32 (h : Agree n p q) (ho : o + 4 ≤ n) : Agree n (swap32 o p) (swap32 o q) := by
  unfold Net.swap32
  rw [get32_congr fun i hi => h (o + i) (by omega)]
  exact h.set16.set16

/-- The conversion of an IP header depends on nothing behind it. -/
theorem ipHton (h : Agree net_ictype p q) : Agree net_ictype (ipHton p) (ipHton q) :=
  ((((h.swap16 (by decide)).swap16 (by decide)).swap16 (by decide)).swap32
    (by decide)).swap32 (by decide)

end Agree

theorem ipHton_of_ge (h : net_ictype ≤ i) : ipHton p i = p i := by
  unfold net_ictype at h
  unfold ipHton
  rw [swap32_of_ge (by unfold net_ipdst; omega), swap32_of_ge (by unfold net_ipsrc; omega),
    swap16_of_ne (by unfold net_ipfrag; omega) (by unfold net_ipfrag; omega),
    swap16_of_ne (by unfold net_ipid; omega) (by unfold net_ipid; omega),
    swap16_of_ne (by unfold net_iplen; omega) (by unfold net_iplen; omega)]

/-- What lies before the encapsulated message does not change with it. -/
theorem protoOut_of_lt (h : i < net_ictype) : protoOut p i = p i := by
  unfold net_ictype at h
  have hudp : ∀ r : Packet, udpHton r i = r i := fun r => by
    unfold udpHton
    rw [swap16_of_ne (by unfold net_udplen; omega) (by unfold net_udplen; omega),
      swap16_of_ne (by unfold net_udpdport; omega) (by unfold net_udpdport; omega),
      swap16_of_ne (by unfold net_udpsport; omega) (by unfold net_udpsport; omega)]
  have hicmp : icmpHton p i = p i := by
    unfold icmpHton
    rw [swap16_of_ne (by unfold net_icseq; omega) (by unfold net_icseq; omega),
      swap16_of_ne (by unfold net_icident; omega) (by unfold net_icident; omega),
      swap16_of_ne (by unfold net_iccksum; omega) (by unfold net_iccksum; omega)]
  unfold protoOut
  split
  · rw [hudp, set16_of_ne (by unfold net_udpcksum; omega) (by unfold net_udpcksum; omega)]
  · split
    · rw [set16_of_ne (by unfold net_iccksum; omega) (by unfold net_iccksum; omega),
        set16_of_ne (by unfold net_iccksum; omega) (by unfold net_iccksum; omega), hicmp]
    · rfl

end Fields

/-!
## Words
-/

/-- The 16-bit words of some bytes in network byte order, where an odd last byte is the
high half of a word. -/
def words (p : Packet) (start len : Nat) : List Nat :=
  (List.range ((len + 1) / 2)).map fun i =>
    256 * (p (start + 2 * i)).toNat +
      if 2 * i + 1 < len then (p (start + 2 * i + 1)).toNat else 0

section Words

variable {p q : Packet} {start len n : Nat}

theorem words_lt {w : Nat} (h : w ∈ words p start len) : w < 65536 := by
  obtain ⟨i, -, rfl⟩ := List.mem_map.mp h
  have h1 := (p (start + 2 * i)).toNat_lt
  have h2 := (p (start + 2 * i + 1)).toNat_lt
  split
  · omega
  · omega

theorem words_sum_le (p : Packet) (start len : Nat) :
    (words p start len).sum ≤ ((len + 1) / 2) * 65535 := by
  have h := List.sum_le_card_nsmul (words p start len) 65535 fun w hw =>
    Nat.le_of_lt_succ (words_lt hw)
  rw [words, List.length_map, List.length_range] at h
  exact h

/-- The words depend on their own bytes only. -/
theorem words_congr (h : ∀ i, start ≤ i → i < start + len → p i = q i) :
    words p start len = words q start len := by
  refine List.map_congr_left fun i hi => ?_
  have hi' := List.mem_range.mp hi
  rw [h (start + 2 * i) (by omega) (by omega)]
  by_cases hlast : 2 * i + 1 < len
  · rw [if_pos hlast, if_pos hlast, h (start + 2 * i + 1) (by omega) (by omega)]
  · rw [if_neg hlast, if_neg hlast]

/-- The words of an odd number of bytes: the last one is half empty. -/
theorem words_odd (p : Packet) (start n : Nat) : (words p start (2 * n + 1)).sum =
    (words p start (2 * n)).sum + 256 * (p (start + 2 * n)).toNat := by
  have hlen : (2 * n + 1 + 1) / 2 = n + 1 := by omega
  have hlen' : (2 * n + 1) / 2 = n := by omega
  have hinit : ∀ i ∈ List.range n, (256 * (p (start + 2 * i)).toNat +
      if 2 * i + 1 < 2 * n + 1 then (p (start + 2 * i + 1)).toNat else 0) =
      256 * (p (start + 2 * i)).toNat +
        if 2 * i + 1 < 2 * n then (p (start + 2 * i + 1)).toNat else 0 := fun i hi => by
    have := List.mem_range.mp hi
    rw [if_pos (by omega), if_pos (by omega)]
  unfold words
  rw [hlen, hlen', List.range_succ, List.map_append, List.map_congr_left hinit, List.sum_append]
  congr 1
  simp

/-- The sum that the two routines form, as long as it does not overflow. -/
theorem wordSum_toNat (hn : n ≤ 65536) :
    (wordSum p start n).toNat = (words p start (2 * n)).sum := by
  induction n with
  | zero => rfl
  | succ n ih =>
      have hstep : wordSum p start (n + 1) =
          wordSum p start n + (htons (get16 p (start + 2 * n))).toUInt32 := by
        unfold wordSum
        rw [List.range_succ, List.foldl_append]
        rfl
      have hlen : (2 * (n + 1) + 1) / 2 = n + 1 := by omega
      have hlen' : (2 * n + 1) / 2 = n := by omega
      have hwords : (words p start (2 * (n + 1))).sum = (words p start (2 * n)).sum +
          (256 * (p (start + 2 * n)).toNat + (p (start + 2 * n + 1)).toNat) := by
        unfold words
        rw [hlen, hlen', List.range_succ, List.map_append, List.sum_append]
        congr 1
        · refine congrArg List.sum (List.map_congr_left fun i hi => ?_)
          have := List.mem_range.mp hi
          rw [if_pos (by omega), if_pos (by omega)]
        · simp [show 2 * n + 1 < 2 * (n + 1) by omega]
      have hle := words_sum_le p start (2 * (n + 1))
      rw [hstep, UInt32.toNat_add, ih (by omega), UInt16.toNat_toUInt32, htons_get16, hwords]
      exact Nat.mod_eq_of_lt (by omega)

/-- Replacing one whole word of a range changes the sum by this word. -/
theorem words_sum_set {k c : Nat} (hk : 2 * k + 1 < len) (hc : c < 65536) :
    (words (set16 p (start + 2 * k) (htons (UInt16.ofNat c))) start len).sum =
      (words (set16 p (start + 2 * k) 0) start len).sum + c := by
  have hto : (UInt16.ofNat c).toNat = c := Nat.mod_eq_of_lt (by omega)
  have hone : ∀ n, ((List.range n).map fun i => if i = k then c else 0).sum =
      if k < n then c else 0 := by
    intro n
    induction n with
    | zero => rfl
    | succ n ih =>
        rw [List.range_succ, List.map_append, List.sum_append, ih]
        by_cases h : n = k
        · simp [h]
        · by_cases h' : k < n
          · simp [h, h', show k < n + 1 by omega]
          · simp [h, h', show ¬k < n + 1 by omega]
  have hadd := hone ((len + 1) / 2)
  rw [if_pos (by omega)] at hadd
  refine Eq.trans ?_ (congrArg _ hadd)
  unfold words
  rw [← List.sum_map_add]
  refine congrArg List.sum (List.map_congr_left fun i hi => ?_)
  by_cases h : i = k
  · rw [h, if_pos hk, if_pos hk, if_pos rfl, set16_low, set16_low, set16_high, set16_high,
      htons_toNat, hto]
    change _ = 256 * 0 + 0 + c
    omega
  · rw [if_neg h, set16_of_ne (by omega) (by omega), set16_of_ne (by omega) (by omega),
      set16_of_ne (by omega) (by omega), set16_of_ne (by omega) (by omega)]
    rfl

end Words

/-!
## The two checksums
-/

/-- The sum of some words with the carries added in once, and the rest forgotten. -/
def foldOnce (n : Nat) : Nat := (n + n / 65536) % 65536

section Checksums

variable {p : Packet} {start len n : Nat}

theorem foldOnce_lt (n : Nat) : foldOnce n < 65536 := Nat.mod_lt _ (by decide)

theorem complement_low (c : UInt32) :
    ((~~~c) &&& (0xffff : UInt32)).toNat = 65535 - c.toNat % 65536 := by
  have hc := c.toNat_lt
  have hand : (UInt32.size - 1 - c.toNat) &&& 65535 = (UInt32.size - 1 - c.toNat) % 65536 :=
    Nat.and_two_pow_sub_one_eq_mod _ 16
  rw [UInt32.toNat_and, UInt32.toNat_not]
  refine hand.trans ?_
  unfold UInt32.size
  omega

theorem add_carries {c : UInt32} (h : c.toNat < 4294901760) :
    (c + (c >>> 16)).toNat = c.toNat + c.toNat / 65536 := by
  have hshift : (c >>> 16).toNat = c.toNat / 65536 := by
    rw [UInt32.toNat_shiftRight]
    exact Nat.shiftRight_eq_div_pow _ 16
  rw [UInt32.toNat_add, hshift]
  exact Nat.mod_eq_of_lt (by omega)

/-- The end of both routines. -/
theorem complement_carries {c : UInt32} (h : c.toNat < 4294901760) :
    ((~~~(c + (c >>> 16))) &&& (0xffff : UInt32)).toNat = 65535 - foldOnce c.toNat := by
  rw [complement_low, add_carries h]
  rfl

/-- The low half of a word, as it is returned. -/
theorem low_half {c : UInt32} {v : Nat} (hc : c.toNat = v) (h : v < 65536) :
    (c &&& (0xffff : UInt32)).toUInt16.toNat = v := by
  have hand : c.toNat &&& 65535 = c.toNat % 65536 := Nat.and_two_pow_sub_one_eq_mod _ 16
  rw [UInt32.toNat_toUInt16, UInt32.toNat_and]
  refine (congrArg (· % 2 ^ 16) hand).trans ?_
  omega

/-- The end of {lit}`ipcksum`: 0 stands for all ones. -/
theorem zero_for_ones {z : UInt32} {v : Nat} (hz : z.toNat = 65535 - v) (hv : v < 65536) :
    ((if z = (0xffff : UInt32) then 0 else z) &&& (0xffff : UInt32)).toUInt16.toNat =
      if v = 0 then 0 else 65535 - v := by
  by_cases h0 : v = 0
  · rw [h0] at hz
    rw [if_pos h0, if_pos (UInt32.toNat_inj.mp hz)]
    rfl
  · have hne : z ≠ (0xffff : UInt32) := fun heq => by
      rw [heq] at hz
      change 65535 = _ at hz
      omega
    rw [if_neg h0, if_neg hne]
    exact low_half hz (by omega)

/-- {lit}`ipcksum` adds in the carries once, and returns 0 for all ones. -/
theorem ipcksum_toNat (p : Packet) : (ipcksum p).toNat =
    if foldOnce (words p net_ipvh 20).sum = 0 then 0
    else 65535 - foldOnce (words p net_ipvh 20).sum := by
  have hle := words_sum_le p net_ipvh 20
  have hsum : (wordSum p net_ipvh 10).toNat = (words p net_ipvh 20).sum :=
    wordSum_toNat (by decide)
  have hc := complement_carries (c := wordSum p net_ipvh 10) (by omega)
  rw [hsum] at hc
  exact zero_for_ones hc (foldOnce_lt _)

/-- {lit}`icmp_cksum` adds in the carries once. -/
theorem icmpCksum_toNat (p : Packet) (start : Nat) (h : len ≤ 131068) :
    (icmpCksum p start len).toNat = 65535 - foldOnce (words p start len).sum := by
  have hle := words_sum_le p start len
  have hbyte := (p (start + 2 * (len / 2))).toNat_lt
  have hcount : ((len : Int) / 2).toNat = len / 2 := by omega
  have hsum : (if (len : Int) % 2 ≠ 0 then
      wordSum p start (len / 2) + ((p (start + 2 * (len / 2))).toUInt32 <<< 8)
      else wordSum p start (len / 2)).toNat = (words p start len).sum := by
    have heven : (wordSum p start (len / 2)).toNat = (words p start (2 * (len / 2))).sum :=
      wordSum_toNat (by omega)
    have hle' := words_sum_le p start (2 * (len / 2))
    rcases Nat.mod_two_eq_zero_or_one len with h2 | h2
    · rw [if_neg (by omega), heven, show 2 * (len / 2) = len by omega]
    · have hodd := words_odd p start (len / 2)
      have hshift : ((p (start + 2 * (len / 2))).toUInt32 <<< 8).toNat =
          256 * (p (start + 2 * (len / 2))).toNat := by
        rw [UInt32.toNat_shiftLeft, UInt8.toNat_toUInt32]
        change (p (start + 2 * (len / 2))).toNat <<< 8 % 2 ^ 32 = _
        rw [Nat.shiftLeft_eq]
        omega
      rw [show 2 * (len / 2) + 1 = len by omega] at hodd
      rw [if_pos (by omega), UInt32.toNat_add, heven, hshift, hodd]
      exact Nat.mod_eq_of_lt (by omega)
  unfold icmpCksum
  rw [hcount]
  exact low_half ((complement_carries (by omega)).trans (by rw [hsum])) (by omega)

end Checksums

end Net
end BbbXinu
