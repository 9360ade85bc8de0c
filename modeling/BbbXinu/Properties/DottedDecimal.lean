import BbbXinu.Lib.CStrings
import BbbXinu.Net.Packet

/-!
# Addresses in dotted decimal

{lit}`dot2ip` leaves its loop at the end of the string, whichever segment ends there, and
takes that for success.  So it accepts one, two and three segments like four.
-/

namespace BbbXinu
namespace Net

open CStrings

/-!
## What is accepted
-/

def segmentValue (seg : List UInt8) : Nat := seg.foldl (fun v ch => 10 * v + (ch.toNat - 48)) 0

def Digits (seg : List UInt8) : Prop := ∀ ch ∈ seg, 48 ≤ ch ∧ ch ≤ 57

instance (seg : List UInt8) : Decidable (Digits seg) := List.decidableBAll _ seg

/-- One to three digits that stand for at most 255. -/
structure IsSegment (seg : List UInt8) : Prop where
  nonempty : seg ≠ []
  short : seg.length ≤ 3
  digits : Digits seg
  range : segmentValue seg ≤ 255

instance (seg : List UInt8) : Decidable (IsSegment seg) :=
  decidable_of_iff (seg ≠ [] ∧ seg.length ≤ 3 ∧ Digits seg ∧ segmentValue seg ≤ 255)
    ⟨fun ⟨a, b, c, d⟩ => ⟨a, b, c, d⟩, fun ⟨a, b, c, d⟩ => ⟨a, b, c, d⟩⟩

/-- The string consists of that many segments. -/
def IsDotted (n : Nat) (s : List UInt8) : Prop :=
  (s.splitOn DOT).length = n ∧ ∀ seg ∈ s.splitOn DOT, IsSegment seg

instance (n : Nat) (s : List UInt8) : Decidable (IsDotted n s) :=
  inferInstanceAs (Decidable (_ ∧ _))

/-- The number that segments stand for, the first one most significant. -/
def dottedValue (segs : List (List UInt8)) : Nat :=
  segs.foldl (fun v seg => 256 * v + segmentValue seg) 0

/-- Four segments are accepted and their value is stored, and nothing else is. -/
def ReadsDotted (s : List UInt8) (result : UInt32) (r : Int × UInt32) : Prop :=
  if IsDotted 4 s then r.1 = OK ∧ r.2.toNat = dottedValue (s.splitOn DOT)
  else r = (SYSERR, result)

section

variable {s t seg rest : List UInt8} {segs : List (List UInt8)} {ch : UInt8} {n nch val k : Nat}
  {ipaddr result : UInt32}

/-!
## One segment
-/

/-- The characters up to the end of a segment, where {lit}`rest` is read as that end. -/
theorem dotSegment_append (hseg : ∀ c ∈ seg, c ≠ 0 ∧ c ≠ DOT)
    (hrest : ∀ nch val, dotSegment nch val rest =
      if nch = 0 then none else some (val, ch, t)) (hn : nch ≤ 3) :
    dotSegment nch val (seg ++ rest) =
      if nch + seg.length ≠ 0 ∧ nch + seg.length ≤ 3 ∧ Digits seg then
        some (seg.foldl (fun v c => 10 * v + (c.toNat - 48)) val, ch, t)
      else none := by
  induction seg generalizing nch val with
  | nil =>
      rw [List.nil_append, hrest]
      by_cases hzero : nch = 0
      · rw [if_pos hzero, if_neg fun h => h.1 (by simpa using hzero)]
      · rw [if_neg hzero, if_pos ⟨by simpa using hzero, by simpa using hn, fun c hc => (nomatch hc)⟩]
        rfl
  | cons c seg ih =>
      have hc := hseg c List.mem_cons_self
      rw [List.cons_append]
      unfold dotSegment
      rw [if_neg (not_or.mpr hc), List.length_cons]
      by_cases hbad : 3 ≤ nch ∨ c < 48 ∨ 57 < c
      · rw [if_pos hbad, if_neg]
        rintro ⟨_, hshort, hdigits⟩
        have hdigit := hdigits c List.mem_cons_self
        rcases hbad with hlong | hlow | hhigh
        · omega
        · exact absurd hdigit.1 (UInt8.not_le.mpr hlow)
        · exact absurd hdigit.2 (UInt8.not_le.mpr hhigh)
      · rw [not_or, not_or, Nat.not_le, UInt8.not_lt, UInt8.not_lt] at hbad
        rw [if_neg (by rw [not_or, not_or, Nat.not_le, UInt8.not_lt, UInt8.not_lt]; exact hbad),
          ih (fun c' hc' => hseg c' (List.mem_cons_of_mem c hc')) (by omega)]
        apply if_congr
        · have hcons : Digits (c :: seg) ↔ (48 ≤ c ∧ c ≤ 57) ∧ Digits seg := List.forall_mem_cons
          rw [hcons]
          constructor
          · rintro ⟨_, hshort, hdigits⟩
            exact ⟨by omega, by omega, hbad.2, hdigits⟩
          · rintro ⟨_, hshort, _, hdigits⟩
            exact ⟨by omega, by omega, hdigits⟩
        · rfl
        · rfl

/-- A segment at its end, when the loop has taken what it accepts. -/
theorem dotSegment_whole (ch : UInt8) (t : List UInt8) (hseg : ∀ c ∈ seg, c ≠ 0 ∧ c ≠ DOT)
    (hrest : ∀ nch val, dotSegment nch val rest =
      if nch = 0 then none else some (val, ch, t)) :
    ((dotSegment 0 0 (seg ++ rest)).filter fun r => r.1 ≤ 255) =
      if IsSegment seg then some (segmentValue seg, ch, t) else none := by
  rw [dotSegment_append hseg hrest (Nat.zero_le 3), Nat.zero_add]
  have hiff : IsSegment seg ↔ (seg.length ≠ 0 ∧ seg.length ≤ 3 ∧ Digits seg) ∧
      segmentValue seg ≤ 255 := by
    constructor
    · intro h
      exact ⟨⟨fun hzero => h.nonempty (List.length_eq_zero_iff.mp hzero), h.short, h.digits⟩,
        h.range⟩
    · rintro ⟨⟨hne, hshort, hdigits⟩, hrange⟩
      exact ⟨fun hnil => hne (List.length_eq_zero_iff.mpr hnil), hshort, hdigits, hrange⟩
  rw [if_congr hiff rfl rfl]
  split
  · rename_i h
    by_cases hrange : segmentValue seg ≤ 255
    · rw [if_pos ⟨h, hrange⟩, Option.filter_some]
      exact if_pos (decide_eq_true hrange)
    · rw [if_neg fun hall => hrange hall.2, Option.filter_some]
      exact if_neg fun h => hrange (of_decide_eq_true h)
  · rename_i h
    rw [if_neg fun hall => h hall.1]
    rfl

theorem dotSegments_succ (n : Nat) (ipaddr : UInt32) (s : List UInt8) :
    dotSegments (n + 1) ipaddr s =
      ((dotSegment 0 0 s).filter fun r => r.1 ≤ 255).bind fun r =>
        if r.2.1 = 0 then some ((ipaddr <<< 8) ||| UInt32.ofNat r.1)
        else dotSegments n ((ipaddr <<< 8) ||| UInt32.ofNat r.1) r.2.2 := by
  rw [dotSegments]
  cases dotSegment 0 0 s with
  | none => rfl
  | some r =>
      rcases r with ⟨val, ch, rest⟩
      have hfilter : (some (val, ch, rest)).filter (fun r => r.1 ≤ 255) =
          if val ≤ 255 then some (val, ch, rest) else none := by
        rw [Option.filter_some]
        exact if_congr decide_eq_true_iff rfl rfl
      rw [hfilter]
      dsimp only
      by_cases hrange : val ≤ 255
      · rw [if_neg (Nat.not_lt.mpr hrange), if_pos hrange]
        rfl
      · rw [if_pos (Nat.lt_of_not_le hrange), if_neg hrange]
        rfl

/-!
## The whole string
-/

/-- The loops compute the value with shifts. -/
def shifted (ipaddr : UInt32) (segs : List (List UInt8)) : UInt32 :=
  segs.foldl (fun ip seg => (ip <<< 8) ||| UInt32.ofNat (segmentValue seg)) ipaddr

theorem dotSegments_eq (hnull : 0 ∉ s) :
    dotSegments n ipaddr s =
      if (s.splitOn DOT).length ≤ n ∧ ∀ seg ∈ s.splitOn DOT, IsSegment seg then
        some (shifted ipaddr (s.splitOn DOT))
      else none := by
  induction n generalizing ipaddr s with
  | zero =>
      have hne := List.length_pos_iff.mpr (List.splitOn_ne_nil DOT s)
      rw [if_neg fun h => absurd h.1 (by omega)]
      rfl
  | succ n ih =>
      rw [dotSegments_succ]
      by_cases hdot : DOT ∈ s
      · rcases List.eq_append_cons_of_mem hdot with ⟨seg, t, rfl, hseg⟩
        have hchars : ∀ c ∈ seg, c ≠ 0 ∧ c ≠ DOT := by
          intro c hc
          exact ⟨fun h => hnull (h ▸ List.mem_append_left _ hc), fun h => hseg (h ▸ hc)⟩
        have htail : 0 ∉ t := fun h => hnull (List.mem_append_right _ (List.mem_cons_of_mem _ h))
        have hall := List.forall_mem_cons (p := IsSegment) (a := seg) (l := t.splitOn DOT)
        rw [dotSegment_whole DOT t hchars fun _ _ => rfl,
          List.splitOn_append_cons_self_of_not_mem hseg, List.length_cons]
        by_cases hgood : IsSegment seg
        · have hdot : ¬ DOT = 0 := by decide
          rw [if_pos hgood, Option.bind_some, if_neg hdot, ih htail]
          apply if_congr
          · rw [Nat.add_le_add_iff_right, hall]
            exact and_congr_right fun _ => (and_iff_right hgood).symm
          · rfl
          · rfl
        · rw [if_neg hgood, if_neg fun h => hgood (hall.mp h.2).1]
          rfl
      · have hchars : ∀ c ∈ s, c ≠ 0 ∧ c ≠ DOT :=
          fun c hc => ⟨fun h => hnull (h ▸ hc), fun h => hdot (h ▸ hc)⟩
        have hone := dotSegment_whole 0 [] hchars fun nch val => (rfl : dotSegment nch val [] = _)
        rw [List.append_nil] at hone
        rw [hone, List.splitOn_eq_singleton hdot, List.length_singleton]
        by_cases hgood : IsSegment s
        · rw [if_pos hgood, if_pos ⟨by omega, List.forall_mem_singleton.mpr hgood⟩]
          rfl
        · rw [if_neg hgood, if_neg fun h => hgood (List.forall_mem_singleton.mp h.2)]
          rfl

theorem toNat_shift_or (h : ipaddr.toNat < 16777216) (hval : val < 256) :
    ((ipaddr <<< 8) ||| UInt32.ofNat val).toNat = 256 * ipaddr.toNat + val := by
  have hshift : (ipaddr <<< (8 : UInt32)).toNat = ipaddr.toNat <<< 8 := by
    rw [UInt32.toNat_shiftLeft]
    apply Nat.mod_eq_of_lt
    show ipaddr.toNat <<< 8 < _
    rw [Nat.shiftLeft_eq]
    omega
  have hor : ipaddr.toNat <<< 8 + val = ipaddr.toNat <<< 8 ||| val :=
    Nat.shiftLeft_add_eq_or_of_lt hval ipaddr.toNat
  have hsize : val < UInt32.size := Nat.lt_trans hval (by decide)
  rw [UInt32.toNat_or, hshift, UInt32.toNat_ofNat_of_lt' hsize, ← hor, Nat.shiftLeft_eq]
  omega

/-- No bit is lost while there are at most four segments. -/
theorem shifted_toNat (hk : segs.length + k ≤ 4) (hip : ipaddr.toNat < 256 ^ k)
    (hsegs : ∀ seg ∈ segs, IsSegment seg) :
    (shifted ipaddr segs).toNat =
      segs.foldl (fun v seg => 256 * v + segmentValue seg) ipaddr.toNat := by
  induction segs generalizing ipaddr k with
  | nil => rfl
  | cons seg segs ih =>
      rw [List.length_cons] at hk
      have hrange := (hsegs seg List.mem_cons_self).range
      have hpow : 256 ^ k ≤ 256 ^ 3 := Nat.pow_le_pow_right (by decide) (by omega)
      have hnext : ((ipaddr <<< 8) ||| UInt32.ofNat (segmentValue seg)).toNat =
          256 * ipaddr.toNat + segmentValue seg := toNat_shift_or (by omega) (by omega)
      have hrest := ih (k := k + 1) (by omega) (by rw [hnext, Nat.pow_succ]; omega)
        fun seg' h => hsegs seg' (List.mem_cons_of_mem seg h)
      rw [hnext] at hrest
      exact hrest

/-- Up to four segments are accepted, and nothing else. -/
theorem dot2ip_eq (hnull : 0 ∉ s) (result : UInt32) :
    dot2ip s result =
      if (s.splitOn DOT).length ≤ 4 ∧ ∀ seg ∈ s.splitOn DOT, IsSegment seg then
        (OK, shifted 0 (s.splitOn DOT))
      else (SYSERR, result) := by
  unfold dot2ip
  rw [dotSegments_eq hnull]
  by_cases h : (s.splitOn DOT).length ≤ 4 ∧ ∀ seg ∈ s.splitOn DOT, IsSegment seg
  · rw [if_pos h, if_pos h]
  · rw [if_neg h, if_neg h]

/-- {lit}`dot2ip` is right about a string if and only if that does not consist of one, two or
three segments. -/
theorem dot2ip_iff (s : CString) (result : UInt32) :
    ReadsDotted s.chars result (dot2ip s.chars result) ↔ ∀ n < 4, ¬ IsDotted n s.chars := by
  rw [dot2ip_eq s.nonnull]
  by_cases hsegs : ∀ seg ∈ s.chars.splitOn DOT, IsSegment seg
  · by_cases hlong : 4 < (s.chars.splitOn DOT).length
    · rw [if_neg fun h => absurd h.1 (by omega)]
      unfold ReadsDotted
      rw [if_neg fun h => absurd h.1 (by omega)]
      exact iff_of_true rfl fun n hn h => absurd h.1 (by omega)
    · rw [if_pos ⟨Nat.le_of_not_lt hlong, hsegs⟩]
      unfold ReadsDotted
      by_cases hfour : (s.chars.splitOn DOT).length = 4
      · rw [if_pos ⟨hfour, hsegs⟩]
        apply iff_of_true
        · exact ⟨rfl, shifted_toNat (k := 0) (by omega) (by decide) hsegs⟩
        · exact fun n hn h => absurd h.1 (by omega)
      · rw [if_neg fun h => hfour h.1]
        apply iff_of_false
        · exact fun h => absurd (congrArg Prod.fst h) (by decide : OK ≠ SYSERR)
        · exact fun h => h _ (by omega) ⟨rfl, hsegs⟩
  · rw [if_neg fun h => hsegs h.2]
    unfold ReadsDotted
    rw [if_neg fun h => hsegs h.2]
    exact iff_of_true rfl fun n _ h => hsegs h.2

end

/-- The string {lit}`"7"` is accepted. -/
theorem dot2ip_accepts_seven :
    ¬ ∀ (s : CString) (result : UInt32), ReadsDotted s.chars result (dot2ip s.chars result) := by
  intro hall
  have hread := hall { chars := [55], nonnull := by decide } 0
  have hfalse : ¬ ReadsDotted [55] 0 (dot2ip [55] 0) := by
    unfold ReadsDotted
    decide
  exact hfalse hread

end Net
end BbbXinu
