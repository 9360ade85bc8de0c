import Mathlib.Data.Nat.Digits.Div
import Mathlib.Data.Nat.Digits.Lemmas
import Mathlib.Algebra.BigOperators.Group.List.Basic
import Mathlib.Algebra.Order.Ring.Nat

/-!
# Numerals in a base

The digits of a number are read off from the low end, a given number of them, also of a
negative number.  A numeral has them from the high end, without zeros in front.

Nothing here depends on a particular program.
-/

namespace BbbXinu
namespace Positional

variable {b n v c : Nat}

/-- The given number of low digits, the lowest one first. -/
def low (b : Nat) : Nat → Int → List Nat
  | 0, _ => []
  | n + 1, z => (z % b).toNat :: low b n (z / b)

/-- The digits of a number from the highest one on, at least one. -/
def inBase (b v : Nat) : List Nat := if v = 0 then [0] else (b.digits v).reverse

/-- The number that a list of digits stands for, the highest digit first. -/
def value (b : Nat) (ds : List Nat) : Nat := Nat.ofDigits b ds.reverse

/-!
## Low digits
-/

/-- Low digits do not depend on what is above them. -/
theorem low_add_mul (hb : 0 < b) (n : Nat) (z k : Int) :
    low b n (z + (b ^ n : Nat) * k) = low b n z := by
  induction n generalizing z with
  | zero => rfl
  | succ n ih =>
      have hpos : (b : Int) ≠ 0 := by omega
      have hsplit : ((b ^ (n + 1) : Nat) : Int) * k = b * ((b ^ n : Nat) * k) := by
        rw [Nat.pow_succ, Nat.mul_comm, Nat.cast_mul, Int.mul_assoc]
      unfold low
      rw [hsplit, Int.add_mul_emod_self_left, Int.add_mul_ediv_left _ _ hpos, ih]

theorem low_natCast (hb : 1 < b) (hv : v < b ^ n) : low b n v = Nat.digitsAppend b n v := by
  induction n generalizing v with
  | zero =>
      obtain rfl : v = 0 := Nat.lt_one_iff.mp hv
      unfold Nat.digitsAppend
      rw [Nat.digits_zero]
      rfl
  | succ n ih =>
      have hdiv : v / b < b ^ n := Nat.div_lt_of_lt_mul (by rwa [Nat.mul_comm, ← Nat.pow_succ])
      have hhead : ((v : Int) % b).toNat = v % b := by
        rw [← Int.natCast_emod, Int.toNat_natCast]
      have htail : low b n ((v : Int) / b) = Nat.digitsAppend b n (v / b) := by
        rw [← Int.natCast_ediv, ih hdiv]
      unfold low
      rw [hhead, htail]
      unfold Nat.digitsAppend
      by_cases hzero : v = 0
      · rw [hzero, Nat.zero_mod, Nat.zero_div, Nat.digits_zero]
        rfl
      · rw [Nat.digits_def' hb (Nat.pos_of_ne_zero hzero), List.length_cons, Nat.add_sub_add_right,
          List.cons_append]

theorem low_succ (b n : Nat) (z : Int) :
    low b (n + 1) z = low b n z ++ [(z / (b ^ n : Nat) % b).toNat] := by
  induction n generalizing z with
  | zero =>
      rw [Nat.pow_zero, Nat.cast_one, Int.ediv_one]
      rfl
  | succ n ih =>
      have hdiv : z / b / (b ^ n : Nat) = z / (b ^ (n + 1) : Nat) := by
        rw [Int.ediv_ediv_of_nonneg (Int.natCast_nonneg b), Nat.pow_succ, Nat.mul_comm, Nat.cast_mul]
      rw [low, ih, hdiv]
      rfl

/-- Without the zeros in front, the low digits are all the digits. -/
theorem dropWhile_digitsAppend (b n v : Nat) :
    (Nat.digitsAppend b n v).reverse.dropWhile (fun d => decide (d = 0)) =
      (b.digits v).reverse := by
  unfold Nat.digitsAppend
  rw [List.reverse_append, List.reverse_replicate, List.dropWhile_append_of_pos]
  · by_cases hzero : v = 0
    · rw [hzero, Nat.digits_zero]
      rfl
    · have hne := Nat.digits_ne_nil_iff_ne_zero (b := b) |>.mpr hzero
      have hlast := Nat.getLast_digit_ne_zero b hzero
      rw [← List.head_reverse (List.reverse_ne_nil_iff.mpr hne)] at hlast
      cases hrev : (b.digits v).reverse with
      | nil => rfl
      | cons d ds =>
          have hd : ¬d = 0 := by
            simp only [hrev, List.head_cons] at hlast
            exact hlast
          rw [List.dropWhile_cons_of_neg (by simp [hd])]
  · intro d hd
    rw [List.eq_of_mem_replicate hd]
    rfl

/-!
## Numerals
-/

theorem inBase_ne_nil (b v : Nat) : inBase b v ≠ [] := by
  unfold inBase
  by_cases hzero : v = 0
  · rw [if_pos hzero]
    exact List.cons_ne_nil _ _
  · rw [if_neg hzero]
    exact List.reverse_ne_nil_iff.mpr (Nat.digits_ne_nil_iff_ne_zero.mpr hzero)

theorem mem_inBase_lt (hb : 1 < b) {d : Nat} (hd : d ∈ inBase b v) : d < b := by
  unfold inBase at hd
  by_cases hzero : v = 0
  · rw [if_pos hzero] at hd
    rw [List.mem_singleton.mp hd]
    omega
  · rw [if_neg hzero] at hd
    exact Nat.digits_lt_base hb (List.mem_reverse.mp hd)

theorem inBase_length_le_iff (hb : 1 < b) (hn : 0 < n) : (inBase b v).length ≤ n ↔ v < b ^ n := by
  unfold inBase
  by_cases hzero : v = 0
  · rw [if_pos hzero, hzero]
    exact iff_of_true hn (Nat.pow_pos (Nat.zero_lt_of_lt hb))
  · rw [if_neg hzero, List.length_reverse, Nat.digits_length_le_iff hb]

theorem inBase_length_pos (b v : Nat) : 0 < (inBase b v).length :=
  List.length_pos_of_ne_nil (inBase_ne_nil b v)

/-- What the first digits of a numeral stand for. -/
theorem value_take (hb : 1 < b) (hc : c < (inBase b v).length) :
    value b ((inBase b v).take ((inBase b v).length - c)) = v / b ^ c := by
  unfold value inBase at *
  by_cases hzero : v = 0
  · rw [if_pos hzero] at hc ⊢
    obtain rfl : c = 0 := Nat.lt_one_iff.mp hc
    rw [hzero, Nat.zero_div]
    exact Nat.ofDigits_singleton
  · rw [if_neg hzero] at hc ⊢
    rw [List.length_reverse, List.take_reverse, List.reverse_reverse, Nat.sub_sub_self]
    · exact (Nat.self_div_pow_eq_ofDigits_drop c v hb).symm
    · rw [List.length_reverse] at hc
      exact hc.le

/-- The highest digit, and the digits below it. -/
theorem inBase_eq_cons (hb : 1 < b) (hlow : b ^ n ≤ v) (hhigh : v < b ^ (n + 1)) :
    inBase b v = v / b ^ n :: (low b n v).reverse := by
  have hpos : 0 < b ^ n := Nat.pow_pos (Nat.zero_lt_of_lt hb)
  have hzero : v ≠ 0 := by omega
  have hlen : n < (b.digits v).length := (Nat.lt_digits_length_iff hb v).mpr hlow
  have htop : v / b ^ n < b := Nat.div_lt_of_lt_mul (by rwa [← Nat.pow_succ])
  have hall : low b (n + 1) v = b.digits v := by
    rw [low_natCast hb hhigh, Nat.digitsAppend, Nat.sub_eq_zero_of_le hlen]
    exact List.append_nil _
  have hlast : ((v : Int) / (b ^ n : Nat) % b).toNat = v / b ^ n := by
    rw [← Int.natCast_ediv, ← Int.natCast_emod, Int.toNat_natCast, Nat.mod_eq_of_lt htop]
  rw [inBase, if_neg hzero, ← hall, low_succ, hlast, List.reverse_append]
  rfl

/-- Zeros in front count for nothing, and each zero at the end for a factor. -/
theorem value_zeros (b k m : Nat) (ds : List Nat) :
    value b (List.replicate k 0 ++ ds ++ List.replicate m 0) = value b ds * b ^ m := by
  unfold value
  rw [List.reverse_append, List.reverse_append, List.reverse_replicate, List.reverse_replicate,
    Nat.ofDigits_append, Nat.ofDigits_append, Nat.ofDigits_replicate_zero,
    Nat.ofDigits_replicate_zero, List.length_replicate, Nat.mul_zero, Nat.add_zero, Nat.zero_add,
    Nat.mul_comm]

/-- Digits that are cut off and replaced by zeros do not matter if they were as many zeros. -/
theorem div_mul_pow_eq_iff {a : Nat} (hb : 1 < b) (hc : b ^ c ≤ v) :
    v / b ^ c * b ^ a = v ↔ a = c ∧ b ^ c ∣ v := by
  have hpos : 0 < b ^ c := Nat.pow_pos (Nat.zero_lt_of_lt hb)
  have hquot : 0 < v / b ^ c := Nat.div_pos hc hpos
  constructor
  · intro heq
    have hsame : a = c := by
      apply le_antisymm
      · by_contra hgt
        have hpow : b ^ c * 2 ≤ b ^ a := calc
          b ^ c * 2 ≤ b ^ c * b := Nat.mul_le_mul_left _ hb
          _ = b ^ (c + 1) := (Nat.pow_succ b c).symm
          _ ≤ b ^ a := Nat.pow_le_pow_right (Nat.zero_lt_of_lt hb) (by omega)
        have hmul := (Nat.mul_le_mul_left (v / b ^ c) hpow).trans heq.le
        have hmod := Nat.div_add_mod v (b ^ c)
        have hlt := Nat.mod_lt v hpos
        have hone : b ^ c ≤ b ^ c * (v / b ^ c) := Nat.le_mul_of_pos_right _ hquot
        have hcomm : v / b ^ c * (b ^ c * 2) = b ^ c * (v / b ^ c) * 2 := by
          rw [← Nat.mul_assoc, Nat.mul_comm (v / b ^ c)]
        omega
      · by_contra hlt
        have hpow : b ^ a < b ^ c := Nat.pow_lt_pow_right hb (by omega)
        have hmul : v / b ^ c * b ^ a < v / b ^ c * b ^ c := Nat.mul_lt_mul_of_pos_left hpow hquot
        have hle := Nat.div_mul_le_self v (b ^ c)
        omega
    rw [hsame] at heq
    exact ⟨hsame, Dvd.intro_left _ heq⟩
  · rintro ⟨rfl, hdvd⟩
    exact Nat.div_mul_cancel hdvd

end Positional
end BbbXinu

/-!
# Sums in ones-complement arithmetic

Sixteen-bit words are added with the carry out of the top added in at the bottom.
The sum of a list of words is its ordinary sum modulo 65535, where a sum that is
not 0 counts as 65535 instead of 0.

Nothing here depends on a particular program.
-/

namespace BbbXinu
namespace OnesComplement

/-- Addition of 16-bit words with end-around carry. -/
def add (a b : Nat) : Nat := if a + b < 65536 then a + b else a + b - 65535

/-- The ones-complement sum of a list of words. -/
def sum (l : List Nat) : Nat := l.foldr add 0

/-- The checksum of a list of words: the complement of their sum. -/
def checksum (l : List Nat) : Nat := 65535 - sum l

/-- What an ordinary sum comes to in ones-complement arithmetic. -/
def fold (n : Nat) : Nat := if n = 0 then 0 else (n - 1) % 65535 + 1

theorem fold_lt (n : Nat) : fold n < 65536 := by
  unfold fold
  split
  · omega
  · omega

theorem fold_of_lt {n : Nat} (h : n < 65536) : fold n = n := by
  unfold fold
  split
  · omega
  · omega

theorem fold_of_pos {n : Nat} (h : 0 < n) : fold n = (n - 1) % 65535 + 1 := if_neg (by omega)

theorem add_fold {a n : Nat} (ha : a < 65536) : add a (fold n) = fold (a + n) := by
  by_cases hn : n = 0
  · rw [hn, Nat.add_zero, fold_of_lt ha]
    unfold add
    exact if_pos ha
  · rw [fold_of_pos (by omega), fold_of_pos (by omega)]
    unfold add
    split
    · omega
    · omega

theorem sum_eq {l : List Nat} (h : ∀ w ∈ l, w < 65536) : sum l = fold l.sum := by
  induction l with
  | nil => rfl
  | cons w l ih =>
      change add w (sum l) = fold ((w :: l).sum)
      rw [ih fun x hx => h x (List.mem_cons_of_mem w hx), List.sum_cons,
        add_fold (h w List.mem_cons_self)]

/-- One addition of the high part of a sum to its low part is enough when it has no
carry. -/
theorem fold_eq_of_no_carry {n : Nat} (h : n % 65536 + n / 65536 < 65536) :
    fold n = n % 65536 + n / 65536 := by
  unfold fold
  split
  · omega
  · omega

/-- With a carry, one addition falls short by one. -/
theorem fold_eq_of_carry {n : Nat} (h : 65536 ≤ n % 65536 + n / 65536) (hn : n / 65536 < 65536) :
    fold n = n % 65536 + n / 65536 - 65535 := by
  unfold fold
  split
  · omega
  · omega

theorem fold_eq_zero {n : Nat} : fold n = 0 ↔ n = 0 := by
  unfold fold
  split
  · omega
  · omega

/-- A sum is all ones exactly when it is a multiple of 65535, and not 0. -/
theorem fold_eq_ones {n : Nat} : fold n = 65535 ↔ n % 65535 = 0 ∧ 0 < n := by
  unfold fold
  split
  · omega
  · omega

end OnesComplement
end BbbXinu
