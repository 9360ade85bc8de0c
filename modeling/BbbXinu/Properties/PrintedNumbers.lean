import BbbXinu.Lib.Positional
import BbbXinu.Properties.Formatters

/-!
# Formatted numbers

The routines for digits give the numeral of the argument, but {lit}`_prtl10` is wrong for
the one negative number whose opposite is negative too, and a binary numeral may be longer
than the array.
-/

namespace BbbXinu
namespace Stdio

open Positional

/-!
## Digits
-/

section Digits

variable {b n v : Nat} {digit : Int → Char} {next : Int → Int} {chr : Nat → Char}

/-- The characters {lit}`0` to {lit}`9` and {lit}`A` to {lit}`F`. -/
def upperDigit (d : Nat) : Char := (Nat.digitChar d).toUpper

theorem digitChar_eq_zero_iff : ∀ d < 16, Nat.digitChar d = '0' ↔ d = 0 := by decide

theorem upperDigit_eq_zero_iff : ∀ d < 16, upperDigit d = '0' ↔ d = 0 := by decide

/-- The loop takes the low digits, as long as its steps are those of a division. -/
theorem digitLoop_eq (P : Int → Prop)
    (hstep : ∀ z, P z → digit z = chr (z % b).toNat ∧ next z = z / b ∧ P (z / b)) (n : Nat)
    {z : Int} (hz : P z) : digitLoop digit next n z = (low b n z).map chr := by
  induction n generalizing z with
  | zero => rfl
  | succ n ih =>
      rcases hstep z hz with ⟨hdigit, hnext, hrest⟩
      unfold digitLoop low
      rw [hdigit, hnext, ih hrest]
      rfl

/-- Without zeros in front, the digits are the numeral. -/
theorem copyDigits_low (hb : 1 < b) (hn : 0 < n) (hv : v < b ^ n)
    (hzero : ∀ d < b, chr d = '0' ↔ d = 0) :
    copyDigits ((low b n v).map chr) = (inBase b v).map chr ++ [NULLCH] := by
  have hdrop : ((low b n v).map chr).reverse.dropWhile (fun c => decide (c = '0')) =
      ((b.digits v).reverse).map chr := by
    rw [low_natCast hb hv, ← dropWhile_digitsAppend b n v, ← List.map_reverse, List.dropWhile_map]
    congr 1
    have hmem : ∀ d ∈ (Nat.digitsAppend b n v).reverse, d < b := fun d hd =>
      Nat.lt_of_mem_digitsAppend hb n d (List.mem_reverse.mp hd)
    generalize (Nat.digitsAppend b n v).reverse = l at hmem
    induction l with
    | nil => rfl
    | cons d l ih =>
        have hd := hzero d (hmem d List.mem_cons_self)
        by_cases hd0 : d = 0
        · rw [List.dropWhile_cons_of_pos (by simpa using hd.mpr hd0),
            List.dropWhile_cons_of_pos (by simpa using hd0)]
          exact ih fun e he => hmem e (List.mem_cons_of_mem _ he)
        · rw [List.dropWhile_cons_of_neg (by simpa using fun h => hd0 (hd.mp h)),
            List.dropWhile_cons_of_neg (by simpa using hd0)]
  unfold copyDigits
  dsimp only
  rw [hdrop]
  unfold inBase
  by_cases hv0 : v = 0
  · have hnil : (([] : List Nat).reverse).map chr = [] := rfl
    rw [hv0, Nat.digits_zero, if_pos hnil, if_pos rfl]
    cases n with
    | zero => exact absurd hn (Nat.lt_irrefl 0)
    | succ n => rfl
  · have hne : ((b.digits v).reverse).map chr ≠ [] := by
      rw [Ne, List.map_eq_nil_iff, List.reverse_eq_nil_iff]
      exact Nat.digits_ne_nil_iff_ne_zero.mpr hv0
    rw [if_neg hne, if_neg hv0]

/-- A word as a {lit}`long`. -/
theorem int32_word (v : UInt32) : ∃ k : Int, int32 v.toNat = v.toNat + (2 ^ 32 : Nat) * k := by
  refine ⟨-((v.toNat + 2147483648) / 4294967296), ?_⟩
  unfold int32 Int.bmod
  have hlt := v.toNat_lt
  dsimp only
  split
  · omega
  · omega

theorem prtl10_natCast (hv : v < 10 ^ 10) :
    prtl10 v = (inBase 10 v).map Nat.digitChar ++ [NULLCH] := by
  have hdigit : ∀ d : Nat, d < 10 → char ((d : Int) + 48) = Nat.digitChar d := by decide
  have hstep : ∀ z : Int, 0 ≤ z → char (z.tmod 10 + 48) = Nat.digitChar (z % (10 : Nat)).toNat ∧
      z.tdiv 10 = z / (10 : Nat) ∧ 0 ≤ z / (10 : Nat) := fun z hz => by
    have hmod := hdigit (z % 10).toNat (by omega)
    rw [Int.toNat_of_nonneg (by omega)] at hmod
    rw [Int.tmod_eq_emod_of_nonneg hz, Int.tdiv_eq_ediv_of_nonneg hz]
    exact ⟨hmod, rfl, by omega⟩
  unfold prtl10
  rw [digitLoop_eq (fun z => 0 ≤ z) hstep 10 (Int.natCast_nonneg v)]
  exact copyDigits_low (by decide) (by decide) hv fun d hd => digitChar_eq_zero_iff d (by omega)

/-- The routines for hexadecimal digits. -/
theorem prtHex_word {table : List Char} (v : UInt32)
    (htable : ∀ d < 16, table.getD d NULLCH = chr d) (hzero : ∀ d < 16, chr d = '0' ↔ d = 0) :
    prtHex table (int32 v.toNat) = (inBase 16 v.toNat).map chr ++ [NULLCH] := by
  have hstep : ∀ z : Int, True → table.getD (z % 16).toNat NULLCH = chr (z % (16 : Nat)).toNat ∧
      z >>> (4 : Nat) = z / (16 : Nat) ∧ True := fun z _ =>
    ⟨htable _ (by omega), Int.shiftRight_eq_div_pow z 4, trivial⟩
  rcases int32_word v with ⟨k, hk⟩
  unfold prtHex
  rw [digitLoop_eq (fun _ => True) hstep 8 trivial, hk]
  have hlow : low 16 8 ((v.toNat : Int) + (2 ^ 32 : Nat) * k) = low 16 8 v.toNat :=
    low_add_mul (by decide) 8 v.toNat k
  rw [hlow]
  exact copyDigits_low (by decide) (by decide) v.toNat_lt hzero

theorem prtl16_word (v : UInt32) :
    prtl16 (int32 v.toNat) = (inBase 16 v.toNat).map Nat.digitChar ++ [NULLCH] :=
  prtHex_word v (by decide) digitChar_eq_zero_iff

theorem prtX16_word (v : UInt32) :
    prtX16 (int32 v.toNat) = (inBase 16 v.toNat).map upperDigit ++ [NULLCH] :=
  prtHex_word v (by decide) upperDigit_eq_zero_iff

theorem prtl2_word (v : UInt32) :
    prtl2 (int32 v.toNat) = (inBase 2 v.toNat).map Nat.digitChar ++ [NULLCH] := by
  have hstep : ∀ z : Int, True →
      (if z.tmod 2 = 0 then '0' else '1') = Nat.digitChar (z % (2 : Nat)).toNat ∧
        z >>> (1 : Nat) = z / (2 : Nat) ∧ True := fun z _ => by
    refine ⟨?_, Int.shiftRight_eq_div_pow z 1, trivial⟩
    have heven : z.tmod 2 = 0 ↔ z % 2 = 0 := by
      rw [← Int.dvd_iff_tmod_eq_zero, ← Int.dvd_iff_emod_eq_zero]
    rcases Int.emod_two_eq_zero_or_one z with hzero | hone
    · rw [if_pos (heven.mpr hzero)]
      change '0' = Nat.digitChar (z % 2).toNat
      rw [hzero]
      rfl
    · rw [if_neg fun h => by rw [heven.mp h] at hone; cases hone]
      change '1' = Nat.digitChar (z % 2).toNat
      rw [hone]
      rfl
  rcases int32_word v with ⟨k, hk⟩
  unfold prtl2
  rw [digitLoop_eq (fun _ => True) hstep 32 trivial, hk]
  have hlow : low 2 32 ((v.toNat : Int) + (2 ^ 32 : Nat) * k) = low 2 32 v.toNat :=
    low_add_mul (by decide) 32 v.toNat k
  rw [hlow]
  exact copyDigits_low (by decide) (by decide) v.toNat_lt
    fun d hd => digitChar_eq_zero_iff d (by omega)

/-- The mask takes the bit above the highest one of a word away. -/
theorem maskLast_low (v : UInt32) (k : Int) :
    maskLast ((low 8 11 ((v.toNat : Int) + (2 ^ 32 : Nat) * k)).map Nat.digitChar) =
      (low 8 11 v.toNat).map Nat.digitChar := by
  have hmask : ∀ d < 8, Char.ofNat ((Nat.digitChar d).toNat &&& '3'.toNat) =
      Nat.digitChar (d % 4) := by decide
  have hlow : low 8 10 ((v.toNat : Int) + (2 ^ 32 : Nat) * k) = low 8 10 v.toNat := by
    have hsplit : ((2 ^ 32 : Nat) : Int) * k = (8 ^ 10 : Nat) * (4 * k) := by omega
    rw [hsplit]
    exact low_add_mul (by decide) 10 v.toNat (4 * k)
  have hlen : ((low 8 10 v.toNat).map Nat.digitChar).length = 10 := rfl
  have htop : (((v.toNat : Int) + (2 ^ 32 : Nat) * k) / (8 ^ 10 : Nat) % (8 : Nat)).toNat % 4 =
      ((v.toNat : Int) / (8 ^ 10 : Nat) % (8 : Nat)).toNat := by
    have hlt := v.toNat_lt
    omega
  unfold maskLast
  rw [low_succ, low_succ 8 10 v.toNat, hlow, List.map_append, List.map_append]
  change List.modify _ ((low 8 10 v.toNat).map Nat.digitChar).length _ = _
  rw [List.modify_eq_take_cons_drop (by simp), List.take_left, List.drop_eq_nil_of_le (by simp)]
  simp only [List.map_cons, List.map_nil, List.getElem_concat_length]
  rw [hmask _ (by omega), htop]

theorem prtl8_word (v : UInt32) :
    prtl8 (int32 v.toNat) = (inBase 8 v.toNat).map Nat.digitChar ++ [NULLCH] := by
  have hdigit : ∀ d : Nat, d < 8 → char ((d : Int) + 48) = Nat.digitChar d := by decide
  have hstep : ∀ z : Int, True → char (z % 8 + 48) = Nat.digitChar (z % (8 : Nat)).toNat ∧
      z >>> (3 : Nat) = z / (8 : Nat) ∧ True := fun z _ => by
    have hmod := hdigit (z % 8).toNat (by omega)
    rw [Int.toNat_of_nonneg (by omega)] at hmod
    exact ⟨hmod, Int.shiftRight_eq_div_pow z 3, trivial⟩
  rcases int32_word v with ⟨k, hk⟩
  have hlt : v.toNat < 8 ^ 11 := v.toNat_lt.trans (by decide)
  unfold prtl8
  rw [digitLoop_eq (fun _ => True) hstep 11 trivial, hk, maskLast_low]
  exact copyDigits_low (by decide) (by decide) hlt fun d hd => digitChar_eq_zero_iff d (by omega)

/-- A word below half of the range is the same as a {lit}`long`, and one above is negative. -/
theorem int32_natCast {w : Nat} (hw : w < 4294967296) :
    int32 w = if w < 2147483648 then (w : Int) else (w : Int) - 4294967296 := by
  by_cases hlow : w < 2147483648
  · rw [if_pos hlow]
    exact int32_eq (by omega) (by omega)
  · have hshift : int32 w = int32 ((w : Int) - 4294967296) := (Int.sub_bmod_right _ _).symm
    rw [if_neg hlow, hshift]
    exact int32_eq (by omega) (by omega)

/-- The loop takes off as many thousand millions as are needed. -/
theorem positiveLoop_spec (fuel : Nat) {w : Nat} (j : Nat)
    (hfuel : w < 2147483648 + 1000000000 * fuel) (hw : w < 4294967296) :
    ∃ k, positiveLoop fuel (int32 w) j = (((w - 1000000000 * k : Nat) : Int), j + k) ∧
      (k = 0 ∨ 1147483648 + 1000000000 * k ≤ w) ∧ w < 2147483648 + 1000000000 * k := by
  induction fuel generalizing w j with
  | zero =>
      refine ⟨0, ?_, Or.inl rfl, hfuel⟩
      rw [int32_natCast hw, if_pos hfuel]
      rfl
  | succ fuel ih =>
      unfold positiveLoop
      by_cases hlow : w < 2147483648
      · refine ⟨0, ?_, Or.inl rfl, hlow⟩
        rw [int32_natCast hw, if_pos hlow, if_neg (by omega)]
        rfl
      · have hneg : int32 w < 0 := by
          rw [int32_natCast hw, if_neg hlow]
          omega
        rcases Nat.exists_eq_add_of_le' (by omega : 1000000000 ≤ w) with ⟨u, rfl⟩
        have hnext : int32 (int32 ((u + 1000000000 : Nat) : Int) - 1000000000) = int32 u := by
          unfold int32
          rw [Int.bmod_sub_bmod, Nat.cast_add]
          exact congrArg (fun z : Int => z.bmod 4294967296) (Int.add_sub_cancel _ _)
        rw [if_pos hneg, hnext]
        clear hnext hneg
        rcases ih (w := u) (j + 1) (by omega) (by omega) with ⟨k, hk, hmin, hmax⟩
        have hmul : 1000000000 * (k + 1) = 1000000000 * k + 1000000000 := Nat.mul_succ _ _
        have hsub : u + 1000000000 - 1000000000 * (k + 1) = u - 1000000000 * k := by
          rw [hmul, Nat.add_sub_add_right]
        have hadd : j + (k + 1) = j + 1 + k := (Nat.add_right_comm j 1 k).symm
        refine ⟨k + 1, ?_, Or.inr ?_, ?_⟩
        · rw [hk, hsub, hadd]
        · rw [hmul, ← Nat.add_assoc]
          rcases hmin with rfl | hmin
          · omega
          · exact Nat.add_le_add_right hmin 1000000000
        · rw [hmul, ← Nat.add_assoc]
          exact Nat.add_lt_add_right hmax 1000000000

/-- The first digit gets back what was taken off. -/
theorem prtUnsigned_word (v : UInt32) :
    prtUnsigned (int32 v.toNat) = (inBase 10 v.toNat).map Nat.digitChar ++ [NULLCH] := by
  have hlt := v.toNat_lt
  rcases positiveLoop_spec 3 0 (by omega) hlt with ⟨k, hloop, hmin, hmax⟩
  generalize v.toNat = w at *
  unfold prtUnsigned
  rw [hloop]
  dsimp only
  rw [prtl10_natCast (by omega), Nat.zero_add]
  rcases hmin with rfl | hmin
  · -- Nothing was taken off, and nothing is put back.
    have hsame : ∀ d < 10, char ((Nat.digitChar d).toNat + (0 : Nat)) = Nat.digitChar d := by decide
    rw [Nat.mul_zero, Nat.sub_zero]
    have hne := inBase_ne_nil 10 w
    have hmem : ∀ d ∈ inBase 10 w, d < 10 := fun d hd => mem_inBase_lt (by decide) hd
    cases hnum : inBase 10 w with
    | nil => exact absurd hnum hne
    | cons d ds =>
        rw [hnum] at hmem
        unfold addFirst
        rw [List.map_cons, List.cons_append, List.modify_zero_cons]
        rw [hsame d (hmem d List.mem_cons_self)]
  · have hdigit : ∀ d < 5, ∀ k < 5, char ((Nat.digitChar d).toNat + (k : Nat)) =
        Nat.digitChar (d + k) := by decide
    have hlow : low 10 9 ((w - 1000000000 * k : Nat) : Int) = low 10 9 w := by
      have hsplit : ((w - 1000000000 * k : Nat) : Int) = w + (10 ^ 9 : Nat) * (-k) := by omega
      rw [hsplit]
      exact low_add_mul (by decide) 9 w (-k)
    have htop : (w - 1000000000 * k) / 10 ^ 9 + k = w / 10 ^ 9 := by omega
    rw [inBase_eq_cons (n := 9) (by decide) (by omega) (by omega),
      inBase_eq_cons (n := 9) (v := w) (by decide) (by omega) (by omega), hlow]
    unfold addFirst
    rw [List.map_cons, List.cons_append, List.modify_zero_cons, List.map_cons, List.cons_append]
    rw [hdigit _ (by omega) k (by omega), htop]

end Digits

/-!
## The conversions
-/

inductive NumberConv where
  | d | u | o | x | X | b
  deriving DecidableEq, Repr

namespace NumberConv

def char : NumberConv → Char
  | d => 'd'
  | u => 'u'
  | o => 'o'
  | x => 'x'
  | X => 'X'
  | b => 'b'

def base : NumberConv → Nat
  | d => 10
  | u => 10
  | o => 8
  | x => 16
  | X => 16
  | b => 2

def digit : NumberConv → Nat → Char
  | X => upperDigit
  | _ => Nat.digitChar

/-- The number that an argument stands for. -/
def value (k : NumberConv) (v : UInt32) : Int :=
  match k with
  | d => int32 v.toNat
  | _ => v.toNat

/-- The representation of the number, without zeros in front. -/
def plain (k : NumberConv) (v : UInt32) : List Char :=
  (if k.value v < 0 then ['-'] else []) ++ (inBase k.base (k.value v).natAbs).map k.digit

/-- What the case puts into the array. -/
def bytes (k : NumberConv) (v : UInt32) : List Char :=
  match k with
  | d => prtl10 (if int32 v.toNat < 0 then int32 (-int32 v.toNat) else int32 v.toNat)
  | u => prtUnsigned (int32 v.toNat)
  | o => prtl8 (int32 v.toNat)
  | x => prtl16 (int32 v.toNat)
  | X => prtX16 (int32 v.toNat)
  | b => prtl2 (int32 v.toNat)

/-- The argument for which the opposite is negative too. -/
def Overflows (k : NumberConv) (v : UInt32) : Prop := k = d ∧ v.toNat = 2147483648

variable (k : NumberConv) (v : UInt32)

theorem one_lt_base : 1 < k.base := by
  cases k
  all_goals decide

theorem base_le : k.base ≤ 16 := by
  cases k
  all_goals decide

theorem digit_ne_null : ∀ n < 16, k.digit n ≠ NULLCH := by
  cases k
  all_goals decide

theorem value_nonneg (h : k ≠ d) : 0 ≤ k.value v := by
  cases k with
  | d => exact absurd rfl h
  | u => exact Int.natCast_nonneg _
  | o => exact Int.natCast_nonneg _
  | x => exact Int.natCast_nonneg _
  | X => exact Int.natCast_nonneg _
  | b => exact Int.natCast_nonneg _

/-- The bytes are the digits of the number. -/
theorem bytes_eq (h : ¬k.Overflows v) :
    k.bytes v = (inBase k.base (k.value v).natAbs).map k.digit ++ [NULLCH] := by
  have hlt := v.toNat_lt
  cases k with
  | d =>
      have hmin : v.toNat ≠ 2147483648 := fun hv => h ⟨rfl, hv⟩
      have hword := int32_natCast hlt
      have habs : (if int32 v.toNat < 0 then int32 (-int32 v.toNat) else int32 v.toNat) =
          (((int32 v.toNat).natAbs : Nat) : Int) := by
        by_cases hneg : int32 v.toNat < 0
        · rw [if_pos hneg, int32_eq (by omega) (by omega)]
          omega
        · rw [if_neg hneg]
          omega
      unfold bytes
      dsimp only
      rw [habs]
      exact prtl10_natCast (by omega)
  | u => exact prtUnsigned_word v
  | o => exact prtl8_word v
  | x => exact prtl16_word v
  | X => exact prtX16_word v
  | b => exact prtl2_word v

theorem bytes_overflow (h : k.Overflows v) :
    k.bytes v = ['.', '/', ',', ')', ',', '(', '-', '*', ',', '(', NULLCH] := by
  rcases h with ⟨rfl, hv⟩
  unfold bytes
  dsimp only
  rw [hv]
  decide

theorem null_mem_bytes : NULLCH ∈ k.bytes v := by
  by_cases h : k.Overflows v
  · rw [k.bytes_overflow v h]
    decide
  · rw [k.bytes_eq v h]
    exact List.mem_append_right _ (List.mem_singleton_self _)

/-- The string that is in the array. -/
theorem cstring_bytes (h : ¬k.Overflows v) :
    cstring (k.bytes v) = (inBase k.base (k.value v).natAbs).map k.digit := by
  rw [k.bytes_eq v h]
  apply cstring_append_null
  intro hnull
  rcases List.mem_map.mp hnull with ⟨n, hn, hdigit⟩
  exact k.digit_ne_null n ((mem_inBase_lt k.one_lt_base hn).trans_le k.base_le) hdigit

end NumberConv

/-!
## Directives
-/

/-- Put an argument before others. -/
def VaList.cons (w : UInt32) (ap : VaList) : VaList
  | 0 => w
  | n + 1 => ap n

/-- A width or a precision, as digits or as an argument. -/
inductive Amount where
  | literal (ds : List Char)
  | star (w : UInt32)

namespace Amount

/-- The number that digits stand for, behind others. -/
def decimal (n : Nat) (ds : List Char) : Nat :=
  ds.foldl (fun n c => n * 10 + (c.toNat - '0'.toNat)) n

def text : Amount → List Char
  | literal ds => ds
  | star _ => ['*']

def value : Amount → Int
  | literal ds => decimal 0 ds
  | star w => int32 w.toNat

def push : Amount → VaList → VaList
  | literal _, ap => ap
  | star w, ap => ap.cons w

/-- The digits are those of a number that an {lit}`int` can hold. -/
def WellFormed : Amount → Prop
  | literal ds => (∀ c ∈ ds, isDigit c) ∧ decimal 0 ds < 2147483648
  | star _ => True

theorem none_wellFormed : ∀ a ∈ (none : Option Amount), a.WellFormed := fun a ha => by cases ha

variable {n : Nat} {ds rest : List Char}

theorem le_decimal (n : Nat) (ds : List Char) : n ≤ decimal n ds := by
  induction ds generalizing n with
  | nil => exact le_refl _
  | cons c ds ih => exact le_trans (by omega) (ih (n * 10 + (c.toNat - '0'.toNat)))

/-- The loop over the digits stops behind them. -/
theorem number_literal (hds : ∀ c ∈ ds, isDigit c) (hfits : decimal n ds < 2147483648)
    (hrest : ¬isDigit (rest.headD NULLCH)) :
    number n (ds ++ rest) = ((decimal n ds : Int), rest) := by
  induction ds generalizing n with
  | nil =>
      cases rest with
      | nil => rfl
      | cons c rest => exact if_neg hrest
  | cons c ds ih =>
      have hdigit := hds c List.mem_cons_self
      have hlow : '0'.toNat ≤ c.toNat := hdigit.1
      have hnext : decimal (n * 10 + (c.toNat - '0'.toNat)) ds < 2147483648 := hfits
      have hle := le_decimal (n * 10 + (c.toNat - '0'.toNat)) ds
      have hint : int32 ((n : Int) * 10 + c.toNat - '0'.toNat) =
          ((n * 10 + (c.toNat - '0'.toNat) : Nat) : Int) := by
        rw [int32_eq (by omega) (by omega)]
        omega
      rw [List.cons_append, number, if_pos hdigit, hint]
      exact ih (fun d hd => hds d (List.mem_cons_of_mem c hd)) hnext

theorem fieldNumber_eq {a : Amount} (ha : a.WellFormed) (hdigit : ¬isDigit (rest.headD NULLCH))
    (hstar : rest.headD NULLCH ≠ '*') (ap : VaList) :
    fieldNumber (a.text ++ rest) (a.push ap) = (a.value, rest, ap) := by
  cases a with
  | star w => rfl
  | literal ds =>
      have hhead : (ds ++ rest).headD NULLCH ≠ '*' := by
        cases ds with
        | nil => exact hstar
        | cons c ds =>
            intro hc
            have hisDigit := ha.1 c List.mem_cons_self
            rw [show c = '*' from hc] at hisDigit
            exact absurd hisDigit (by decide)
      change fieldNumber (ds ++ rest) ap = ((decimal 0 ds : Int), rest, ap)
      unfold fieldNumber
      rw [if_neg hhead]
      dsimp only
      have hnumber : number 0 (ds ++ rest) = ((decimal 0 ds : Int), rest) :=
        number_literal ha.1 ha.2 hdigit
      rw [hnumber]

/-- What an amount cannot begin with. -/
theorem headD_ne {a : Amount} (ha : a.WellFormed) {c : Char} (hstar : c ≠ '*')
    (hdigit : ∀ ds, a = literal ds → ds.head? ≠ some c) (hrest : rest.headD NULLCH ≠ c) :
    (a.text ++ rest).headD NULLCH ≠ c := by
  cases a with
  | star w => exact hstar.symm
  | literal ds =>
      cases ds with
      | nil => exact hrest
      | cons d ds => exact fun hd => hdigit _ rfl (congrArg some hd)

end Amount

/-- A directive for a number.  Without the flag for zeros a width does not begin with one. -/
structure Directive where
  minus : Bool
  zero : Bool
  width : Amount
  precision : Option Amount
  conv : NumberConv
  widthOk : width.WellFormed
  precisionOk : ∀ a ∈ precision, a.WellFormed
  flag : zero = false → ∀ ds, width = .literal ds → ds.head? ≠ some '0'

namespace Directive

variable (D : Directive)

/-- What is behind the width. -/
def precisionText (D : Directive) : List Char :=
  match D.precision with
  | none => [D.conv.char]
  | some a => '.' :: (a.text ++ [D.conv.char])

def text (D : Directive) : List Char :=
  '%' :: ((if D.minus then ['-'] else []) ++ ((if D.zero then ['0'] else []) ++
    (D.width.text ++ D.precisionText)))

/-- The arguments for a value. -/
def push (D : Directive) (v : UInt32) (ap : VaList) : VaList :=
  D.width.push (match D.precision with
    | none => ap.cons v
    | some a => a.push (ap.cons v))

/-- The precision, or zero. -/
def fmax (D : Directive) : Int :=
  match D.precision with
  | none => 0
  | some a => a.value

/-- The fill character. -/
def fill (D : Directive) : Char := if D.zero then '0' else ' '

theorem conv_char : ¬isDigit D.conv.char ∧ D.conv.char ≠ '*' ∧ D.conv.char ≠ '.' ∧
    D.conv.char ≠ '-' ∧ D.conv.char ≠ '%' ∧ D.conv.char ≠ NULLCH ∧ D.conv.char ≠ '0' := by
  generalize D.conv = k
  cases k
  all_goals decide

theorem skip_pos {c : Char} {fmt : List Char} (h : fmt.headD NULLCH = c) :
    skip c fmt = (true, fmt.tail) := if_pos h

theorem skip_neg {c : Char} {fmt : List Char} (h : fmt.headD NULLCH ≠ c) :
    skip c fmt = (false, fmt) := if_neg h

/-- A flag is seen if it is there. -/
theorem skip_flag (c : Char) (flag : Bool) {rest : List Char}
    (h : flag = false → rest.headD NULLCH ≠ c) :
    skip c ((if flag then [c] else []) ++ rest) = (flag, rest) := by
  cases flag with
  | true => exact skip_pos rfl
  | false => exact skip_neg (h rfl)

/-- The precision, or the format character, is none of the characters before it. -/
theorem precisionText_head (rest : List Char) :
    ¬isDigit ((D.precisionText ++ rest).headD NULLCH) ∧
      (D.precisionText ++ rest).headD NULLCH ≠ '*' ∧
      (D.precisionText ++ rest).headD NULLCH ≠ '-' ∧
      (D.precisionText ++ rest).headD NULLCH ≠ '0' ∧
      (D.precisionText ++ rest).headD NULLCH ≠ '%' := by
  rcases D.conv_char with ⟨hdigit, hstar, _, hminus, hpercent, _, hzero⟩
  unfold precisionText
  cases D.precision with
  | none => exact ⟨hdigit, hstar, hminus, hzero, hpercent⟩
  | some a =>
      change ¬isDigit '.' ∧ '.' ≠ '*' ∧ '.' ≠ '-' ∧ '.' ≠ '0' ∧ '.' ≠ '%'
      decide

theorem width_head (rest : List Char) {c : Char} (hc : c ∈ ['-', '%'] ∨ D.zero = false ∧ c = '0') :
    (D.width.text ++ (D.precisionText ++ rest)).headD NULLCH ≠ c := by
  rcases D.precisionText_head rest with ⟨_, _, hminus, hzero, hpercent⟩
  have hdigit : ∀ c ∈ ['-', '%'], ∀ ds, D.width = .literal ds → ds.head? ≠ some c := by
    intro c hc ds hds hhead
    have hok := D.widthOk
    rw [hds] at hok
    have hmem := hok.1 c (List.mem_of_head? hhead)
    simp only [List.mem_cons, List.not_mem_nil, or_false] at hc
    rcases hc with rfl | rfl
    · exact absurd hmem (by decide)
    · exact absurd hmem (by decide)
  rcases hc with hc | ⟨hno, rfl⟩
  · have hdigit := hdigit c hc
    simp only [List.mem_cons, List.not_mem_nil, or_false] at hc
    rcases hc with rfl | rfl
    · exact Amount.headD_ne D.widthOk (by decide) hdigit hminus
    · exact Amount.headD_ne D.widthOk (by decide) hdigit hpercent
  · exact Amount.headD_ne D.widthOk (by decide) (D.flag hno) hzero

/-- A directive is not for a percent sign. -/
theorem text_head (rest : List Char) : (D.text.tail ++ rest).headD NULLCH ≠ '%' := by
  unfold text
  rw [List.tail_cons, List.append_assoc, List.append_assoc, List.append_assoc]
  cases D.minus with
  | true => exact (by decide : '-' ≠ '%')
  | false =>
      cases D.zero with
      | true => exact (by decide : '0' ≠ '%')
      | false => exact D.width_head rest (Or.inl (List.mem_cons_of_mem _ List.mem_cons_self))

/-- What the formatter reads of a directive. -/
theorem readSpec_eq (v : UInt32) (rest : List Char) (ap : VaList) :
    readSpec (D.text.tail ++ rest) (D.push v ap) =
      { leftjust := D.minus, fill := D.fill, fmin := D.width.value, fmax := D.fmax,
        fmt := D.conv.char :: rest, ap := ap.cons v } := by
  rcases D.conv_char with ⟨hdigit, hstar, hdot, _⟩
  rcases D.precisionText_head rest with ⟨hpdigit, hpstar, _, _, _⟩
  have htext : D.text.tail ++ rest = (if D.minus then ['-'] else []) ++
      ((if D.zero then ['0'] else []) ++ (D.width.text ++ (D.precisionText ++ rest))) := by
    unfold text
    rw [List.tail_cons, List.append_assoc, List.append_assoc, List.append_assoc]
  have hminus : skip '-' (D.text.tail ++ rest) = (D.minus,
      (if D.zero then ['0'] else []) ++ (D.width.text ++ (D.precisionText ++ rest))) := by
    rw [htext]
    apply skip_flag
    intro _
    cases hzero : D.zero with
    | true => exact (by decide : '0' ≠ '-')
    | false => exact D.width_head rest (Or.inl List.mem_cons_self)
  have hzero : skip '0' ((if D.zero then ['0'] else []) ++
      (D.width.text ++ (D.precisionText ++ rest))) =
        (D.zero, D.width.text ++ (D.precisionText ++ rest)) :=
    skip_flag '0' D.zero fun hno => D.width_head rest (Or.inr ⟨hno, rfl⟩)
  have hwidth := fun ap => Amount.fieldNumber_eq D.widthOk hpdigit hpstar ap
  unfold readSpec push
  rw [hminus]
  dsimp only
  rw [hzero]
  dsimp only
  rw [hwidth]
  dsimp only
  unfold precisionText fmax fill
  cases hprec : D.precision with
  | none =>
      dsimp only
      rw [List.singleton_append, skip_neg (show (D.conv.char :: rest).headD NULLCH ≠ '.' from hdot)]
      rfl
  | some a =>
      have hrest : (D.conv.char :: rest).headD NULLCH = D.conv.char := rfl
      have ha := D.precisionOk a hprec
      have hskip : ∀ fmt, skip '.' ('.' :: fmt) = (true, fmt) := fun fmt => skip_pos rfl
      dsimp only
      rw [List.cons_append, hskip, List.append_assoc, List.singleton_append]
      dsimp only
      rw [if_pos rfl, Amount.fieldNumber_eq ha (hrest ▸ hdigit) (hrest ▸ hstar)]

/-- The field of a number. -/
def field (v : UInt32) (string : List Char) (ap : VaList) : Field :=
  Field.inString (D.conv.bytes v) string (D.conv.value v < 0) D.fill
    (if D.conv = .d then D.fmax else 0) ap

theorem doprntCase_eq (strAt : UInt32 → List Char) (v : UInt32) (rest string : List Char)
    (ap : VaList) :
    doprntCase strAt D.conv.char
      { leftjust := D.minus, fill := D.fill, fmin := D.width.value, fmax := D.fmax,
        fmt := D.conv.char :: rest, ap := ap.cons v } string = ([], D.field v string ap) := by
  have hsign : ∀ k : NumberConv, k ≠ .d → decide (k.value v < 0) = false := fun k hk =>
    decide_eq_false (Int.not_lt.mpr (k.value_nonneg v hk))
  unfold field
  cases D.conv with
  | d => rfl
  | u =>
      rw [hsign .u (by decide)]
      rfl
  | o =>
      rw [hsign .o (by decide)]
      rfl
  | x =>
      rw [hsign .x (by decide)]
      rfl
  | X =>
      rw [hsign .X (by decide)]
      rfl
  | b =>
      rw [hsign .b (by decide)]
      rfl

/-- What is put out for a directive. -/
def emitted (v : UInt32) : List Char :=
  showField id D.minus D.width.value (D.field v [] fun _ => 0)

/-- How many digits are shown, and with how many fill characters. -/
def measured (v : UInt32) : Nat × Int :=
  measure (cstring (D.conv.bytes v)).length D.width.value (if D.conv = .d then D.fmax else 0)
    (D.conv.value v < 0)

theorem emitted_eq (v : UInt32) : D.emitted v =
    (if D.conv.value v < 0 ∧ D.zero then ['-'] else []) ++
      (if D.minus then [] else List.replicate (D.measured v).2.toNat D.fill) ++
      (if D.conv.value v < 0 ∧ ¬D.zero then ['-'] else []) ++
      (cstring (D.conv.bytes v)).take (D.measured v).1 ++
      (if D.minus then List.replicate (D.measured v).2.toNat D.fill else []) := by
  have hstr : cstring (D.field v [] fun _ => 0).str = cstring (D.conv.bytes v) :=
    cstring_overlay (D.conv.null_mem_bytes v)
  have hfill : (D.fill = '0' ↔ D.zero = true) ∧ (D.fill = ' ' ↔ ¬D.zero = true) := by
    unfold fill
    cases D.zero
    all_goals decide
  have hfield : (D.field v [] fun _ => 0).fill = D.fill ∧
      ((D.field v [] fun _ => 0).sign = true ↔ D.conv.value v < 0) := ⟨rfl, decide_eq_true_iff⟩
  unfold emitted showField
  dsimp only
  rw [hstr, List.map_id, hfield.1]
  simp only [hfield.2, hfill.1, hfill.2]
  rfl

/-- In every format, the characters of a directive are put out before those of the rest. -/
theorem doprnt_directive (strAt : UInt32 → List Char) (v : UInt32) (rest : List Char) (ap : VaList)
    (string : List Char) :
    doprnt strAt (D.text ++ rest) (D.push v ap) string =
      (D.emitted v ++ (doprnt strAt rest ap (overlay (D.conv.bytes v) string)).1,
        (doprnt strAt rest ap (overlay (D.conv.bytes v) string)).2) := by
  rcases D.conv_char with ⟨_, _, _, _, _, hnull, _⟩
  have htext : D.text ++ rest = '%' :: (D.text.tail ++ rest) := rfl
  have hshow : showField id D.minus D.width.value (D.field v string ap) = D.emitted v := by
    have hsame : Field.Same { D.field v [] fun _ => 0 with ap := ap } (D.field v string ap) :=
      ⟨(cstring_overlay (D.conv.null_mem_bytes v)).trans
        (cstring_overlay (D.conv.null_mem_bytes v)).symm, rfl, rfl, rfl, rfl⟩
    have hmap := showField_map (id : Char → Char) D.minus D.width.value hsame
    rw [List.map_id] at hmap
    exact hmap
  rw [htext, doprnt, if_neg (not_not_intro rfl), if_neg (D.text_head rest), D.readSpec_eq]
  refine (if_neg hnull).trans ?_
  dsimp only [List.headD_cons, List.tail_cons]
  rw [D.doprntCase_eq]
  dsimp only
  rw [hshow]
  rfl

end Directive

/-!
## Numbers without a width
-/

namespace NumberConv

/-- The directive with nothing between the percent sign and the format character. -/
def bare (k : NumberConv) : Directive where
  minus := false
  zero := false
  width := .literal []
  precision := none
  conv := k
  widthOk := ⟨fun c hc => absurd hc List.not_mem_nil, by decide⟩
  precisionOk := Amount.none_wellFormed
  flag := fun _ ds hds => by
    cases hds
    exact Option.some_ne_none _ |>.symm

/-- The conversion puts out the plain representation, whatever comes before and behind it,
and the array keeps its length. -/
def Exact (k : NumberConv) (v : UInt32) : Prop :=
  ∀ (strAt : UInt32 → List Char) (rest : List Char) (ap : VaList) (string : List Char),
    string.length = 20 → ∃ string', string'.length = 20 ∧
      doprnt strAt ('%' :: k.char :: rest) (ap.cons v) string =
        (k.plain v ++ (doprnt strAt rest ap string').1, (doprnt strAt rest ap string').2)

variable (k : NumberConv) (v : UInt32)

theorem bare_emitted : k.bare.emitted v =
    (if k.value v < 0 then ['-'] else []) ++ cstring (k.bytes v) := by
  have hmeasured : k.bare.measured v = ((cstring (k.bytes v)).length, 0) := by
    unfold Directive.measured measure
    have hmax : (if k.bare.conv = .d then k.bare.fmax else 0) = 0 := ite_self 0
    rw [hmax]
    rfl
  rw [k.bare.emitted_eq, hmeasured]
  have hfalse : ¬(k.value v < 0 ∧ false = true) := fun h => Bool.false_ne_true h.2
  have htrue : (k.value v < 0 ∧ ¬false = true) ↔ k.value v < 0 :=
    and_iff_left Bool.false_ne_true
  change (if k.value v < 0 ∧ false = true then ['-'] else []) ++ [] ++
    (if k.value v < 0 ∧ ¬false = true then ['-'] else []) ++
      (cstring (k.bytes v)).take (cstring (k.bytes v)).length ++ [] = _
  rw [if_neg hfalse, if_congr htrue rfl rfl, List.take_length, List.append_nil]
  rfl

/-- In the plain representation there are no other characters than a sign and digits. -/
theorem mem_plain {c : Char} (h : c ∈ k.plain v) : c = '-' ∨ ∃ n < 16, c = k.digit n := by
  rcases List.mem_append.mp h with hsign | hdigit
  · by_cases hneg : k.value v < 0
    · rw [if_pos hneg] at hsign
      exact Or.inl (List.mem_singleton.mp hsign)
    · rw [if_neg hneg] at hsign
      cases hsign
  · rcases List.mem_map.mp hdigit with ⟨n, hn, rfl⟩
    exact Or.inr ⟨n, (mem_inBase_lt k.one_lt_base hn).trans_le k.base_le, rfl⟩

theorem doprnt_nil (strAt : UInt32 → List Char) (ap : VaList) (string : List Char) :
    doprnt strAt [] ap string = ([], string) := by
  rw [doprnt]

/-- The conversion alone. -/
theorem Exact.alone {k : NumberConv} {v : UInt32} (h : k.Exact v) :
    k.bare.emitted v = k.plain v ∧ (k.bytes v).length ≤ 20 := by
  rcases h (fun _ => []) [] (fun _ => 0) (List.replicate 20 NULLCH) List.length_replicate with
    ⟨string', hlen, heq⟩
  have hdirective := k.bare.doprnt_directive (fun _ => []) v [] (fun _ => 0)
    (List.replicate 20 NULLCH)
  rw [show doprnt _ ['%', k.char] (VaList.cons v fun _ => 0) _ = _ from hdirective, doprnt_nil,
    doprnt_nil] at heq
  simp only [List.append_nil, Prod.mk.injEq] at heq
  refine ⟨heq.1, ?_⟩
  rw [← heq.2] at hlen
  unfold overlay at hlen
  rw [List.length_append] at hlen
  exact le_trans (Nat.le_add_right _ _) hlen.le

theorem natAbs_value_lt : (k.value v).natAbs < 4294967296 := by
  have hlt := v.toNat_lt
  have hword := int32_natCast hlt
  cases k with
  | d =>
      change (int32 v.toNat).natAbs < _
      omega
  | u => exact hlt
  | o => exact hlt
  | x => exact hlt
  | X => exact hlt
  | b => exact hlt

/-- The length of what is put into the array, with its null character. -/
theorem bytes_length_le_iff (h : ¬k.Overflows v) :
    (k.bytes v).length ≤ 20 ↔ ¬(k = .b ∧ 524288 ≤ v.toNat) := by
  have habs := k.natAbs_value_lt v
  rw [k.bytes_eq v h, List.length_append, List.length_map, List.length_singleton]
  rw [show (inBase k.base (k.value v).natAbs).length + 1 ≤ 20 ↔
      (inBase k.base (k.value v).natAbs).length ≤ 19 from Nat.add_le_add_iff_right]
  rw [inBase_length_le_iff k.one_lt_base (by decide)]
  cases k with
  | b =>
      have hbinary : (NumberConv.b = .b ∧ 524288 ≤ v.toNat) ↔ 524288 ≤ v.toNat := and_iff_right rfl
      rw [hbinary, Nat.not_le]
      exact Iff.rfl
  | d => exact iff_of_true (habs.trans (by decide)) fun hb => by cases hb.1
  | u => exact iff_of_true (habs.trans (by decide)) fun hb => by cases hb.1
  | o => exact iff_of_true (habs.trans (by decide)) fun hb => by cases hb.1
  | x => exact iff_of_true (habs.trans (by decide)) fun hb => by cases hb.1
  | X => exact iff_of_true (habs.trans (by decide)) fun hb => by cases hb.1

theorem Exact.not_overflows {k : NumberConv} {v : UInt32} (h : k.Exact v) : ¬k.Overflows v := by
  intro hover
  have halone := h.alone.1
  have hdot : '.' ∈ k.plain v := by
    rw [← halone, bare_emitted, k.bytes_overflow v hover]
    exact List.mem_append_right _ (by decide)
  have hno : ∀ n < 16, '.' ≠ Nat.digitChar n := by decide
  rcases k.mem_plain v hdot with hsign | ⟨n, hn, hdigit⟩
  · cases hsign
  · rw [hover.1] at hdigit
    exact hno n hn hdigit

theorem exact_of_fits (h : ¬k.Overflows v) (hlen : (k.bytes v).length ≤ 20) : k.Exact v := by
  intro strAt rest ap string hstring
  refine ⟨overlay (k.bytes v) string, ?_, ?_⟩
  · unfold overlay
    rw [List.length_append, List.length_drop, hstring]
    omega
  · have hplain : k.bare.emitted v = k.plain v := by
      rw [bare_emitted, k.cstring_bytes v h]
      rfl
    rw [← hplain]
    exact k.bare.doprnt_directive strAt v rest ap string

/-- A conversion is right, and keeps within the array, but for one decimal number and for
binary numbers of twenty digits or more. -/
theorem exact_iff : k.Exact v ↔ ¬k.Overflows v ∧ ¬(k = .b ∧ 524288 ≤ v.toNat) := by
  constructor
  · intro h
    exact ⟨h.not_overflows, (k.bytes_length_le_iff v h.not_overflows).mp h.alone.2⟩
  · rintro ⟨hover, hbinary⟩
    exact k.exact_of_fits v hover ((k.bytes_length_le_iff v hover).mpr hbinary)

theorem not_exact_smallest : ¬∀ (k : NumberConv) (v : UInt32), k.Exact v := by
  intro hall
  exact (hall .d 2147483648).not_overflows ⟨rfl, rfl⟩

end NumberConv

end Stdio
end BbbXinu
