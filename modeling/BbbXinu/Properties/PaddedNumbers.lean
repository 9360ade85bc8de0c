import BbbXinu.Properties.PrintedNumbers
import Mathlib.Data.List.TakeWhile

/-!
# Numbers in a field

A number that is put out is read back.  Blanks do not matter, and zeros in front do not,
but zeros behind the digits do, and so do digits that a precision takes away.
-/

namespace BbbXinu
namespace Stdio

open Positional

/-!
## Reading a number
-/

def digitValue (c : Char) : Option Nat :=
  if '0' ≤ c ∧ c ≤ '9' then some (c.toNat - '0'.toNat)
  else if 'a' ≤ c ∧ c ≤ 'f' then some (c.toNat - 'a'.toNat + 10)
  else if 'A' ≤ c ∧ c ≤ 'F' then some (c.toNat - 'A'.toNat + 10)
  else none

/-- The number that some digits stand for. -/
def readNatural (b : Nat) (s : List Char) : Option Nat :=
  match s.mapM digitValue with
  | some ds => if ds ≠ [] ∧ ∀ d ∈ ds, d < b then some (value b ds) else none
  | none => none

def trimFront (s : List Char) : List Char := s.dropWhile fun c => c = ' '

/-- The text without the blanks around it. -/
def trim (s : List Char) : List Char := (trimFront (trimFront s).reverse).reverse

/-- The number that a text stands for. -/
def readBack (b : Nat) (s : List Char) : Option Int :=
  match trim s with
  | '-' :: t => (readNatural b t).map fun n : Nat => -(n : Int)
  | t => (readNatural b t).map fun n : Nat => (n : Int)

section ReadBack

variable {b : Nat} {chr : Nat → Char} {ds : List Nat} {s t : List Char}

theorem digitValue_digit (k : NumberConv) : ∀ n < 16, digitValue (k.digit n) = some n := by
  cases k
  all_goals decide

theorem mapM_digitValue (h : ∀ d ∈ ds, digitValue (chr d) = some d) :
    (ds.map chr).mapM digitValue = some ds := by
  induction ds with
  | nil => rfl
  | cons d ds ih =>
      rw [List.map_cons, List.mapM_cons, h d List.mem_cons_self,
        ih fun e he => h e (List.mem_cons_of_mem d he)]
      rfl

theorem trimFront_blanks (n : Nat) (s : List Char) :
    trimFront (List.replicate n ' ' ++ s) = trimFront s := by
  unfold trimFront
  apply List.dropWhile_append_of_pos
  intro c hc
  rw [List.eq_of_mem_replicate hc]
  rfl

theorem trimFront_eq (h : s.head? ≠ some ' ') : trimFront s = s := by
  cases s with
  | nil => rfl
  | cons c s =>
      have hc : ¬decide (c = ' ') = true := by
        rw [decide_eq_true_iff]
        rintro rfl
        exact h rfl
      exact List.dropWhile_cons_of_neg hc

/-- Only blanks are taken off. -/
theorem trim_blanks (i j : Nat) (hhead : s.head? ≠ some ' ') (hlast : s.getLast? ≠ some ' ')
    (hne : s ≠ []) : trim (List.replicate i ' ' ++ s ++ List.replicate j ' ') = s := by
  have hfront : trimFront (s ++ List.replicate j ' ') = s ++ List.replicate j ' ' := by
    apply trimFront_eq
    rw [List.head?_append_of_ne_nil s hne]
    exact hhead
  unfold trim
  rw [List.append_assoc, trimFront_blanks, hfront, List.reverse_append, List.reverse_replicate,
    trimFront_blanks, trimFront_eq, List.reverse_reverse]
  rw [List.head?_reverse]
  exact hlast

theorem readNatural_map (h : ∀ d ∈ ds, digitValue (chr d) = some d) (hne : ds ≠ [])
    (hlt : ∀ d ∈ ds, d < b) : readNatural b (ds.map chr) = some (value b ds) := by
  unfold readNatural
  rw [mapM_digitValue h]
  exact if_pos ⟨hne, hlt⟩

/-- A text with a sign, digits and blanks around them is read as it stands. -/
theorem readBack_eq (i j : Nat) (neg : Bool) (h : ∀ d ∈ ds, digitValue (chr d) = some d)
    (hne : ds ≠ []) (hlt : ∀ d ∈ ds, d < b) :
    readBack b (List.replicate i ' ' ++ ((if neg then ['-'] else []) ++ ds.map chr) ++
      List.replicate j ' ') =
        some (if neg then -(value b ds : Int) else (value b ds : Int)) := by
  have hdigit : ∀ c ∈ ds.map chr, c ≠ ' ' ∧ c ≠ '-' := by
    intro c hc
    rcases List.mem_map.mp hc with ⟨d, hd, rfl⟩
    have hsome := h d hd
    constructor
    · intro hblank
      rw [hblank] at hsome
      cases hsome
    · intro hminus
      rw [hminus] at hsome
      cases hsome
  have hmap : ds.map chr ≠ [] := List.map_eq_nil_iff.not.mpr hne
  have hlast : ((if neg then ['-'] else []) ++ ds.map chr).getLast? ≠ some ' ' := by
    rw [List.getLast?_append_of_ne_nil _ hmap]
    intro hget
    exact (hdigit ' ' (List.mem_of_getLast? hget)).1 rfl
  have hhead : ((if neg then ['-'] else []) ++ ds.map chr).head? ≠ some ' ' := by
    cases neg with
    | true => exact (by decide : some '-' ≠ some ' ')
    | false =>
        intro hget
        exact (hdigit ' ' (List.mem_of_head? hget)).1 rfl
  unfold readBack
  rw [trim_blanks i j hhead hlast (List.append_ne_nil_of_right_ne_nil _ hmap)]
  have hread := readNatural_map h hne hlt
  cases neg with
  | true =>
      change (readNatural b (ds.map chr)).map _ = _
      rw [hread]
      rfl
  | false =>
      change (match ds.map chr with
        | '-' :: t => (readNatural b t).map fun n : Nat => -(n : Int)
        | t => (readNatural b t).map fun n : Nat => (n : Int)) = _
      split
      · rename_i t heq
        exact absurd rfl (hdigit '-' (heq ▸ List.mem_cons_self)).2
      · rw [hread]
        rfl

theorem mem_trimFront {c : Char} (hc : c ∈ s) : c = ' ' ∨ c ∈ trimFront s := by
  rw [← List.takeWhile_append_dropWhile (p := fun c => decide (c = ' ')) (l := s)] at hc
  rcases List.mem_append.mp hc with hblank | hrest
  · have hc := List.mem_takeWhile_imp (p := fun c => decide (c = ' ')) hblank
    exact Or.inl (of_decide_eq_true hc)
  · exact Or.inr hrest

theorem mem_trim {c : Char} (hc : c ∈ s) : c = ' ' ∨ c ∈ trim s := by
  rcases mem_trimFront hc with hblank | hfront
  · exact Or.inl hblank
  · rcases mem_trimFront (List.mem_reverse.mpr hfront) with hblank | hback
    · exact Or.inl hblank
    · exact Or.inr (List.mem_reverse.mpr hback)

theorem isSome_of_readNatural {n : Nat} (h : readNatural b s = some n) {c : Char} (hc : c ∈ s) :
    (digitValue c).isSome := by
  unfold readNatural at h
  cases hm : s.mapM digitValue with
  | none =>
      rw [hm] at h
      cases h
  | some ds =>
      clear h
      induction s generalizing ds with
      | nil => cases hc
      | cons e s ih =>
          rw [List.mapM_cons] at hm
          rcases Option.bind_eq_some_iff.mp hm with ⟨d, hd, hrest⟩
          rcases Option.bind_eq_some_iff.mp hrest with ⟨ds', hds, _⟩
          rcases List.mem_cons.mp hc with rfl | hin
          · exact Option.isSome_of_eq_some hd
          · exact ih hin ds' hds

/-- A text that is read has no other characters than blanks, a sign and digits. -/
theorem mem_of_readBack {z : Int} (h : readBack b s = some z) {c : Char} (hc : c ∈ s) :
    c = ' ' ∨ c = '-' ∨ (digitValue c).isSome := by
  rcases mem_trim hc with hblank | hin
  · exact Or.inl hblank
  · right
    unfold readBack at h
    split at h
    · rename_i t ht
      rw [ht] at hin
      rcases Option.map_eq_some_iff.mp h with ⟨n, hn, _⟩
      rcases List.mem_cons.mp hin with hminus | hdigit
      · exact Or.inl hminus
      · exact Or.inr (isSome_of_readNatural hn hdigit)
    · rcases Option.map_eq_some_iff.mp h with ⟨n, hn, _⟩
      exact Or.inr (isSome_of_readNatural hn hin)

end ReadBack

/-!
## Lengths
-/

section Measure

variable {n : Nat} {fmin fmax : Int} {sign : Bool}

/-- The digits that are shown. -/
theorem measure_fst : (measure n fmin fmax sign).1 =
    n - if 1 ≤ fmax ∧ fmax ≤ MAXSTR then n - fmax.toNat else 0 := by
  unfold measure checkBound MAXSTR
  dsimp only
  by_cases hmax : 80 < fmax ∨ fmax < 0
  · have hno : ¬(1 ≤ fmax ∧ fmax ≤ 80) := by omega
    rw [if_pos hmax, if_neg hno, if_neg fun h => h.1 rfl]
    rfl
  · rw [if_neg hmax]
    by_cases hcut : fmax ≠ 0 ∧ fmax < n
    · have hyes : 1 ≤ fmax ∧ fmax ≤ 80 := by omega
      rw [if_pos hcut, if_pos hyes]
      omega
    · rw [if_neg hcut]
      split
      · omega
      · omega

/-- The number of fill characters. -/
theorem measure_snd : (measure n fmin fmax sign).2.toNat =
    if 0 ≤ fmin ∧ fmin ≤ MAXSTR then
      (fmin - (measure n fmin fmax sign).1 - (if sign then 1 else 0)).toNat
    else 0 := by
  have hfst : (measure n fmin fmax sign).2 =
      if (checkBound fmax ≠ 0 ∨ checkBound fmin ≠ 0) ∧ sign then
        (if checkBound fmin ≠ 0 then checkBound fmin - (measure n fmin fmax sign).1 else 0) - 1
      else if checkBound fmin ≠ 0 then checkBound fmin - (measure n fmin fmax sign).1 else 0 := rfl
  rw [hfst]
  generalize (measure n fmin fmax sign).1 = shown
  generalize checkBound fmax = limit
  have hmin : checkBound fmin = if 0 ≤ fmin ∧ fmin ≤ 80 then fmin else 0 := by
    unfold checkBound MAXSTR
    split
    · rw [if_neg (by omega)]
    · rw [if_pos (by omega)]
  unfold MAXSTR
  rw [hmin]
  by_cases hbound : 0 ≤ fmin ∧ fmin ≤ 80
  · rw [if_pos hbound, if_pos hbound]
    by_cases hzero : fmin = 0
    · rw [if_neg (not_not_intro hzero)]
      split
      · omega
      · omega
    · rw [if_pos hzero]
      cases sign with
      | true =>
          rw [if_pos ⟨Or.inr hzero, rfl⟩, if_pos rfl]
      | false =>
          rw [if_neg fun h => Bool.false_ne_true h.2, if_neg Bool.false_ne_true, Int.sub_zero]
  · rw [if_neg hbound, if_neg hbound, if_neg (not_not_intro rfl)]
    split
    · rfl
    · rfl

end Measure

/-!
## The field
-/

/-- A directive for a decimal, octal or hexadecimal number. -/
structure IntegerDirective extends Directive where
  notBinary : conv ≠ .b

namespace IntegerDirective

variable (D : IntegerDirective) (v : UInt32)

/-- The text that is put out in every format stands for the value, and its length is that of
the plain representation or the width, whichever is larger. -/
def KeepsNumber : Prop :=
  ∃ T : List Char,
    (∀ (strAt : UInt32 → List Char) (rest : List Char) (ap : VaList) (string : List Char),
      string.length = 20 → ∃ string', doprnt strAt (D.text ++ rest) (D.push v ap) string =
        (T ++ (doprnt strAt rest ap string').1, (doprnt strAt rest ap string').2)) ∧
    readBack D.conv.base T = some (D.conv.value v) ∧
    (T.length : Int) = max (min D.width.value MAXSTR) (D.conv.plain v).length

/-- The digits of the number. -/
def digits : List Nat := inBase D.conv.base (D.conv.value v).natAbs

/-- How many digits the precision takes away. -/
def cut : Nat :=
  if D.conv = .d ∧ 1 ≤ D.fmax ∧ D.fmax ≤ MAXSTR then (D.digits v).length - D.fmax.toNat else 0

/-- How many zeros are put behind the digits. -/
def appended : Nat :=
  if D.minus ∧ D.zero then
    (D.width.value - ((D.digits v).length - D.cut v : Nat) -
      (if D.conv.value v < 0 then 1 else 0)).toNat
  else 0

theorem keepsNumber_iff_emitted : D.KeepsNumber v ↔
    readBack D.conv.base (D.emitted v) = some (D.conv.value v) ∧
      ((D.emitted v).length : Int) =
        max (min D.width.value MAXSTR) (D.conv.plain v).length := by
  constructor
  · rintro ⟨T, hemits, hread⟩
    rcases hemits (fun _ => []) [] (fun _ => 0) (List.replicate 20 NULLCH) List.length_replicate with
      ⟨string', hT⟩
    rw [D.doprnt_directive, NumberConv.doprnt_nil, NumberConv.doprnt_nil, List.append_nil,
      List.append_nil] at hT
    have hfst : D.emitted v = T := congrArg Prod.fst hT
    rw [hfst]
    exact hread
  · intro hread
    exact ⟨D.emitted v, fun strAt rest ap string _ =>
      ⟨_, D.doprnt_directive strAt v rest ap string⟩, hread⟩

/-!
## What is put out
-/

theorem digits_length_pos : 0 < (D.digits v).length := inBase_length_pos _ _

theorem cut_lt : D.cut v < (D.digits v).length := by
  have hpos := D.digits_length_pos v
  unfold cut
  split
  · omega
  · exact hpos

section Text

variable {D v}

theorem measured_fst (h : ¬D.conv.Overflows v) :
    (D.measured v).1 = (D.digits v).length - D.cut v := by
  have hlen : (cstring (D.conv.bytes v)).length = (D.digits v).length := by
    rw [D.conv.cstring_bytes v h, List.length_map]
    rfl
  unfold Directive.measured
  rw [measure_fst, hlen]
  unfold cut
  by_cases hd : D.conv = .d
  · rw [if_pos hd, if_congr (and_iff_right hd).symm rfl rfl]
  · have hzero : ¬((1 : Int) ≤ 0 ∧ (0 : Int) ≤ MAXSTR) := by decide
    rw [if_neg hd, if_neg hzero, if_neg fun h => hd h.1]

/-- Blanks, the sign, zeros and digits, and zeros or blanks. -/
theorem exists_parts (h : ¬D.conv.Overflows v) : ∃ i j z : Nat, ∃ z' : Nat,
    D.emitted v = List.replicate i ' ' ++
        ((if decide (D.conv.value v < 0) then ['-'] else []) ++
          (List.replicate z 0 ++ (D.digits v).take ((D.digits v).length - D.cut v) ++
            List.replicate z' 0).map D.conv.digit) ++ List.replicate j ' ' ∧
      i + j + z + z' = (D.measured v).2.toNat ∧
      z' = if D.minus ∧ D.zero then (D.measured v).2.toNat else 0 := by
  have hfill : D.fill = if D.zero then D.conv.digit 0 else ' ' := by
    unfold Directive.fill
    have hdigit : D.conv.digit 0 = '0' := by
      cases D.conv
      all_goals rfl
    rw [hdigit]
  have hsign : (if decide (D.conv.value v < 0) = true then ['-'] else []) =
      if D.conv.value v < 0 then ['-'] else [] := if_congr decide_eq_true_iff rfl rfl
  rw [D.emitted_eq, measured_fst h, D.conv.cstring_bytes v h, ← List.map_take, hfill, hsign]
  generalize (D.measured v).2.toNat = lead
  change ∃ i j z z' : Nat, (if D.conv.value v < 0 ∧ D.zero then ['-'] else []) ++
      (if D.minus then [] else List.replicate lead (if D.zero then D.conv.digit 0 else ' ')) ++
      (if D.conv.value v < 0 ∧ ¬D.zero then ['-'] else []) ++
      ((D.digits v).take ((D.digits v).length - D.cut v)).map D.conv.digit ++
      (if D.minus then List.replicate lead (if D.zero then D.conv.digit 0 else ' ') else []) = _ ∧ _
  generalize (D.digits v).take ((D.digits v).length - D.cut v) = ds
  cases hzero : D.zero with
  | true =>
      cases hminus : D.minus with
      | true => exact ⟨0, 0, 0, lead, by simp, by simp, by simp⟩
      | false => exact ⟨0, 0, lead, 0, by simp, by simp, by simp⟩
  | false =>
      cases hminus : D.minus with
      | true => exact ⟨0, lead, 0, 0, by simp, by simp, by simp⟩
      | false => exact ⟨lead, 0, 0, 0, by simp, by simp, by simp⟩

/-- What is read back, and how long the text is. -/
theorem emitted_spec (h : ¬D.conv.Overflows v) : ∃ z' : Nat,
    readBack D.conv.base (D.emitted v) =
        some (if D.conv.value v < 0 then
          -(((D.conv.value v).natAbs / D.conv.base ^ D.cut v * D.conv.base ^ z' : Nat) : Int)
        else ((D.conv.value v).natAbs / D.conv.base ^ D.cut v * D.conv.base ^ z' : Nat)) ∧
      (D.emitted v).length = (if D.conv.value v < 0 then 1 else 0) +
        ((D.digits v).length - D.cut v) + (D.measured v).2.toNat ∧
      z' = if D.minus ∧ D.zero then (D.measured v).2.toNat else 0 := by
  rcases exists_parts h with ⟨i, j, z, z', hemitted, hsum, hz'⟩
  have hbase := D.conv.one_lt_base
  have hle := D.conv.base_le
  have hcut := D.cut_lt v
  have hvalue : value D.conv.base ((D.digits v).take ((D.digits v).length - D.cut v)) =
      (D.conv.value v).natAbs / D.conv.base ^ D.cut v := value_take hbase hcut
  have htake : (D.digits v).take ((D.digits v).length - D.cut v) ≠ [] := by
    apply List.ne_nil_of_length_pos
    rw [List.length_take]
    omega
  have hdigits : ∀ d ∈ List.replicate z 0 ++
      (D.digits v).take ((D.digits v).length - D.cut v) ++ List.replicate z' 0,
        d < D.conv.base := by
    intro d hd
    rcases List.mem_append.mp hd with hd | hd
    · rcases List.mem_append.mp hd with hd | hd
      · rw [List.eq_of_mem_replicate hd]
        omega
      · exact mem_inBase_lt hbase (List.mem_of_mem_take hd)
    · rw [List.eq_of_mem_replicate hd]
      omega
  refine ⟨z', ?_, ?_, hz'⟩
  · rw [hemitted, readBack_eq i j _ (fun d hd =>
      digitValue_digit D.conv d ((hdigits d hd).trans_le hle)) ?_ hdigits, value_zeros, hvalue]
    · exact congrArg some (if_congr decide_eq_true_iff rfl rfl)
    · exact List.append_ne_nil_of_left_ne_nil (List.append_ne_nil_of_right_ne_nil _ htake) _
  · have hsign : (if decide (D.conv.value v < 0) = true then ['-'] else []).length =
        if D.conv.value v < 0 then 1 else 0 := by
      rw [apply_ite List.length]
      exact if_congr decide_eq_true_iff rfl rfl
    rw [hemitted]
    simp only [List.length_append, List.length_map, List.length_replicate, List.length_take, hsign]
    omega

/-- A number has at most eleven digits. -/
theorem digits_length_le (D : IntegerDirective) (v : UInt32) : (D.digits v).length ≤ 11 := by
  have hlt := v.toNat_lt
  have habs := D.conv.natAbs_value_lt v
  apply (inBase_length_le_iff D.conv.one_lt_base (by decide)).mpr
  have hbase : 8 ≤ D.conv.base := by
    have hno := D.notBinary
    cases hconv : D.conv with
    | b => exact absurd hconv hno
    | d => decide
    | u => decide
    | o => decide
    | x => decide
    | X => decide
  exact (habs.trans (by decide : 4294967296 < 8 ^ 11)).trans_le (Nat.pow_le_pow_left hbase 11)

theorem pow_cut_le (h : D.conv.value v ≠ 0) :
    D.conv.base ^ D.cut v ≤ (D.conv.value v).natAbs := by
  have hcut := D.cut_lt v
  by_contra hlt
  cases hzero : D.cut v with
  | zero =>
      rw [hzero, Nat.pow_zero] at hlt
      omega
  | succ n =>
      have hle := (inBase_length_le_iff (v := (D.conv.value v).natAbs) D.conv.one_lt_base
        (Nat.succ_pos n)).mpr (by rw [hzero] at hlt; exact Nat.not_le.mp hlt)
      have hlen : (D.digits v).length ≤ n + 1 := hle
      omega

theorem plain_length (D : IntegerDirective) (v : UInt32) :
    (D.conv.plain v).length = (if D.conv.value v < 0 then 1 else 0) + (D.digits v).length := by
  unfold NumberConv.plain
  rw [List.length_append, List.length_map, apply_ite List.length]
  rfl

/-- How many characters fill the field. -/
theorem lead_eq (h : ¬D.conv.Overflows v) : (D.measured v).2.toNat =
    if 0 ≤ D.width.value ∧ D.width.value ≤ MAXSTR then
      (D.width.value - ((D.digits v).length - D.cut v : Nat) -
        (if D.conv.value v < 0 then 1 else 0)).toNat
    else 0 := by
  have hsign : (if decide (D.conv.value v < 0) = true then (1 : Int) else 0) =
      if D.conv.value v < 0 then 1 else 0 := if_congr decide_eq_true_iff rfl rfl
  have hlead : (D.measured v).2.toNat =
      if 0 ≤ D.width.value ∧ D.width.value ≤ MAXSTR then
        (D.width.value - (D.measured v).1 - (if decide (D.conv.value v < 0) then 1 else 0)).toNat
      else 0 := measure_snd
  rw [hlead, measured_fst h, hsign]

/-- The text is filled up to the width from what is shown, or there is more than that. -/
theorem lead_eq_max (h : ¬D.conv.Overflows v) (hwidth : D.width.value ≤ MAXSTR) :
    ((D.measured v).2.toNat : Int) =
      max 0 (D.width.value - ((D.digits v).length - D.cut v : Nat) -
        (if D.conv.value v < 0 then 1 else 0)) := by
  have hsign : (0 : Int) ≤ if D.conv.value v < 0 then 1 else 0 := by
    split
    · decide
    · exact le_refl 0
  rw [lead_eq h]
  generalize (if D.conv.value v < 0 then (1 : Int) else 0) = sign at *
  split
  · exact (Int.toNat_eq_max _).trans (max_comm _ _)
  · rename_i hbound
    rw [max_eq_left (by omega)]
    rfl

/-- The zeros behind the digits fill the field. -/
theorem appended_eq (h : ¬D.conv.Overflows v) (hwidth : D.width.value ≤ MAXSTR) :
    (if D.minus ∧ D.zero then (D.measured v).2.toNat else 0) = D.appended v := by
  have hlead := lead_eq_max h hwidth
  unfold appended
  split
  · rw [← Int.toNat_natCast (D.measured v).2.toNat, hlead, max_comm, ← Int.toNat_eq_max,
      Int.toNat_natCast]
  · rfl

/-- The character that no number has is shown. -/
theorem readBack_overflow (h : D.conv.Overflows v) :
    readBack D.conv.base (D.emitted v) ≠ some (D.conv.value v) := by
  intro hread
  have hshown : (D.measured v).1 ≠ 0 := by
    unfold Directive.measured
    rw [measure_fst, D.conv.bytes_overflow v h]
    have hlen : (cstring ['.', '/', ',', ')', ',', '(', '-', '*', ',', '(', NULLCH]).length = 10 := by
      decide
    rw [hlen]
    generalize (if D.conv = .d then D.fmax else 0) = limit
    split
    · omega
    · omega
  have hmem : '.' ∈ D.emitted v := by
    have hfirst : cstring ['.', '/', ',', ')', ',', '(', '-', '*', ',', '(', NULLCH] =
        '.' :: ['/', ',', ')', ',', '(', '-', '*', ',', '('] := by decide
    rw [D.emitted_eq, D.conv.bytes_overflow v h, hfirst]
    cases hm : (D.measured v).1 with
    | zero => exact absurd hm hshown
    | succ m =>
        rw [List.take_succ_cons]
        exact List.mem_append_left _ (List.mem_append_right _ List.mem_cons_self)
  rcases mem_of_readBack hread hmem with hblank | hsign | hdigit
  · cases hblank
  · cases hsign
  · exact absurd hdigit (by decide)

/-- The number is read back if the zeros behind the digits stand for those cut off. -/
theorem number_kept_iff (h : ¬D.conv.Overflows v) (hwidth : D.width.value ≤ MAXSTR) :
    readBack D.conv.base (D.emitted v) = some (D.conv.value v) ↔
      (D.conv.value v).natAbs / D.conv.base ^ D.cut v * D.conv.base ^ D.appended v =
        (D.conv.value v).natAbs := by
  rcases emitted_spec h with ⟨z', hread, _, hz'⟩
  rw [← appended_eq h hwidth, ← hz', hread, Option.some_inj]
  split
  · omega
  · omega

/-- The lengths of the text and of the plain representation, with or without a sign. -/
theorem lengths (h : ¬D.conv.Overflows v) : ∃ sign : Nat, sign ≤ 1 ∧
    (if D.conv.value v < 0 then (1 : Int) else 0) = sign ∧
    (D.emitted v).length = sign + ((D.digits v).length - D.cut v) + (D.measured v).2.toNat ∧
    (D.conv.plain v).length = sign + (D.digits v).length := by
  rcases emitted_spec h with ⟨_, _, hlength, _⟩
  rw [hlength, plain_length]
  by_cases hneg : D.conv.value v < 0
  · rw [if_pos hneg, if_pos hneg]
    exact ⟨1, le_refl 1, rfl, rfl, rfl⟩
  · rw [if_neg hneg, if_neg hneg]
    exact ⟨0, Nat.zero_le 1, rfl, rfl, rfl⟩

/-- With a width that counts for none, the text would be too short. -/
theorem width_le_of_length (h : ¬D.conv.Overflows v)
    (hlen : ((D.emitted v).length : Int) =
      max (min D.width.value MAXSTR) (D.conv.plain v).length) : D.width.value ≤ MAXSTR := by
  rcases lengths h with ⟨sign, hsign, _, hemitted, _⟩
  have hdigits := digits_length_le D v
  by_contra hwide
  have hlead := lead_eq h
  rw [if_neg fun hbound => hwide hbound.2] at hlead
  rw [min_eq_right (Int.not_le.mp hwide).le, hemitted, hlead] at hlen
  unfold MAXSTR at hlen
  omega

/-- The text has its length if as many zeros are put behind the digits as are cut off. -/
theorem length_kept (h : ¬D.conv.Overflows v) (hwidth : D.width.value ≤ MAXSTR)
    (hzeros : D.conv.value v = 0 ∨ D.appended v = D.cut v) :
    ((D.emitted v).length : Int) = max (min D.width.value MAXSTR) (D.conv.plain v).length := by
  rcases lengths h with ⟨sign, _, hsign, hemitted, hplain⟩
  have hcut := D.cut_lt v
  have hlead := lead_eq_max h hwidth
  rw [hsign] at hlead
  rw [min_eq_left hwidth, hemitted, hplain]
  rcases hzeros with hzero | hsame
  · have hone : (D.digits v).length = 1 := by
      unfold digits
      rw [hzero]
      rfl
    omega
  · rw [← appended_eq h hwidth] at hsame
    by_cases hflags : D.minus ∧ D.zero
    · rw [if_pos hflags] at hsame
      omega
    · rw [if_neg hflags] at hsame
      omega

end Text

/-- A number keeps its value and its length if and only if it is not the one that has no
opposite, the width counts, and as many zeros are put behind its digits as the precision
takes zeros away. -/
theorem keepsNumber_iff : D.KeepsNumber v ↔
    ¬D.conv.Overflows v ∧ D.width.value ≤ MAXSTR ∧
      (D.conv.value v = 0 ∨
        D.appended v = D.cut v ∧ D.conv.base ^ D.cut v ∣ (D.conv.value v).natAbs) := by
  rw [keepsNumber_iff_emitted]
  by_cases hover : D.conv.Overflows v
  · exact iff_of_false (fun h => readBack_overflow hover h.1) fun h => h.1 hover
  · rw [and_iff_right hover]
    constructor
    · rintro ⟨hnum, hlen⟩
      have hwidth := width_le_of_length hover hlen
      refine ⟨hwidth, ?_⟩
      by_cases hzero : D.conv.value v = 0
      · exact Or.inl hzero
      · rw [number_kept_iff hover hwidth,
          div_mul_pow_eq_iff D.conv.one_lt_base (pow_cut_le hzero)] at hnum
        exact Or.inr hnum
    · rintro ⟨hwidth, hcond⟩
      rw [number_kept_iff hover hwidth]
      refine ⟨?_, length_kept hover hwidth (hcond.imp_right And.left)⟩
      by_cases hzero : D.conv.value v = 0
      · rw [hzero, Int.natAbs_zero, Nat.zero_div, Nat.zero_mul]
      · exact (div_mul_pow_eq_iff D.conv.one_lt_base (pow_cut_le hzero)).mpr
          (hcond.resolve_left hzero)

/-- The directive {lit}`%-05d`. -/
def leftZeros : IntegerDirective where
  minus := true
  zero := true
  width := .literal ['5']
  precision := none
  conv := .d
  widthOk := by
    constructor
    · intro c hc
      rw [List.mem_singleton.mp hc]
      decide
    · decide
  precisionOk := Amount.none_wellFormed
  flag := fun h => by cases h
  notBinary := by decide

theorem not_keepsNumber : ¬∀ (D : IntegerDirective) (v : UInt32), D.KeepsNumber v := by
  intro hall
  have hread := ((leftZeros.keepsNumber_iff_emitted 7).mp (hall leftZeros 7)).1
  have htext : leftZeros.emitted 7 = ['7', '0', '0', '0', '0'] := by decide
  have hnumber : readBack 10 ['7', '0', '0', '0', '0'] = some 70000 := by decide
  rw [htext] at hread
  have hvalue : leftZeros.conv.value 7 = 7 := by decide
  have hsame : 70000 = leftZeros.conv.value 7 := Option.some.inj (hnumber.symm.trans hread)
  omega

end IntegerDirective

end Stdio
end BbbXinu
