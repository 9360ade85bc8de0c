import BbbXinu.Kernel.Ascdate
import BbbXinu.Properties.PaddedNumbers

/-!
# What is stored for a date

A format is put out part by part, and each part has its own text.
-/

namespace BbbXinu
namespace Stdio

open Positional

/-- A number in decimal digits. -/
def decimal (n : Nat) : List Char := (inBase 10 n).map Nat.digitChar

/-!
## Numbers in a field
-/

/-- A number in a field is filled up on the left. -/
theorem emitted_leftpad (D : Directive) (hconv : D.conv = .d) (hminus : D.minus = false)
    (hprecision : D.precision = none) (hlow : 0 ≤ D.width.value) (hhigh : D.width.value ≤ MAXSTR)
    {n : Nat} (hn : n < 2147483648) :
    D.emitted (UInt32.ofNat n) = (decimal n).leftpad D.width.value.toNat D.fill := by
  have hword : (UInt32.ofNat n).toNat = n := UInt32.toNat_ofNat_of_lt (hn.trans (by decide))
  have hvalue : D.conv.value (UInt32.ofNat n) = n := by
    rw [hconv]
    change int32 (UInt32.ofNat n).toNat = n
    rw [hword]
    exact int32_eq (by omega) (by omega)
  have hover : ¬D.conv.Overflows (UInt32.ofNat n) := fun h => by
    have heq := h.2
    rw [hword] at heq
    omega
  have hbytes : cstring (D.conv.bytes (UInt32.ofNat n)) = decimal n := by
    rw [D.conv.cstring_bytes _ hover, hvalue, hconv]
    rfl
  have hsign : ¬D.conv.value (UInt32.ofNat n) < 0 := by
    rw [hvalue]
    omega
  have hfront : ¬(D.conv.value (UInt32.ofNat n) < 0 ∧ D.zero = true) := fun h => hsign h.1
  have hback : ¬(D.conv.value (UInt32.ofNat n) < 0 ∧ ¬D.zero = true) := fun h => hsign h.1
  have hmax : (if D.conv = .d then D.fmax else 0) = 0 := by
    rw [if_pos hconv, Directive.fmax, hprecision]
  have hmeasured : D.measured (UInt32.ofNat n) =
      measure (decimal n).length D.width.value 0 false := by
    rw [Directive.measured, hbytes, hmax, decide_eq_false hsign]
  have hshown : (measure (decimal n).length D.width.value 0 false).1 = (decimal n).length :=
    measure_fst
  have hlead : (measure (decimal n).length D.width.value 0 false).2.toNat =
      D.width.value.toNat - (decimal n).length := by
    rw [measure_snd, hshown, if_pos ⟨hlow, hhigh⟩, if_neg Bool.false_ne_true, Int.sub_zero]
    omega
  rw [D.emitted_eq, hbytes, hmeasured, hshown, hlead, hminus, List.take_length,
    if_neg hfront, if_neg hback, if_neg Bool.false_ne_true, if_neg Bool.false_ne_true,
    List.append_nil, List.append_nil]
  rfl

/-- The directives {lit}`%2d` and {lit}`%02d`. -/
def twoWide (zero : Bool) : Directive where
  minus := false
  zero := zero
  width := .literal ['2']
  precision := none
  conv := .d
  widthOk := by
    constructor
    · intro c hc
      rw [List.mem_singleton.mp hc]
      decide
    · decide
  precisionOk := Amount.none_wellFormed
  flag := fun _ ds hds => by
    cases hds
    decide

/-- At least two digits, or a fill character. -/
def padded (fill : Char) (n : Nat) : List Char := (decimal n).leftpad 2 fill

/-!
## Formats in parts
-/

/-- Both formatters have what is in the format, and put out a text for it. -/
structure Prints (strAt : UInt32 → List Char) (fmt : List Char) (ap : VaList) (text : List Char) :
    Prop where
  known : ∀ f ∈ conversions fmt, f ∈ ['c', 's', 'd', 'u', 'o', 'x', 'X', 'b']
  puts : ∀ string, (doprnt strAt fmt ap string).1 = text

namespace Prints

variable {strAt : UInt32 → List Char} {fmt rest text name : List Char} {ap : VaList}

theorem nil (strAt : UInt32 → List Char) (ap : VaList) : Prints strAt [] ap [] where
  known := by
    rw [conversions]
    exact fun f hf => absurd hf List.not_mem_nil
  puts := fun string => by rw [doprnt]

/-- A character that stands for itself. -/
theorem char {c : Char} (hc : c ≠ '%' ∧ c ≠ NULLCH) (h : Prints strAt fmt ap text) :
    Prints strAt (c :: fmt) ap (c :: text) where
  known := by
    rw [conversions_cons hc.1 hc.2]
    exact h.known
  puts := fun string => by
    rw [doprnt, if_pos hc.1, if_neg hc.2]
    exact congrArg (c :: ·) (h.puts string)

/-- A string that is at least as long as the width. -/
theorem string {p : UInt32} {fmin : Int} (hhead : fmt.headD NULLCH ≠ '%')
    (hspec : readSpec fmt (ap.cons p) =
      { leftjust := false, fill := ' ', fmin := fmin, fmax := 0, fmt := 's' :: rest,
        ap := ap.cons p })
    (hp : p ≠ 0) (hname : cstring (strAt p) = name) (hwidth : fmin ≤ name.length)
    (h : Prints strAt rest ap text) :
    Prints strAt ('%' :: fmt) (ap.cons p) (name ++ text) where
  known := by
    have hdrop : dropSpec fmt = 's' :: rest := by rw [← readSpec_fmt fmt (ap.cons p), hspec]
    have hs : (dropSpec fmt).headD NULLCH = 's' := by
      rw [hdrop]
      rfl
    rw [conversions_spec hhead (by rw [hs]; decide), hs, hdrop]
    intro f hf
    rcases List.mem_cons.mp hf with rfl | hf
    · decide
    · exact h.known f hf
  puts := fun string => by
    have hshown : (measure name.length fmin 0 false).1 = name.length := measure_fst
    have hlead : (measure name.length fmin 0 false).2.toNat = 0 := by
      rw [measure_snd, hshown]
      split
      · exact Int.toNat_eq_zero.mpr (by omega)
      · rfl
    have hfield : showField id false fmin (Field.ofString strAt string 0 (ap.cons p)) = name := by
      have hstr : cstring (Field.ofString strAt string 0 (ap.cons p)).str = name := by
        rw [← hname]
        exact congrArg cstring (if_neg hp)
      unfold showField
      dsimp only
      rw [hstr]
      change [] ++ List.replicate (measure name.length fmin 0 false).2.toNat _ ++ [] ++
        (name.take (measure name.length fmin 0 false).1).map id ++ [] = name
      rw [hshown, hlead, List.take_length, List.map_id, List.append_nil]
      rfl
    rw [doprnt, if_neg (not_not_intro rfl), if_neg hhead, hspec]
    refine (congrArg Prod.fst (if_neg (by decide : ¬ 's' = NULLCH))).trans ?_
    change [] ++ showField id false fmin (Field.ofString strAt string 0 (ap.cons p)) ++
      (doprnt strAt rest ap string).1 = _
    rw [hfield, h.puts string]
    rfl

/-- A number. -/
theorem number (D : Directive) (v : UInt32) (h : Prints strAt rest ap text) :
    Prints strAt (D.text ++ rest) (D.push v ap) (D.emitted v ++ text) where
  known := by
    have hdrop : dropSpec (D.text.tail ++ rest) = D.conv.char :: rest := by
      rw [← readSpec_fmt (D.text.tail ++ rest) (D.push v ap), D.readSpec_eq]
    have hconv : (dropSpec (D.text.tail ++ rest)).headD NULLCH = D.conv.char := by
      rw [hdrop]
      rfl
    have hnull := D.conv_char.2.2.2.2.2.1
    have hall := conversions_spec (D.text_head rest) (by rw [hconv]; exact hnull)
    rw [hconv, hdrop] at hall
    intro f hf
    rcases List.mem_cons.mp (hall ▸ hf) with rfl | hf
    · generalize D.conv = k
      cases k
      all_goals decide
    · exact h.known f hf
  puts := fun string => by
    rw [D.doprnt_directive]
    exact congrArg (D.emitted v ++ ·) (h.puts _)

/-- A number of two digits. -/
theorem padded (zero : Bool) {n : Nat} (hn : n < 2147483648) (h : Prints strAt rest ap text) :
    Prints strAt ((twoWide zero).text ++ rest) (ap.cons (UInt32.ofNat n))
      (Stdio.padded (if zero then '0' else ' ') n ++ text) := by
  have hnumber := h.number (twoWide zero) (UInt32.ofNat n)
  have hemitted : (twoWide zero).emitted (UInt32.ofNat n) =
      Stdio.padded (if zero then '0' else ' ') n :=
    emitted_leftpad (twoWide zero) rfl rfl rfl (by decide : (0 : Int) ≤ 2)
      (by decide : (2 : Int) ≤ MAXSTR) hn
  rw [hemitted] at hnumber
  exact hnumber

/-- A number without a width. -/
theorem decimal {n : Nat} (hn : n < 2147483648) (h : Prints strAt rest ap text) :
    Prints strAt ('%' :: 'd' :: rest) (ap.cons (UInt32.ofNat n)) (Stdio.decimal n ++ text) := by
  have hnumber := h.number (NumberConv.bare .d) (UInt32.ofNat n)
  have hemitted : (NumberConv.bare .d).emitted (UInt32.ofNat n) = Stdio.decimal n := by
    rw [emitted_leftpad (NumberConv.bare .d) rfl rfl rfl (le_refl 0)
      (by decide : (0 : Int) ≤ MAXSTR) hn]
    change List.replicate (0 - (Stdio.decimal n).length) ' ' ++ Stdio.decimal n = _
    rw [Nat.zero_sub]
    rfl
  rw [hemitted] at hnumber
  exact hnumber

/-- A string without a width. -/
theorem bare {p : UInt32} (hp : p ≠ 0) (hname : cstring (strAt p) = name)
    (h : Prints strAt rest ap text) :
    Prints strAt ('%' :: 's' :: rest) (ap.cons p) (name ++ text) :=
  h.string (by decide : 's' ≠ '%') rfl hp hname (Int.natCast_nonneg _)

end Prints

end Stdio

/-!
## Dates
-/

open Stdio

/-- What is printed of a date. -/
structure PrintedDate where
  weekday : List Char
  month : List Char
  day : Nat
  hour : Nat
  minute : Nat
  second : Nat
  year : Nat

namespace PrintedDate

variable (F : PrintedDate)

/-- The text with a time zone. -/
def text (zone : List Char) : List Char :=
  F.weekday ++ ' ' :: ' ' :: (F.month ++ ' ' :: (padded ' ' F.day ++ ' ' :: ' ' ::
    (padded ' ' F.hour ++ ':' :: (padded '0' F.minute ++ ':' :: (padded '0' F.second ++ ' ' ::
      (zone ++ ' ' :: decimal F.year))))))

end PrintedDate

namespace DateVars

variable (t : DateVars)

/-- The variables have values that the format can take. -/
structure InRange : Prop where
  dayofweek : t.dayofweek < 7
  month : t.month ≤ 12
  day : t.day < 2147483648
  hour : t.hour < 2147483648
  minute : t.minute < 2147483648
  second : t.second < 2147483648
  year : t.year < 2147483648

def printed : PrintedDate where
  weekday := dateNameAt (UInt32.ofNat (dnamAddr t.dayofweek))
  month := dateNameAt (UInt32.ofNat (mnamAddr t.month))
  day := t.day
  hour := t.hour
  minute := t.minute
  second := t.second
  year := t.year

end DateVars

end BbbXinu
