import BbbXinu.Stdio.Doprnt

/-!
# The two formatters

Both go through a format in the same steps.  What a case puts into the array ends with a
null character, so what was there before is not seen.
-/

namespace BbbXinu
namespace Stdio

variable {α : Type}

/-!
## What is left of a format
-/

/-- The rest of a format behind a width or a precision. -/
def dropNumber (fmt : List Char) : List Char :=
  if fmt.headD NULLCH = '*' then fmt.tail else fmt.dropWhile fun c => decide (isDigit c)

def dropChar (c : Char) (fmt : List Char) : List Char :=
  if fmt.headD NULLCH = c then fmt.tail else fmt

/-- The rest of a format from the format character on. -/
def dropSpec (fmt : List Char) : List Char :=
  let fmt := dropNumber (dropChar '0' (dropChar '-' fmt))
  if fmt.headD NULLCH = '.' then dropNumber fmt.tail else fmt

theorem number_snd (n : Int) (fmt : List Char) :
    (number n fmt).2 = fmt.dropWhile fun c => decide (isDigit c) := by
  induction fmt generalizing n with
  | nil => rfl
  | cons c fmt ih =>
      unfold number
      by_cases hc : isDigit c
      · rw [if_pos hc, List.dropWhile_cons_of_pos (p := fun c => decide (isDigit c))
          (decide_eq_true hc)]
        exact ih _
      · rw [if_neg hc, List.dropWhile_cons_of_neg (p := fun c => decide (isDigit c))
          (ne_true_of_eq_false (decide_eq_false hc))]

theorem fieldNumber_fmt (fmt : List Char) (ap : VaList) :
    (fieldNumber fmt ap).2.1 = dropNumber fmt := by
  unfold fieldNumber dropNumber
  split
  · rfl
  · exact number_snd 0 fmt

theorem skip_snd (c : Char) (fmt : List Char) : (skip c fmt).2 = dropChar c fmt := by
  unfold skip dropChar
  split
  · rfl
  · rfl

theorem skip_fst (c : Char) (fmt : List Char) :
    (skip c fmt).1 = decide (fmt.headD NULLCH = c) := by
  unfold skip
  split
  · rename_i h
    exact (decide_eq_true h).symm
  · rename_i h
    exact (decide_eq_false h).symm

theorem readSpec_fmt (fmt : List Char) (ap : VaList) : (readSpec fmt ap).fmt = dropSpec fmt := by
  unfold readSpec dropSpec
  dsimp only
  rw [fieldNumber_fmt, skip_snd, skip_snd, skip_fst]
  by_cases hdot : (dropNumber (dropChar '0' (dropChar '-' fmt))).headD NULLCH = '.'
  · rw [if_pos (decide_eq_true hdot), if_pos hdot, fieldNumber_fmt, skip_snd]
    exact congrArg dropNumber (if_pos hdot)
  · rw [if_neg (ne_true_of_eq_false (decide_eq_false hdot)), if_neg hdot, skip_snd]
    exact if_neg hdot

theorem dropSpec_length (fmt : List Char) : (dropSpec fmt).length ≤ fmt.length := by
  rw [← readSpec_fmt fmt fun _ => 0]
  exact readSpec_length _ _

/-- The format characters of a format. -/
def conversions : List Char → List Char
  | [] => []
  | c :: fmt =>
      if c ≠ '%' then
        if c = NULLCH then [] else conversions fmt
      else if fmt.headD NULLCH = '%' then conversions fmt.tail
      else if (dropSpec fmt).headD NULLCH = NULLCH then []
      else (dropSpec fmt).headD NULLCH :: conversions (dropSpec fmt).tail
termination_by fmt => fmt.length
decreasing_by
  · exact Nat.lt_succ_self _
  · rw [List.length_tail]
    exact Nat.lt_succ_of_le (Nat.sub_le _ _)
  · rw [List.length_tail]
    exact Nat.lt_succ_of_le ((Nat.sub_le _ _).trans (dropSpec_length _))

section Strings

variable {new old old' : List Char}

/-- The bytes end the string. -/
theorem cstring_overlay (h : NULLCH ∈ new) : cstring (overlay new old) = cstring new := by
  rcases List.eq_append_cons_of_mem h with ⟨s, t, rfl, hs⟩
  unfold overlay
  rw [List.append_assoc, List.cons_append, cstring_append_null hs, cstring_append_null hs]

end Strings

/-!
## The fields
-/

/-- Two fields that look the same. -/
structure Field.Same (k k' : Field) : Prop where
  str : cstring k.str = cstring k'.str
  sign : k.sign = k'.sign
  fill : k.fill = k'.fill
  fmax : k.fmax = k'.fmax
  ap : k.ap = k'.ap

theorem Field.inString_same {bytes : List Char} (h : NULLCH ∈ bytes) (string string' : List Char)
    (sign : Bool) (fill : Char) (fmax : Int) (ap : VaList) :
    Same (inString bytes string sign fill fmax ap) (inString bytes string' sign fill fmax ap) where
  str := (cstring_overlay h).trans (cstring_overlay h).symm
  sign := rfl
  fill := rfl
  fmax := rfl
  ap := rfl

/-- A field is put out in the same way, whatever takes the characters. -/
theorem showField_map (func : Char → α) (leftjust : Bool) (fmin : Int) {k k' : Field}
    (h : k.Same k') : showField func leftjust fmin k' = (showField id leftjust fmin k).map func := by
  unfold showField
  dsimp only
  rw [h.str, h.sign, h.fill, h.fmax]
  simp only [List.map_append, List.map_id, apply_ite (List.map func), List.map_cons, List.map_nil,
    List.map_replicate, id]

theorem conversions_cons {c : Char} (hc : c ≠ '%') (hnull : c ≠ NULLCH) (fmt : List Char) :
    conversions (c :: fmt) = conversions fmt := by
  rw [conversions, if_pos hc, if_neg hnull]

theorem conversions_spec {fmt : List Char} (h : fmt.headD NULLCH ≠ '%')
    (hf : (dropSpec fmt).headD NULLCH ≠ NULLCH) :
    conversions ('%' :: fmt) =
      (dropSpec fmt).headD NULLCH :: conversions (dropSpec fmt).tail := by
  rw [conversions, if_neg (not_not_intro rfl), if_neg h, if_neg hf]

end Stdio
end BbbXinu
