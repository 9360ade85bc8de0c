import Mathlib.Data.List.GetD
import BbbXinu.Lib.Scatter

/-!
# Strings in buffers

A string lies in a buffer of bytes: its bytes, none of which is null, and then a null byte.
What comes behind that byte is not part of the string.

Nothing here depends on a particular program.
-/

namespace BbbXinu
namespace CStrings

open Scatter

/-- The offset of the first null byte among the first {lit}`n` bytes. -/
def nullAt (buf : Nat → UInt8) (n : Nat) : Option Nat :=
  (List.range n).find? fun i => buf i = 0

/-- The string in the first {lit}`n` bytes of a buffer, if it ends there. -/
def cstr (buf : Nat → UInt8) (n : Nat) : Option (List UInt8) := (nullAt buf n).map (front buf)

/-- A string, as it is handed to a program. -/
structure CString where
  chars : List UInt8
  nonnull : 0 ∉ chars

/-- The memory in which it lies.  What is behind its null byte is never looked at. -/
def CString.mem (s : CString) : Nat → UInt8 := fun i => s.chars.getD i 0

/-- A number of bytes are copied from a place in one buffer to a place in another. -/
def copy (dst : Nat → UInt8) (place : Nat) (src : Nat → UInt8) (start n : Nat) : Nat → UInt8 :=
  fun i => if place ≤ i ∧ i < place + n then src (start + (i - place)) else dst i

section

variable {buf buf' dst src pre : Nat → UInt8} {s p r : List UInt8} {n m k len place start : Nat}

theorem nullAt_eq_some_iff :
    nullAt buf n = some len ↔ len < n ∧ buf len = 0 ∧ ∀ i < len, buf i ≠ 0 := by
  unfold nullAt
  rw [List.find?_range_eq_some]
  simp only [decide_eq_true_eq, List.mem_range, Bool.not_eq_true', decide_eq_false_iff_not]
  constructor
  · rintro ⟨hzero, hlt, hbefore⟩
    exact ⟨hlt, hzero, hbefore⟩
  · rintro ⟨hlt, hzero, hbefore⟩
    exact ⟨hzero, hlt, hbefore⟩

theorem nullAt_eq_none_iff : nullAt buf n = none ↔ ∀ i < n, buf i ≠ 0 := by
  unfold nullAt
  rw [List.find?_eq_none]
  simp only [decide_eq_true_eq, List.mem_range]

theorem front_getElem (h : k < (front buf n).length) : (front buf n)[k] = buf k := by
  simp only [front, List.getElem_map, List.getElem_range]

theorem mem_front {x : UInt8} : x ∈ front buf n ↔ ∃ i < n, buf i = x := by
  unfold front
  rw [List.mem_map]
  simp only [List.mem_range]

theorem cstr_eq_some_iff :
    cstr buf n = some s ↔ s.length < n ∧ 0 ∉ s ∧ ∀ i ≤ s.length, buf i = s.getD i 0 := by
  unfold cstr
  rw [Option.map_eq_some_iff]
  constructor
  · rintro ⟨len, hlen, rfl⟩
    rcases nullAt_eq_some_iff.mp hlen with ⟨hlt, hzero, hbefore⟩
    rw [length_front]
    refine ⟨hlt, ?_, ?_⟩
    · intro hmem
      rcases mem_front.mp hmem with ⟨i, hi, heq⟩
      exact hbefore i hi heq
    · intro i hi
      by_cases hend : i = len
      · rw [hend, hzero, List.getD_eq_default _ _ (length_front.le)]
      · rw [List.getD_eq_getElem _ _ (by rw [length_front]; omega), front_getElem]
  · rintro ⟨hlt, hnull, hbytes⟩
    refine ⟨s.length, nullAt_eq_some_iff.mpr ⟨hlt, ?_, ?_⟩, ?_⟩
    · rw [hbytes s.length le_rfl, List.getD_eq_default _ _ le_rfl]
    · intro i hi hzero
      rw [hbytes i hi.le, List.getD_eq_getElem _ _ hi] at hzero
      exact hnull (hzero ▸ List.getElem_mem hi)
    · apply List.ext_getElem length_front
      intro i hi hi'
      rw [front_getElem, hbytes i hi'.le, List.getD_eq_getElem _ _ hi']

theorem cstr_length_lt (h : cstr buf n = some s) : s.length < n := (cstr_eq_some_iff.mp h).1

theorem cstr_apply (h : cstr buf n = some s) {i : Nat} (hi : i ≤ s.length) : buf i = s.getD i 0 :=
  (cstr_eq_some_iff.mp h).2.2 i hi

theorem cstr_nullAt (h : cstr buf n = some s) : nullAt buf n = some s.length := by
  rcases Option.map_eq_some_iff.mp h with ⟨len, hlen, rfl⟩
  rw [length_front]
  exact hlen

/-- A string is found in more bytes, too. -/
theorem cstr_mono (h : cstr buf n = some s) (hnm : n ≤ m) : cstr buf m = some s := by
  rcases cstr_eq_some_iff.mp h with ⟨hlt, hrest⟩
  exact cstr_eq_some_iff.mpr ⟨by omega, hrest⟩

/-- One string begins with another one if and only if the buffers agree as far as that one
goes. -/
theorem isPrefix_iff (hp : cstr pre n = some p) (hs : cstr buf m = some s) :
    p <+: s ↔ ∀ i < p.length, pre i = buf i := by
  rw [List.prefix_iff_getElem?]
  constructor
  · intro hget i hi
    have hsome := hget i hi
    rcases List.getElem?_eq_some_iff.mp hsome with ⟨hi', heq⟩
    rw [cstr_apply hp hi.le, cstr_apply hs hi'.le, List.getD_eq_getElem _ _ hi,
      List.getD_eq_getElem _ _ hi', heq]
  · intro hsame i hi
    have hne : ∀ j < p.length, p.getD j 0 ≠ 0 := by
      intro j hj hzero
      rw [List.getD_eq_getElem _ _ hj] at hzero
      exact (cstr_eq_some_iff.mp hp).2.1 (hzero ▸ List.getElem_mem hj)
    have hle : p.length ≤ s.length := by
      by_contra hlt
      apply hne s.length (by omega)
      rw [← cstr_apply hp (by omega), hsame s.length (by omega), cstr_apply hs le_rfl,
        List.getD_eq_default _ _ le_rfl]
    have heq := hsame i hi
    rw [cstr_apply hp hi.le, cstr_apply hs (by omega), List.getD_eq_getElem _ _ hi,
      List.getD_eq_getElem _ _ (by omega)] at heq
    rw [heq, List.getElem?_eq_getElem (by omega)]

theorem CString.cstr_mem (s : CString) (h : s.chars.length < n) :
    cstr s.mem n = some s.chars :=
  cstr_eq_some_iff.mpr ⟨h, s.nonnull, fun _ _ => rfl⟩

theorem CString.nullAt_mem (s : CString) :
    nullAt s.mem n = if s.chars.length < n then some s.chars.length else none := by
  by_cases h : s.chars.length < n
  · rw [if_pos h]
    exact cstr_nullAt (s.cstr_mem h)
  · rw [if_neg h, nullAt_eq_none_iff]
    intro i hi hzero
    unfold mem at hzero
    rw [List.getD_eq_getElem _ _ (by omega)] at hzero
    exact s.nonnull (hzero ▸ List.getElem_mem _)

theorem copy_of_lt {i : Nat} (h : i < place) : copy dst place src start n i = dst i :=
  if_neg fun hin => absurd hin.1 (by omega)

theorem copy_of_le {i : Nat} (h : place + n ≤ i) : copy dst place src start n i = dst i :=
  if_neg fun hin => absurd hin.2 (by omega)

theorem copy_inside {i : Nat} (h : place ≤ i) (h' : i < place + n) :
    copy dst place src start n i = src (start + (i - place)) := if_pos ⟨h, h'⟩

theorem nullAt_copy (h : nullAt src n = some len) :
    nullAt (copy dst 0 src 0 (len + 1)) n = some len := by
  rcases nullAt_eq_some_iff.mp h with ⟨hlt, hzero, hbefore⟩
  have hsame : ∀ i ≤ len, copy dst 0 src 0 (len + 1) i = src i := by
    intro i hi
    rw [copy_inside (Nat.zero_le i) (by omega), Nat.zero_add, Nat.sub_zero]
  refine nullAt_eq_some_iff.mpr ⟨hlt, (hsame len le_rfl).trans hzero, ?_⟩
  intro i hi
  rw [hsame i hi.le]
  exact hbefore i hi

theorem cstr_copy (h : cstr src n = some s) :
    cstr (copy dst 0 src 0 (s.length + 1)) n = some s := by
  rcases cstr_eq_some_iff.mp h with ⟨hlt, hnull, hbytes⟩
  refine cstr_eq_some_iff.mpr ⟨hlt, hnull, ?_⟩
  intro i hi
  rw [copy_inside (Nat.zero_le i) (by omega), Nat.zero_add, Nat.sub_zero]
  exact hbytes i hi

/-- Without its end a string ends in a buffer of null bytes. -/
theorem cstr_copy_zero (h : cstr src n = some s) :
    cstr (copy (fun _ => 0) 0 src 0 s.length) n = some s := by
  rcases cstr_eq_some_iff.mp h with ⟨hlt, hnull, hbytes⟩
  refine cstr_eq_some_iff.mpr ⟨hlt, hnull, ?_⟩
  intro i hi
  by_cases hend : i = s.length
  · rw [copy_of_le (by omega), hend, List.getD_eq_default _ _ le_rfl]
  · rw [copy_inside (Nat.zero_le i) (by omega), Nat.zero_add, Nat.sub_zero]
    exact hbytes i hi

/-- One string without its end, and behind it the rest of another one with its end. -/
theorem cstr_copy_copy (hr : cstr src n = some r) (hs : cstr buf m = some s)
    (hstart : start ≤ s.length) (hfits : r.length + (s.length + 1 - start) ≤ k) :
    cstr (copy (copy dst 0 src 0 r.length) r.length buf start (s.length + 1 - start)) k =
      some (r ++ s.drop start) := by
  have hlen : (r ++ s.drop start).length = r.length + (s.length - start) := by
    rw [List.length_append, List.length_drop]
  apply cstr_eq_some_iff.mpr
  rw [hlen]
  refine ⟨by omega, ?_, ?_⟩
  · intro hmem
    cases List.mem_append.mp hmem with
    | inl hin => exact (cstr_eq_some_iff.mp hr).2.1 hin
    | inr hin => exact (cstr_eq_some_iff.mp hs).2.1 (List.mem_of_mem_drop hin)
  · intro i hi
    by_cases hfirst : i < r.length
    · rw [copy_of_lt hfirst, copy_inside (Nat.zero_le i) (by omega), Nat.zero_add, Nat.sub_zero,
        cstr_apply hr hfirst.le, List.getD_append _ _ _ _ hfirst]
    · rw [copy_inside (by omega) (by omega), cstr_apply hs (by omega),
        List.getD_append_right _ _ _ _ (by omega), List.getD_eq_getElem?_getD,
        List.getD_eq_getElem?_getD, List.getElem?_drop]

end

end CStrings
end BbbXinu
