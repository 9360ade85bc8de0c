import BbbXinu.Stdio.Doscan
import Mathlib.Logic.Relation

/-!
# Formats that are scanned safely

The scanner reads its format behind the null character in one case, a set of characters that is
not closed.  It uses characters as indices of its table when it reads a set and when it takes a
character, a string or the characters of a set from the input, and there the end of the input is
an index, too.
-/

namespace BbbXinu
namespace Stdio

open Relation

/-!
## Harmless directives
-/

/-- A set of characters is closed, and in it are only characters that the table has. -/
def SetOk (s : List Char) : Prop :=
  let set := if s.head? = some '^' then s.tail else s
  (∃ c ∈ set, closes c) ∧ ∀ c ∈ set.takeWhile fun c => !closes c, c.toNat < 128

/-- The string from the pointer on. -/
def ScanInput.string (s : ScanInput) : List Char := s.rest.takeWhile fun c => decide (c ≠ NULLCH)

/-- The table has a bit of a mask for a character. -/
def Sctab.has (tab : Sctab) (mask : Nat) (c : Char) : Bool :=
  decide (c.toNat < 128 ∧ tab c.toNat &&& mask ≠ 0)

/-- Something is left of the input, behind the blanks that are not taken, and as far as it is
taken it has only characters that the table has. -/
def InputOk (tab : Sctab) (type len : Int) (input : ScanInput) : Prop :=
  let first := input.string.dropWhile (tab.has (if type = code 's' then SPC else 0))
  let stop := if type = code 'c' then 0 else if type = code '[' then STP else SPC
  let n := if type = code 'c' ∧ len = 30000 then 1 else max len 1
  first ≠ [] ∧ ∀ c ∈ (first.take n.toNat).takeWhile fun c => !tab.has stop c, c.toNat < 128

/-- The next directive of the format asks for no set, character or string, or the set and the
input are as they have to be. -/
def Harmless (behind : Nat → Nat) (s : Scan) : Prop :=
  ∀ fmt, s.fmt = '%' :: fmt → fmt.head? ≠ some '%' →
    (∀ st ∈ readStart behind fmt s.ap, st.ch = code '[' → SetOk st.fmt) ∧
    ∀ k ∈ readConversion behind fmt s.ap s.tab,
      k.type = code 'c' ∨ k.type = code 's' ∨ k.type = code '[' →
        InputOk k.tab k.type k.len s.input

/-- One turn leads to another. -/
def Next (behind : Nat → Nat) (s s' : Scan) : Prop := turn behind s = some (.again s')

/-- A format from a pointer up to its null character. -/
def Terminated (fmt : List Char) : Prop := ∃ l, NULLCH ∉ l ∧ fmt = l ++ [NULLCH]

/-- A character was read from a format, with what is left of it. -/
def Cursor (ch : Int) (fmt : List Char) : Prop :=
  ch ≠ 0 ∧ Terminated fmt ∨ ch = 0 ∧ fmt = []

section

variable {behind : Nat → Nat} {c : Char} {fmt fmt' rest : List Char} {tab tab' : Sctab}
  {ap : VaList} {ch len : Int} {s s' : Scan}

/-!
## Formats
-/

theorem code_eq_zero : code c = 0 ↔ c = NULLCH := by
  constructor
  · intro h
    have hnat : c.toNat = 0 := Int.ofNat_eq_zero.mp h
    exact Char.toNat_inj.mp hnat
  · intro h
    rw [h]
    rfl

theorem Terminated.cons (h : Terminated (c :: fmt)) : Cursor (code c) fmt := by
  obtain ⟨l, hnull, heq⟩ := h
  cases l with
  | nil =>
      cases heq
      exact Or.inr ⟨rfl, rfl⟩
  | cons d l =>
      cases heq
      rw [List.mem_cons, not_or] at hnull
      left
      constructor
      · intro hzero
        exact hnull.1 (code_eq_zero.mp hzero).symm
      · exact ⟨l, hnull.2, rfl⟩

theorem Terminated.ne_nil (h : Terminated fmt) : fmt ≠ [] := by
  obtain ⟨l, -, rfl⟩ := h
  exact List.append_ne_nil_of_right_ne_nil l (List.cons_ne_nil _ _)

theorem Terminated.nextChar (h : Terminated fmt) :
    ∃ ch fmt', Stdio.nextChar fmt = some (ch, fmt') ∧ Cursor ch fmt' := by
  cases fmt with
  | nil => exact absurd rfl h.ne_nil
  | cons c fmt => exact ⟨code c, fmt, rfl, h.cons⟩

theorem Cursor.terminated (h : Cursor ch fmt) (hch : ch ≠ 0) : Terminated fmt :=
  (h.resolve_right fun hzero => hch hzero.1).2

theorem Cursor.scanPointer (h : Cursor ch fmt) (ap : VaList) :
    ∃ ptr ap' ch' fmt', Stdio.scanPointer ch fmt ap = some (ptr, ap', ch', fmt') ∧
      Cursor ch' fmt' := by
  unfold Stdio.scanPointer
  split
  · exact ⟨_, _, _, _, rfl, h⟩
  · rename_i hstar
    have hch : ch ≠ 0 := by
      rw [not_not.mp hstar]
      decide
    obtain ⟨ch', fmt', hnext, hcursor⟩ := (h.terminated hch).nextChar
    exact ⟨none, ap, ch', fmt', by rw [hnext]; rfl, hcursor⟩

theorem class_zero : isdigit behind 0 = false ∧ isupper behind 0 = false := by
  have hclass : ctypeAt behind 0 = CT_C := rfl
  unfold isdigit isupper
  rw [hclass]
  decide

theorem Cursor.scanLength (h : Cursor ch fmt) (behind : Nat → Nat) (len : Int) :
    ∃ len' ch' fmt', Stdio.scanLength behind len ch fmt = some (len', ch', fmt') ∧
      Cursor ch' fmt' := by
  induction fmt generalizing len ch with
  | nil =>
      have hch : ch = 0 := by
        by_contra hne
        exact (h.terminated hne).ne_nil rfl
      unfold Stdio.scanLength
      rw [hch, class_zero.1]
      exact ⟨_, _, _, rfl, Or.inr ⟨rfl, rfl⟩⟩
  | cons c fmt ih =>
      unfold Stdio.scanLength
      split
      · rename_i hdigit
        have hch : ch ≠ 0 := by
          intro hzero
          rw [hzero, class_zero.1] at hdigit
          cases hdigit
        exact ih (h.terminated hch).cons _
      · exact ⟨_, _, _, rfl, h⟩

theorem Terminated.readStart (h : Terminated fmt) (behind : Nat → Nat) (ap : VaList) :
    ∃ st, Stdio.readStart behind fmt ap = some st ∧ Cursor st.ch st.fmt := by
  obtain ⟨ch, fmt₁, hnext, hcursor⟩ := h.nextChar
  obtain ⟨ptr, ap', ch₁, fmt₂, hptr, hcursor₁⟩ := hcursor.scanPointer ap
  obtain ⟨len, ch₂, fmt₃, hlen, hcursor₂⟩ := hcursor₁.scanLength behind 0
  exact ⟨_, by simp [Stdio.readStart, hnext, hptr, hlen]; rfl, hcursor₂⟩

/-!
## Sets
-/

theorem inSctab_code (c : Char) : inSctab (code c) = decide (c.toNat < 128) := by
  unfold inSctab code
  apply decide_eq_decide.mpr
  omega

theorem getcclLoop_isSome {t : Bool} (s : List Char) (tab : Sctab) :
    (getcclLoop t s tab).isSome ↔
      (∃ c ∈ s, closes c) ∧ ∀ c ∈ s.takeWhile fun c => !closes c, c.toNat < 128 := by
  induction s generalizing tab with
  | nil => simp [getcclLoop]
  | cons c s ih =>
      have hwrap : ¬code c + 1 = 0 := by
        unfold code
        omega
      unfold getcclLoop
      cases hc : closes c with
      | true => simp [hc]
      | false =>
          by_cases hlt : c.toNat < 128
          · simp [hc, hwrap, ih, inSctab_code, hlt]
          · simp [hc, inSctab_code, hlt]

/-- A set that is closed is closed before the end of the format. -/
theorem Terminated.getcclLoop {t : Bool} {s : List Char} {tab : Sctab} (h : Terminated s)
    (hloop : Stdio.getcclLoop t s tab = some (fmt', tab')) : Terminated fmt' := by
  induction s generalizing tab with
  | nil => exact absurd rfl h.ne_nil
  | cons c s ih =>
      have hnull : c ≠ NULLCH := by
        intro hc
        have hs : s = [] := by
          cases h.cons with
          | inl hcursor => exact absurd (code_eq_zero.mpr hc) hcursor.1
          | inr hcursor => exact hcursor.2
        have hsome : (Stdio.getcclLoop t (c :: s) tab).isSome := by
          rw [hloop]
          rfl
        obtain ⟨⟨d, hd, hcloses⟩, -⟩ := (getcclLoop_isSome (c :: s) tab).mp hsome
        rw [hs, hc, List.mem_singleton] at hd
        rw [hd] at hcloses
        exact absurd hcloses (by decide)
      have hs := h.cons.terminated fun hzero => hnull (code_eq_zero.mp hzero)
      unfold Stdio.getcclLoop at hloop
      split at hloop
      · cases hloop
        exact hs
      · split at hloop
        · split at hloop
          · cases hloop
            exact h
          · exact ih hs hloop
        · cases hloop

theorem Terminated.getccl_isSome (h : Terminated fmt) (tab : Sctab) :
    (getccl fmt tab).isSome ↔ SetOk fmt := by
  cases fmt with
  | nil => exact absurd rfl h.ne_nil
  | cons c fmt =>
      unfold getccl SetOk
      dsimp only
      rw [getcclLoop_isSome]
      by_cases hc : c = '^'
      · simp [hc]
      · simp [hc]

theorem Terminated.getccl (h : Terminated fmt) (hset : Stdio.getccl fmt tab = some (fmt', tab')) :
    Terminated fmt' := by
  cases fmt with
  | nil => exact absurd rfl h.ne_nil
  | cons c fmt =>
      unfold Stdio.getccl at hset
      dsimp only at hset
      by_cases hc : c = '^'
      · have hcode : code c ≠ 0 := by
          rw [hc]
          decide
        have hfmt := h.cons.terminated hcode
        rw [if_pos (decide_eq_true hc)] at hset
        exact hfmt.getcclLoop hset
      · rw [if_neg (by simpa using hc)] at hset
        exact h.getcclLoop hset

/-!
## Conversions
-/

theorem Cursor.scanSize_isSome (h : Cursor ch fmt) (tab : Sctab) :
    (scanSize ch fmt tab).isSome ↔ (ch = code '[' → SetOk fmt) := by
  have hnext : ch ≠ 0 → (nextChar fmt).isSome := by
    intro hch
    obtain ⟨ch', fmt', heq, -⟩ := (h.terminated hch).nextChar
    rw [heq]
    rfl
  have hletters : code 'l' ≠ 0 ∧ code 'h' ≠ 0 ∧ code '[' ≠ 0 ∧ code 'l' ≠ code '[' ∧
      code 'h' ≠ code '[' := by decide
  unfold scanSize
  split
  · rename_i hch
    rw [hch] at hnext ⊢
    rw [Option.isSome_map]
    exact iff_of_true (hnext hletters.1) fun heq => absurd heq hletters.2.2.2.1
  · split
    · rename_i hch
      rw [hch] at hnext ⊢
      rw [Option.isSome_map]
      exact iff_of_true (hnext hletters.2.1) fun heq => absurd heq hletters.2.2.2.2
    · split
      · rename_i hset
        rw [Option.isSome_map, (h.terminated (hset.trans_ne hletters.2.2.1)).getccl_isSome]
        exact (imp_iff_right hset).symm
      · rename_i hset
        exact iff_of_true rfl fun heq => absurd heq hset

theorem Cursor.scanSize {size : Size} {ch' : Int} (h : Cursor ch fmt)
    (hsize : Stdio.scanSize ch fmt tab = some (ch', size, fmt', tab')) : Cursor ch' fmt' := by
  have hnext : ∀ {ch₁ fmt₁}, ch ≠ 0 → nextChar fmt = some (ch₁, fmt₁) → Cursor ch₁ fmt₁ := by
    intro ch₁ fmt₁ hch heq
    obtain ⟨ch₂, fmt₂, heq₂, hcursor⟩ := (h.terminated hch).nextChar
    rw [heq] at heq₂
    cases heq₂
    exact hcursor
  have hletters : code 'l' ≠ 0 ∧ code 'h' ≠ 0 ∧ code '[' ≠ 0 := by decide
  unfold Stdio.scanSize at hsize
  split at hsize
  · rename_i hch
    obtain ⟨r, hr, heq⟩ := Option.map_eq_some_iff.mp hsize
    cases heq
    exact hnext (hch.trans_ne hletters.1) hr
  · split at hsize
    · rename_i hch
      obtain ⟨r, hr, heq⟩ := Option.map_eq_some_iff.mp hsize
      cases heq
      exact hnext (hch.trans_ne hletters.2.1) hr
    · split at hsize
      · rename_i hset
        obtain ⟨r, hr, heq⟩ := Option.map_eq_some_iff.mp hsize
        cases heq
        have hch := hset.trans_ne hletters.2.2
        exact Or.inl ⟨hch, (h.terminated hch).getccl hr⟩
      · cases hsize
        exact h

/-- The scanner reads a conversion if its set is closed. -/
theorem Terminated.readConversion_isSome (h : Terminated fmt) (behind : Nat → Nat) (ap : VaList)
    (tab : Sctab) : (Stdio.readConversion behind fmt ap tab).isSome ↔
      ∀ st ∈ Stdio.readStart behind fmt ap, st.ch = code '[' → SetOk st.fmt := by
  obtain ⟨st, hst, hcursor⟩ := h.readStart behind ap
  have hsize := hcursor.scanSize_isSome tab
  rw [hst]
  simp only [Option.mem_some_iff, forall_eq']
  rw [← hsize]
  unfold Stdio.readConversion
  rw [hst, Option.bind_eq_bind, Option.bind_some]
  cases Stdio.scanSize st.ch st.fmt tab <;> rfl

/-- Behind a conversion the format goes on. -/
theorem Terminated.readConversion {k : Conversion} (h : Terminated fmt)
    (hread : Stdio.readConversion behind fmt ap tab = some k) (htype : k.type ≠ 0) :
    Terminated k.fmt := by
  obtain ⟨st, hst, ch, size, hsize, hk⟩ := readConversion_eq_some hread
  obtain ⟨st', hst', hcursor⟩ := h.readStart behind ap
  rw [hst] at hst'
  cases hst'
  apply (hcursor.scanSize hsize).terminated
  intro hch
  rw [hk, hch, class_zero.2] at htype
  exact htype rfl

/-!
## Input
-/

theorem has_of_lt (h : c.toNat < 128) (tab : Sctab) (mask : Nat) :
    tab.has mask c = decide (tab c.toNat &&& mask ≠ 0) := by
  unfold Sctab.has
  simp [h]

theorem has_of_not_lt (h : ¬c.toNat < 128) (tab : Sctab) (mask : Nat) :
    tab.has mask c = false := by
  unfold Sctab.has
  simp [h]

theorem string_null (before : Nat → Char) (rest : List Char) :
    ScanInput.string ⟨before, NULLCH :: rest⟩ = [] := by simp [ScanInput.string]

theorem string_cons (h : c ≠ NULLCH) (before before' : Nat → Char) (rest : List Char) :
    ScanInput.string ⟨before, c :: rest⟩ = c :: ScanInput.string ⟨before', rest⟩ := by
  simp [ScanInput.string, h]

/-- What the first loop of {lit}`_instr` comes to, if that is a character of the table. -/
theorem instrSkip_eq (tab : Sctab) (mask : Nat) (rest : List Char) (before : Nat → Char) :
    match (ScanInput.string ⟨before, rest⟩).dropWhile (tab.has mask) with
    | [] => instrSkip tab mask rest before = none
    | c :: str =>
        if c.toNat < 128 then
          ∃ input, instrSkip tab mask rest before = some (code c, input) ∧ input.string = str
        else instrSkip tab mask rest before = none := by
  induction rest generalizing before with
  | nil => rfl
  | cons c rest ih =>
      by_cases hnull : c = NULLCH
      · rw [hnull, string_null]
        unfold instrSkip
        rw [if_pos rfl]
        rfl
      · rw [string_cons hnull before (ScanInput.push c before), List.dropWhile_cons]
        unfold instrSkip
        rw [if_neg hnull, inSctab_code]
        by_cases hlt : c.toNat < 128
        · rw [has_of_lt hlt]
          by_cases hentry : tab c.toNat &&& mask = 0
          · simp [hentry, hlt]
          · simp only [ne_eq, hentry, not_false_eq_true, decide_true, if_true, hlt]
            exact ih (ScanInput.push c before)
        · simp [has_of_not_lt hlt, hlt]

theorem code_ne_scanEOF (c : Char) : code c ≠ scanEOF := by
  unfold code scanEOF
  omega

theorem code_toNat (c : Char) : (code c).toNat = c.toNat := rfl

/-- The second loop of {lit}`_instr` when it takes one character at most. -/
theorem instrLoop_first {tab : Sctab} {mask : Nat}
    (h : ¬c.toNat < 128 ∨ tab c.toNat &&& mask ≠ 0 ∨ len - 1 ≤ 0) (taken : List Char)
    (before : Nat → Char) (rest str : List Char) :
    (instrLoop tab mask (code c) len taken before rest).isSome ↔
      ∀ d ∈ ((c :: str).take (max len 1).toNat).takeWhile fun d => !tab.has mask d,
        d.toNat < 128 := by
  have hcount : (max len 1).toNat = (max len 1).toNat - 1 + 1 := by omega
  rw [hcount, List.take_succ_cons, List.takeWhile_cons]
  unfold instrLoop
  rw [if_neg (code_ne_scanEOF c), inSctab_code, code_toNat]
  by_cases hlt : c.toNat < 128
  · rw [has_of_lt hlt]
    by_cases hentry : tab c.toNat &&& mask = 0
    · have hlen : len - 1 ≤ 0 := by simpa [hlt, hentry] using h
      have hone : (max len 1).toNat - 1 = 0 := by omega
      simp [hentry, hlen, hone, hlt]
    · simp [hentry, hlt]
  · simp [has_of_not_lt hlt, hlt]

/-- The characters behind one that is taken. -/
theorem taken_cons {tab : Sctab} {mask : Nat} (hlt : c.toNat < 128)
    (hentry : tab c.toNat &&& mask = 0) (hlen : ¬len - 1 ≤ 0) (str : List Char) :
    (∀ d ∈ ((c :: str).take (max len 1).toNat).takeWhile fun d => !tab.has mask d,
      d.toNat < 128) ↔
      ∀ d ∈ (str.take (max (len - 1) 1).toNat).takeWhile fun d => !tab.has mask d,
        d.toNat < 128 := by
  have hcount : (max len 1).toNat = (max (len - 1) 1).toNat + 1 := by omega
  rw [hcount, List.take_succ_cons, List.takeWhile_cons, has_of_lt hlt]
  simp [hentry, hlt]

/-- The second loop of {lit}`_instr` takes characters up to one that stops it. -/
theorem instrLoop_isSome (tab : Sctab) (mask : Nat) (c : Char) (len : Int) (taken : List Char)
    (before : Nat → Char) (rest : List Char) :
    (instrLoop tab mask (code c) len taken before rest).isSome ↔
      ∀ d ∈ ((c :: ScanInput.string ⟨before, rest⟩).take (max len 1).toNat).takeWhile
        fun d => !tab.has mask d, d.toNat < 128 := by
  induction rest generalizing c len taken before with
  | nil =>
      by_cases h : ¬c.toNat < 128 ∨ tab c.toNat &&& mask ≠ 0 ∨ len - 1 ≤ 0
      · exact instrLoop_first h taken before [] _
      · obtain ⟨hlt, hentry, hlen⟩ : c.toNat < 128 ∧ tab c.toNat &&& mask = 0 ∧ ¬len - 1 ≤ 0 := by
          simpa only [not_or, not_not, ne_eq] using h
        have hstring : ScanInput.string ⟨before, []⟩ = [] := rfl
        rw [hstring, taken_cons hlt hentry hlen]
        unfold instrLoop
        rw [if_neg (code_ne_scanEOF c), inSctab_code, code_toNat]
        simp only [hlt, hentry, hlen]
        simp
  | cons d rest ih =>
      by_cases h : ¬c.toNat < 128 ∨ tab c.toNat &&& mask ≠ 0 ∨ len - 1 ≤ 0
      · exact instrLoop_first h taken before (d :: rest) _
      · obtain ⟨hlt, hentry, hlen⟩ : c.toNat < 128 ∧ tab c.toNat &&& mask = 0 ∧ ¬len - 1 ≤ 0 := by
          simpa only [not_or, not_not, ne_eq] using h
        rw [taken_cons hlt hentry hlen]
        unfold instrLoop
        rw [if_neg (code_ne_scanEOF c), inSctab_code, code_toNat]
        by_cases hnull : d = NULLCH
        · rw [hnull, string_null]
          simp only [hlt, hentry, hlen]
          simp
        · rw [string_cons hnull before (ScanInput.push d before)]
          simp only [hlt, hentry, hlen, hnull]
          exact ih d (len - 1) _ _

theorem instr_isSome_eq (ptr : UInt32) (type len : Int) (input : ScanInput) (tab : Sctab) :
    (instr ptr type len input tab).isSome =
      match instrSkip tab (if type = code 's' then SPC else 0) input.rest input.before with
      | none => false
      | some (ch, input) =>
          (instrLoop tab (if type = code 'c' then 0 else if type = code '[' then STP else SPC) ch
            (if type = code 'c' ∧ len = 30000 then 1 else len) [] input.before input.rest).isSome := by
  unfold instr
  dsimp only
  cases instrSkip tab (if type = code 's' then SPC else 0) input.rest input.before with
  | none => rfl
  | some r =>
      obtain ⟨ch, input⟩ := r
      dsimp only
      split
      · rename_i hloop
        rw [hloop]
        rfl
      · rename_i hloop
        rw [hloop]
        split <;> rfl

/-- A character, a string or the characters of a set are taken just when the input is as it has
to be. -/
theorem instr_isSome (ptr : UInt32) (type len : Int) (input : ScanInput) (tab : Sctab) :
    (instr ptr type len input tab).isSome ↔ InputOk tab type len input := by
  let blanks := if type = code 's' then SPC else 0
  let stop := if type = code 'c' then 0 else if type = code '[' then STP else SPC
  have hskip := instrSkip_eq tab blanks input.rest input.before
  have hcount : (if type = code 'c' ∧ len = 30000 then 1 else max len 1) =
      max (if type = code 'c' ∧ len = 30000 then 1 else len) 1 := by
    split <;> rfl
  rw [instr_isSome_eq]
  unfold InputOk
  dsimp only
  rw [hcount]
  change _ ↔ input.string.dropWhile (tab.has blanks) ≠ [] ∧ _
  change match input.string.dropWhile (tab.has blanks) with | [] => _ | c :: str => _ at hskip
  cases hfirst : input.string.dropWhile (tab.has blanks) with
  | nil =>
      rw [hfirst] at hskip
      rw [show instrSkip tab blanks input.rest input.before = none from hskip]
      simp
  | cons c str =>
      rw [hfirst] at hskip
      by_cases hlt : c.toNat < 128
      · simp only [hlt, if_true] at hskip
        obtain ⟨input', hrun, hstring⟩ := hskip
        rw [hrun, ← hstring]
        dsimp only
        rw [instrLoop_isSome]
        exact (and_iff_right (List.cons_ne_nil _ _)).symm
      · simp only [hlt, if_false] at hskip
        rw [hskip]
        apply iff_of_false Bool.false_ne_true
        intro hok
        apply hlt
        apply hok.2 c
        simp [List.take_cons, has_of_not_lt hlt]

theorem innum_isSome (behind : Nat → Nat) (ptr : Option UInt32) (type len : Int) (size : Size)
    (input : ScanInput) (tab : Sctab) :
    (innum behind ptr type len size input tab).isSome ↔
      (type = code 'c' ∨ type = code 's' ∨ type = code '[' → InputOk tab type len input) := by
  unfold innum
  split
  · rename_i htype
    rw [instr_isSome]
    exact (imp_iff_right htype).symm
  · rename_i htype
    exact iff_of_true rfl fun h => absurd h htype

theorem conversionTurn_isSome (behind : Nat → Nat) (k : Conversion) (s : Scan) :
    (conversionTurn behind k s).isSome ↔
      (k.type = code 'c' ∨ k.type = code 's' ∨ k.type = code '[' →
        InputOk k.tab k.type k.len s.input) := by
  unfold conversionTurn
  dsimp only
  split
  · rename_i hzero
    apply iff_of_true rfl
    rw [hzero]
    intro h
    exact absurd h (by decide)
  · rw [← innum_isSome behind k.ptr k.type k.len k.size]
    cases innum behind k.ptr k.type k.len k.size s.input k.tab with
    | none => simp
    | some r =>
        apply iff_of_true _ rfl
        dsimp only
        split <;> rfl

/-!
## Turns
-/

/-- A turn goes well just when the next directive is harmless. -/
theorem turn_isSome (behind : Nat → Nat) (h : Terminated s.fmt) :
    (turn behind s).isSome ↔ Harmless behind s := by
  unfold turn Harmless
  cases hfmt : s.fmt with
  | nil => exact absurd hfmt h.ne_nil
  | cons c fmt =>
      dsimp only
      split
      · rename_i hnull
        apply iff_of_true rfl
        intro fmt' heq
        cases heq
        cases hnull
      · rename_i hnull
        split
        · rename_i hpercent
          have hterm : Terminated fmt := by
            rw [hfmt] at h
            exact h.cons.terminated fun hzero => hnull (code_eq_zero.mp hzero)
          split
          · rename_i hsecond
            apply iff_of_true rfl
            intro fmt' heq hne
            cases heq
            exact absurd hsecond hne
          · rename_i hsecond
            have hset := hterm.readConversion_isSome behind s.ap s.tab
            constructor
            · intro hturn fmt' heq hne
              cases heq
              cases hread : readConversion behind fmt s.ap s.tab with
              | none =>
                  rw [hread] at hturn
                  cases hturn
              | some k =>
                  rw [hread] at hturn hset
                  constructor
                  · exact hset.mp rfl
                  · intro k' hk'
                    cases hk'
                    exact (conversionTurn_isSome behind k s).mp hturn
            · intro hall
              obtain ⟨hsets, hinputs⟩ := hall fmt (by rw [hpercent]) hsecond
              obtain ⟨k, hk⟩ := Option.isSome_iff_exists.mp (hset.mpr hsets)
              rw [hk]
              exact (conversionTurn_isSome behind k s).mpr (hinputs k hk)
        · rename_i hpercent
          have hvacuous : ∀ fmt', c :: fmt = '%' :: fmt' → False := by
            intro fmt' heq
            cases heq
            exact hpercent rfl
          split
          · exact iff_of_true rfl fun fmt' heq => (hvacuous fmt' heq).elim
          · exact iff_of_true rfl fun fmt' heq => (hvacuous fmt' heq).elim

theorem conversionTurn_type {k : Conversion} (h : conversionTurn behind k s = some (.again s')) :
    k.type ≠ 0 := by
  intro hzero
  unfold conversionTurn at h
  rw [if_pos hzero] at h
  cases h

/-- After a turn that does not return, the format is not at its end. -/
theorem turn_terminated (h : Terminated s.fmt) (hnext : Next behind s s') :
    Terminated s'.fmt := by
  unfold Next turn at hnext
  cases hfmt : s.fmt with
  | nil => exact absurd hfmt h.ne_nil
  | cons c fmt =>
      rw [hfmt] at hnext h
      dsimp only at hnext
      split at hnext
      · cases hnext
      · rename_i hnull
        have hterm : Terminated fmt :=
          h.cons.terminated fun hzero => hnull (code_eq_zero.mp hzero)
        split at hnext
        · split at hnext
          · rename_i hsecond
            cases fmt with
            | nil => cases hsecond
            | cons d fmt =>
                cases hsecond
                rw [literalTurn_fmt (Option.some.inj hnext)]
                exact hterm.cons.terminated (by decide)
          · split at hnext
            · cases hnext
            · rename_i k hread
              rw [conversionTurn_fmt hnext]
              exact hterm.readConversion hread (conversionTurn_type hnext)
        · split at hnext
          · cases hnext
            exact hterm
          · rw [literalTurn_fmt (Option.some.inj hnext)]
            exact hterm

/-- The scanner returns from a format just when every directive that it comes to is harmless. -/
theorem doscan_isSome (h : Terminated s.fmt) : (doscan behind s).isSome ↔
    ∀ s', ReflTransGen (Next behind) s s' → Harmless behind s' := by
  induction hn : s.fmt.length using Nat.strong_induction_on generalizing s with
  | _ n ih =>
      have hfirst := turn_isSome behind h
      cases hturn : turn behind s with
      | none =>
          rw [hturn] at hfirst
          rw [doscan_none hturn]
          apply iff_of_false Bool.false_ne_true
          intro hall
          exact Bool.false_ne_true (hfirst.mpr (hall s .refl))
      | some t =>
          rw [hturn] at hfirst
          have hsafe := hfirst.mp rfl
          cases t with
          | done ret s₁ =>
              rw [doscan_done hturn]
              apply iff_of_true rfl
              intro s' hrun
              cases hrun.cases_head with
              | inl heq =>
                  rw [← heq]
                  exact hsafe
              | inr hstep =>
                  obtain ⟨s₂, hnext, -⟩ := hstep
                  rw [Next, hturn] at hnext
                  cases hnext
          | again s₁ =>
              have hrest := ih s₁.fmt.length (hn ▸ turn_length hturn) (turn_terminated h hturn) rfl
              rw [doscan_again hturn, hrest]
              constructor
              · intro hall s' hrun
                cases hrun.cases_head with
                | inl heq =>
                    rw [← heq]
                    exact hsafe
                | inr hstep =>
                    obtain ⟨s₂, hnext, hlater⟩ := hstep
                    rw [Next, hturn] at hnext
                    cases hnext
                    exact hall s' hlater
              · intro hall s' hrun
                exact hall s' (.head hturn hrun)

end

/-- The variables of the scanner when {lit}`sscanf` calls it. -/
def sscanfStart (tab : Sctab) (str : ScanInput) (fmt : List Char) (args : VaList) : Scan where
  fmt := fmt ++ [NULLCH]
  input := str
  tab := tab
  ap := args
  nmatch := 0
  stores := []

/-- A format is scanned to a result, without a read behind its null character or outside of the
character table, just when every directive that the scanner comes to is harmless. -/
theorem sscanf_safe_iff (behind : Nat → Nat) (tab : Sctab) (str : ScanInput) (fmt : List Char)
    (args : VaList) (hfmt : NULLCH ∉ fmt) :
    (∃ ret s, sscanf behind tab str fmt args = some (ret, s)) ↔
      ∀ s, ReflTransGen (Next behind) (sscanfStart tab str fmt args) s → Harmless behind s := by
  have hterm : Terminated (sscanfStart tab str fmt args).fmt := ⟨fmt, hfmt, rfl⟩
  rw [← doscan_isSome hterm, Option.isSome_iff_exists, Prod.exists]
  rfl

/-- A string of one character in a memory of null characters. -/
def sampleInput : ScanInput := ⟨fun _ => NULLCH, ['a', NULLCH]⟩

theorem sscanf_safe_literal :
    NULLCH ∉ ['a'] ∧ ((∃ ret s, sscanf (fun _ => 0) (fun _ => 0) sampleInput ['a'] (fun _ => 0) =
        some (ret, s)) ↔
      ∀ s, ReflTransGen (Next fun _ => 0)
        (sscanfStart (fun _ => 0) sampleInput ['a'] fun _ => 0) s → Harmless (fun _ => 0) s) :=
  ⟨by decide, sscanf_safe_iff (fun _ => 0) (fun _ => 0) sampleInput ['a'] (fun _ => 0) (by decide)⟩

/-- The set in {lit}`%[a` is not closed. -/
theorem not_scan_formats_safe : ¬∀ (behind : Nat → Nat) (tab : Sctab) (str : ScanInput)
    (fmt : List Char) (args : VaList), NULLCH ∉ fmt →
      ∃ ret s, sscanf behind tab str fmt args = some (ret, s) := by
  intro h
  obtain ⟨ret, s, heq⟩ := h (fun _ => 0) (fun _ => 0) sampleInput ['%', '[', 'a'] (fun _ => 0)
    (by decide)
  cases heq

end Stdio
end BbbXinu
