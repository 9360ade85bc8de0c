import BbbXinu.Shell.Set
import Mathlib.Data.List.TakeWhile

/-!
# Texts and numbers

When {lit}`strncmp` finds two strings equal, and which number {lit}`atol` reads
out of a text of blanks, a sign and digits, whole or cut off.
-/

namespace BbbXinu

/-- A decimal digit. -/
def IsDigit (c : Char) : Prop := '0' ≤ c ∧ c ≤ '9'

instance (c : Char) : Decidable (IsDigit c) := inferInstanceAs (Decidable (_ ∧ _))

/-- The number that digits stand for, after those that stand for {lit}`n`. -/
def decimalFrom (n : Nat) (ds : List Char) : Nat :=
  ds.foldl (fun n c => n * 10 + (c.toNat - '0'.toNat)) n

/-- Whether there is a minus sign, and what comes after the sign. -/
def splitSign : List Char → Bool × List Char
  | [] => (false, [])
  | c :: p => if c = '-' then (true, p) else if c = '+' then (false, p) else (false, c :: p)

/-- The sign and what comes after it, behind the blanks. -/
def signed (p : List Char) : Bool × List Char :=
  splitSign (p.dropWhile fun c => c = ' ' ∨ c = '\t')

def AllDigits (ds : List Char) : Prop := ∀ c ∈ ds, IsDigit c

instance (ds : List Char) : Decidable (AllDigits ds) := List.decidableBAll IsDigit ds

/-- The number that a text consists of. -/
def numeral (p : List Char) : Option Int :=
  let r := signed p
  if r.2 ≠ [] ∧ AllDigits r.2 then
    some (if r.1 then -(decimalFrom 0 r.2 : Int) else decimalFrom 0 r.2)
  else none

section

variable {s t p ds : List Char} {c : Char} {n k : Nat}

/-!
## Comparing
-/

theorem cstring_eq (s : List Char) : cstring s =
    if s.headD NULLCH = NULLCH then [] else s.headD NULLCH :: cstring s.tail := by
  cases s with
  | nil => rfl
  | cons c s =>
      unfold cstring
      rw [List.takeWhile_cons]
      by_cases hc : c = NULLCH
      · rw [if_neg (by simpa using hc)]
        exact (if_pos hc).symm
      · rw [if_pos (by simpa using hc)]
        exact (if_neg hc).symm

/-- {lit}`strncmp` compares the strings before the null character, up to a length. -/
theorem strncmp_eq_zero :
    strncmp s t n = 0 ↔ (cstring s).take n = (cstring t).take n := by
  induction n generalizing s t with
  | zero => exact iff_of_true rfl rfl
  | succ n ih =>
      unfold strncmp
      dsimp only
      rw [cstring_eq s, cstring_eq t]
      by_cases hab : s.headD NULLCH = t.headD NULLCH
      · rw [if_pos hab, hab]
        by_cases hnull : t.headD NULLCH = NULLCH
        · rw [if_pos hnull, if_pos hnull, if_pos hnull]
          exact iff_of_true rfl rfl
        · rw [if_neg hnull, if_neg hnull, if_neg hnull, List.take_succ_cons, List.take_succ_cons, ih]
          exact ⟨congrArg _, fun h => (List.cons.inj h).2⟩
      · rw [if_neg hab]
        apply iff_of_false
        · intro hzero
          apply hab
          apply Char.toNat_inj.mp
          omega
        · intro htake
          apply hab
          by_cases ha : s.headD NULLCH = NULLCH
          · rw [if_pos ha] at htake
            by_cases hb : t.headD NULLCH = NULLCH
            · rw [ha, hb]
            · rw [if_neg hb] at htake
              cases htake
          · rw [if_neg ha] at htake
            by_cases hb : t.headD NULLCH = NULLCH
            · rw [if_pos hb] at htake
              cases htake
            · rw [if_neg hb] at htake
              exact (List.cons.inj htake).1

theorem headD_eq_of_strncmp (h : strncmp s t (n + 1) = 0) : s.headD NULLCH = t.headD NULLCH := by
  by_contra hne
  unfold strncmp at h
  dsimp only at h
  rw [if_neg hne] at h
  apply hne
  apply Char.toNat_inj.mp
  omega

theorem cstring_cstring (s : List Char) : cstring (cstring s) = cstring s := by
  unfold cstring
  exact List.takeWhile_idem

/-!
## Digits
-/

theorem IsDigit.bounds (h : IsDigit c) : 48 ≤ c.toNat ∧ c.toNat ≤ 57 :=
  ⟨UInt32.le_iff_toNat_le.mp h.1, UInt32.le_iff_toNat_le.mp h.2⟩

theorem decimalFrom_nil (n : Nat) : decimalFrom n [] = n := rfl

theorem decimalFrom_cons (n : Nat) (c : Char) (ds : List Char) :
    decimalFrom n (c :: ds) = decimalFrom (n * 10 + (c.toNat - '0'.toNat)) ds := by
  unfold decimalFrom
  rw [List.foldl_cons]

/-- Every further digit makes the number at least ten times as large. -/
theorem decimalFrom_ge (n : Nat) (ds : List Char) (hds : ds ≠ []) : n * 10 ≤ decimalFrom n ds := by
  induction ds generalizing n with
  | nil => exact absurd rfl hds
  | cons c ds ih =>
      rw [decimalFrom_cons]
      generalize c.toNat - '0'.toNat = k
      cases ds with
      | nil =>
          rw [decimalFrom_nil]
          exact Nat.le_add_right _ _
      | cons d ds =>
          have hmore := ih (n * 10 + k) (List.cons_ne_nil _ _)
          omega

theorem decimalFrom_take (hk : k < ds.length) :
    decimalFrom 0 (ds.take k) * 10 ≤ decimalFrom 0 ds := by
  have hsplit : decimalFrom 0 ds = decimalFrom (decimalFrom 0 (ds.take k)) (ds.drop k) := by
    unfold decimalFrom
    rw [← List.foldl_append, List.take_append_drop]
  rw [hsplit]
  exact decimalFrom_ge _ _ (List.drop_eq_nil_iff.not.mpr (Nat.not_le.mpr hk))

theorem int32_step (m x : Int) : int32 (int32 m * 10 + x) = int32 (m * 10 + x) := by
  have hm : int32 m % 4294967296 = m % 4294967296 := Int.bmod_emod
  have hsame : (int32 m * 10 + x) % 4294967296 = (m * 10 + x) % 4294967296 := by omega
  have hmod : ∀ y : Int, int32 y = (y % 4294967296).bmod 4294967296 := fun y =>
    (Int.emod_bmod y 4294967296).symm
  rw [hmod (int32 m * 10 + x), hsame, ← hmod]

/-- {lit}`atol` reads digits to the end, in 32 bits. -/
theorem atolDigits_eq (hds : ∀ c ∈ ds, IsDigit c) (n : Nat) :
    atolDigits (int32 n) ds = int32 (decimalFrom n ds) := by
  induction ds generalizing n with
  | nil => rfl
  | cons c ds ih =>
      have hc := hds c List.mem_cons_self
      have hbounds := hc.bounds
      have hstep : int32 (int32 n * 10 + c.toNat - '0'.toNat) =
          int32 (n * 10 + (c.toNat - '0'.toNat) : Nat) := by
        have hzero : '0'.toNat = 48 := rfl
        have hcast : ((n * 10 + (c.toNat - '0'.toNat) : Nat) : Int) =
            n * 10 + (c.toNat - '0'.toNat : Int) := by omega
        rw [hcast, Int.add_sub_assoc]
        exact int32_step n _
      unfold atolDigits
      rw [if_pos (show '0' ≤ c ∧ c ≤ '9' from hc), hstep,
        ih (fun d hd => hds d (List.mem_cons_of_mem c hd)), decimalFrom_cons]

theorem uint32_int32 (x : Int) : uint32 (int32 x) = uint32 x := by
  have hx : int32 x % 4294967296 = x % 4294967296 := Int.bmod_emod
  unfold uint32
  rw [hx]

/-!
## Numbers
-/

theorem splitSign_cons (c : Char) (p : List Char) : splitSign (c :: p) =
    if c = '-' then (true, p) else if c = '+' then (false, p) else (false, c :: p) := rfl

/-- {lit}`atol` reads the digits behind the sign. -/
theorem atol_eq (p : List Char) : atol p =
    if (signed p).1 then int32 (-atolDigits 0 (signed p).2) else atolDigits 0 (signed p).2 := by
  unfold atol signed
  generalize p.dropWhile _ = q
  cases q with
  | nil => rfl
  | cons c q =>
      rw [splitSign_cons]
      by_cases hminus : c = '-'
      · rw [hminus]
        rfl
      · by_cases hplus : c = '+'
        · rw [hplus]
          rfl
        · rw [if_neg hminus, if_neg hplus]
          split
          · rename_i heq
            exact absurd (List.cons.inj heq).1 hminus
          · rename_i heq
            exact absurd (List.cons.inj heq).1 hplus
          · rfl

theorem int32_zero : int32 (0 : Nat) = 0 := rfl

theorem uint32_atol (hds : ∀ c ∈ (signed p).2, IsDigit c)
    (hpos : (signed p).1 = true → decimalFrom 0 (signed p).2 = 0) :
    uint32 (atol p) = uint32 (decimalFrom 0 (signed p).2) := by
  have hread := atolDigits_eq hds 0
  rw [int32_zero] at hread
  rw [atol_eq]
  by_cases hneg : (signed p).1 = true
  · rw [if_pos hneg, hread, hpos hneg]
    rfl
  · rw [if_neg hneg, hread, uint32_int32]

/-- What is left of the blanks and of the rest when a text is cut off. -/
theorem dropWhile_take (b : Char → Bool) (p : List Char) (k : Nat) :
    (p.take k).dropWhile b = (p.dropWhile b).take (k - (p.takeWhile b).length) := by
  induction p generalizing k with
  | nil => rw [List.take_nil, List.dropWhile_nil, List.take_nil]
  | cons c p ih =>
      cases k with
      | zero => rw [Nat.zero_sub, List.take_zero, List.take_zero, List.dropWhile_nil]
      | succ k =>
          rw [List.take_succ_cons]
          by_cases hc : b c = true
          · rw [List.dropWhile_cons_of_pos hc, List.dropWhile_cons_of_pos hc,
              List.takeWhile_cons_of_pos hc, List.length_cons, Nat.add_sub_add_right, ih]
          · rw [List.dropWhile_cons_of_neg hc, List.dropWhile_cons_of_neg hc,
              List.takeWhile_cons_of_neg hc, List.length_nil, Nat.sub_zero, List.take_succ_cons]

theorem splitSign_take {q : List Char} {k : Nat} (hk : k < q.length) (hne : (splitSign q).2 ≠ []) :
    ∃ j < (splitSign q).2.length, (splitSign (q.take k)).2 = (splitSign q).2.take j ∧
      ((splitSign (q.take k)).1 = (splitSign q).1 ∨ j = 0) := by
  cases k with
  | zero => exact ⟨0, List.length_pos_of_ne_nil hne, rfl, Or.inr rfl⟩
  | succ k =>
      cases q with
      | nil => exact absurd rfl hne
      | cons c q =>
          rw [List.length_cons] at hk
          rw [splitSign_cons] at hne
          rw [List.take_succ_cons, splitSign_cons, splitSign_cons]
          by_cases hminus : c = '-'
          · rw [if_pos hminus, if_pos hminus]
            exact ⟨k, Nat.lt_of_succ_lt_succ hk, rfl, Or.inl rfl⟩
          · rw [if_neg hminus, if_neg hminus]
            by_cases hplus : c = '+'
            · rw [if_pos hplus, if_pos hplus]
              exact ⟨k, Nat.lt_of_succ_lt_succ hk, rfl, Or.inl rfl⟩
            · rw [if_neg hplus, if_neg hplus]
              exact ⟨k + 1, hk, rfl, Or.inl rfl⟩

/-- Cutting off a text cuts off its digits, and the sign is lost only with all of them. -/
theorem signed_take (hk : k < p.length) (hne : (signed p).2 ≠ []) :
    ∃ j < (signed p).2.length, (signed (p.take k)).2 = (signed p).2.take j ∧
      ((signed (p.take k)).1 = (signed p).1 ∨ j = 0) := by
  unfold signed at hne ⊢
  rw [dropWhile_take]
  apply splitSign_take _ hne
  have hsplit := congrArg List.length
    (List.takeWhile_append_dropWhile (p := fun c => decide (c = ' ' ∨ c = '\t')) (l := p))
  rw [List.length_append] at hsplit
  have hrest : p.dropWhile (fun c => decide (c = ' ' ∨ c = '\t')) ≠ [] := by
    intro hnil
    rw [hnil] at hne
    exact hne rfl
  have hpos := List.length_pos_of_ne_nil hrest
  omega

theorem numeral_some {n : Int} (h : numeral p = some n) :
    (signed p).2 ≠ [] ∧ (∀ c ∈ (signed p).2, IsDigit c) ∧
      n = if (signed p).1 then -(decimalFrom 0 (signed p).2 : Int)
        else decimalFrom 0 (signed p).2 := by
  unfold numeral at h
  dsimp only at h
  by_cases hnum : (signed p).2 ≠ [] ∧ AllDigits (signed p).2
  · rw [if_pos hnum] at h
    exact ⟨hnum.1, hnum.2, (Option.some.inj h).symm⟩
  · rw [if_neg hnum] at h
    cases h

/-- A number that is not negative has the value of its digits. -/
theorem numeral_natCast (h : numeral p = some (n : Int)) : decimalFrom 0 (signed p).2 = n := by
  rcases numeral_some h with ⟨_, _, hn⟩
  split at hn
  · omega
  · omega

theorem atol_numeral (h : numeral p = some (n : Int)) (hn : n < 4294967296) :
    uint32 (atol p) = n := by
  rcases numeral_some h with ⟨_, hds, hsign⟩
  rw [uint32_atol hds, numeral_natCast h]
  · unfold uint32
    omega
  · intro hneg
    rw [if_pos hneg] at hsign
    omega

/-- Of a number that is cut off, {lit}`atol` reads at most a tenth. -/
theorem atol_take (h : numeral p = some (n : Int)) (hn : n < 4294967296) (hk : k < p.length) :
    uint32 (atol (p.take k)) * 10 ≤ n := by
  rcases numeral_some h with ⟨hne, hds, hsign⟩
  rcases signed_take hk hne with ⟨j, hj, hdigits, hneg⟩
  have htenth := decimalFrom_take hj
  rw [numeral_natCast h] at htenth
  have hread : uint32 (atol (p.take k)) = uint32 (decimalFrom 0 ((signed p).2.take j)) := by
    rw [uint32_atol, hdigits]
    · rw [hdigits]
      exact fun c hc => hds c (List.mem_of_mem_take hc)
    · rw [hdigits]
      intro hminus
      rcases hneg with hsame | hzero
      · rw [hsame] at hminus
        rw [if_pos hminus] at hsign
        omega
      · rw [hzero]
        rfl
  rw [hread]
  unfold uint32
  omega

/-- A number starts with a blank, a sign or a digit. -/
theorem numeral_head (h : numeral p ≠ none) : ¬ 'a' ≤ p.headD NULLCH := by
  rcases Option.ne_none_iff_exists'.mp h with ⟨n, hn⟩
  rcases numeral_some hn with ⟨_, hds, _⟩
  cases p with
  | nil => decide
  | cons c p =>
      change ¬ 'a' ≤ c
      by_cases hblank : c = ' ' ∨ c = '\t'
      · rcases hblank with rfl | rfl
        · decide
        · decide
      · unfold signed at hds
        rw [List.dropWhile_cons_of_neg (by simpa using hblank), splitSign_cons] at hds
        by_cases hminus : c = '-'
        · rw [hminus]
          decide
        · by_cases hplus : c = '+'
          · rw [hplus]
            decide
          · rw [if_neg hminus, if_neg hplus] at hds
            have hdigit := (hds c List.mem_cons_self).bounds
            intro hletter
            have hlow : 97 ≤ c.toNat := UInt32.le_iff_toNat_le.mp hletter
            omega

end

end BbbXinu
