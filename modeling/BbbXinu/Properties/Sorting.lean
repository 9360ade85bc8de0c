import BbbXinu.Stdlib.Qsort
import BbbXinu.Lib.Rearrangements
import Mathlib.Algebra.Order.Ring.Abs
import Mathlib.Tactic.Ring

/-!
# A sorted array

The partition keeps the smaller elements on the left, a block of equal elements in the middle and
the larger elements on the right.  This is shown for an array of whole elements, and the
partition of the bytes in memory does the same to the elements seen in the memory.
-/

namespace BbbXinu
namespace Sorting

open Rearrangements

/-- The operations on an array of whole elements. -/
def elementOps {α : Type} (cmp : α → α → Int) : QsOps (Int → α) where
  qscmp X p q := cmp (X p) (X q)
  qsexc X p q := exchange X p q
  qstexc X p q r := exchange3 X p q r

/-!
## What the partition keeps
-/

/-- The array between {lit}`a` and {lit}`l` is being parted at the element {lit}`v`. -/
structure Parting {α : Type} (cmp : α → α → Int) (v : α) (X₀ : Int → α) (a l n : Int)
    (s : Qs (Int → α)) : Prop where
  start : 0 ≤ a
  left : a ≤ s.i
  low : s.i ≤ s.lp
  block : s.lp ≤ s.hp
  high : s.hp ≤ s.j
  right : s.j < l
  size : l ≤ n
  rearranged : Rearranged a l X₀ s.mem
  below : ∀ k, a ≤ k → k < s.i → cmp (s.mem k) v < 0
  equal : ∀ k, s.lp ≤ k → k ≤ s.hp → cmp (s.mem k) v = 0
  above : ∀ k, s.j < k → k < l → 0 < cmp (s.mem k) v
  touched : ∀ p ∈ s.touched, 0 ≤ p ∧ p < n

/-- At {lit}`loop` the left scan has found a larger element or reached the block. -/
def Stopped {α : Type} (cmp : α → α → Int) (v : α) (label : Label) (s : Qs (Int → α)) : Prop :=
  label = .loop → s.i = s.lp ∨ 0 < cmp (s.mem s.i) v

/-- How many steps are left at most. -/
def work {M : Type} (label : Label) (s : Qs M) : Int :=
  2 * (s.lp - s.i + (s.j - s.hp)) + (if label = .top then 1 else 0)

section

variable {α : Type} {cmp : α → α → Int} {v : α} {X₀ : Int → α} {a l n : Int}
  {s s' : Qs (Int → α)} {label label' : Label}

/-- A step that moves the limits and exchanges elements keeps the parts, when every element that
is not where it was belongs to its part. -/
theorem Parting.move (h : Parting cmp v X₀ a l n s) (ps : List Int)
    (hlimits : a ≤ s'.i ∧ s'.i ≤ s'.lp ∧ s'.lp ≤ s'.hp ∧ s'.hp ≤ s'.j ∧ s'.j < l)
    (hmem : Rearranged a l s.mem s'.mem)
    (hbelow : ∀ k, a ≤ k → k < s'.i →
      (k < s.i ∧ s'.mem k = s.mem k) ∨ cmp (s'.mem k) v < 0)
    (hequal : ∀ k, s'.lp ≤ k → k ≤ s'.hp →
      ((s.lp ≤ k ∧ k ≤ s.hp) ∧ s'.mem k = s.mem k) ∨ cmp (s'.mem k) v = 0)
    (habove : ∀ k, s'.j < k → k < l → (s.j < k ∧ s'.mem k = s.mem k) ∨ 0 < cmp (s'.mem k) v)
    (htouched : s'.touched = s.touched ++ ps) (hps : ∀ p ∈ ps, a ≤ p ∧ p < l) :
    Parting cmp v X₀ a l n s' := by
  obtain ⟨hleft, hlow, hblock, hhigh, hright⟩ := hlimits
  refine ⟨h.start, hleft, hlow, hblock, hhigh, hright, h.size, h.rearranged.trans hmem,
    fun k hk hki => ?_, fun k hk hkhp => ?_, fun k hk hkl => ?_, fun p hp => ?_⟩
  · cases hbelow k hk hki with
    | inl hold =>
        rw [hold.2]
        exact h.below k hk hold.1
    | inr hnew => exact hnew
  · cases hequal k hk hkhp with
    | inl hold =>
        rw [hold.2]
        exact h.equal k hold.1.1 hold.1.2
    | inr hnew => exact hnew
  · cases habove k hk hkl with
    | inl hold =>
        rw [hold.2]
        exact h.above k hold.1 hkl
    | inr hnew => exact hnew
  · rw [htouched] at hp
    cases List.mem_append.mp hp with
    | inl hold => exact h.touched p hold
    | inr hnew =>
        have hin := hps p hnew
        have hstart := h.start
        have hsize := h.size
        omega

/-- The limits of the parts. -/
theorem Parting.limits (h : Parting cmp v X₀ a l n s) :
    a ≤ s.i ∧ s.i ≤ s.lp ∧ s.lp ≤ s.hp ∧ s.hp ≤ s.j ∧ s.j < l :=
  ⟨h.left, h.low, h.block, h.high, h.right⟩

/-- Elements of the array are compared. -/
theorem Parting.touch (h : Parting cmp v X₀ a l n s) (ps : List Int)
    (hps : ∀ p ∈ ps, a ≤ p ∧ p < l) : Parting cmp v X₀ a l n (s.touch ps) := by
  apply h.move ps
  · exact h.limits
  · exact Rearranged.refl a l s.mem
  · intro k _ hk
    exact Or.inl ⟨hk, rfl⟩
  · intro k hk hkhp
    exact Or.inl ⟨⟨hk, hkhp⟩, rfl⟩
  · intro k hk _
    exact Or.inl ⟨hk, rfl⟩
  · rfl
  · exact hps

/-- The left scan passes a smaller element. -/
theorem Parting.passLow (h : Parting cmp v X₀ a l n s) (hlt : s.i < s.lp)
    (hneg : cmp (s.mem s.i) v < 0) :
    Parting cmp v X₀ a l n { s.touch [s.i, s.lp] with i := s.i + 1 } := by
  have hlimits := h.limits
  apply h.move [s.i, s.lp]
  · simp [Qs.touch]
    omega
  · exact Rearranged.refl a l s.mem
  · intro k _ hk
    by_cases hlast : k = s.i
    · right
      rw [hlast]
      exact hneg
    · left
      exact ⟨(Int.le_of_lt_add_one hk).lt_of_ne hlast, rfl⟩
  · intro k hk hkhp
    exact Or.inl ⟨⟨hk, hkhp⟩, rfl⟩
  · intro k hk _
    exact Or.inl ⟨hk, rfl⟩
  · rfl
  · simp
    omega

/-- The left scan meets an equal element. -/
theorem Parting.takeLow (h : Parting cmp v X₀ a l n s) (hlt : s.i < s.lp)
    (heq : cmp (s.mem s.i) v = 0) :
    Parting cmp v X₀ a l n
      { (s.touch [s.i, s.lp]).exc (elementOps cmp) s.i (s.lp - 1) with lp := s.lp - 1 } := by
  have hlimits := h.limits
  apply h.move [s.i, s.lp, s.i, s.lp - 1]
  · simp [Qs.exc, Qs.touch]
    omega
  · apply rearranged_exchange <;> omega
  · intro k _ hk
    have hk' : k < s.i := hk
    exact Or.inl ⟨hk', exchange_of_ne (by omega) (by omega)⟩
  · intro k hk hkhp
    have hk' : s.lp - 1 ≤ k := hk
    by_cases hlast : k = s.lp - 1
    · right
      rw [hlast]
      exact (congrArg (cmp · v) exchange_right).trans heq
    · left
      exact ⟨⟨by omega, hkhp⟩, exchange_of_ne (by omega) hlast⟩
  · intro k hk _
    have hk' : s.j < k := hk
    exact Or.inl ⟨hk', exchange_of_ne (by omega) (by omega)⟩
  · simp [Qs.exc, Qs.touch]
  · simp
    omega

/-- The right scan passes a larger element. -/
theorem Parting.passHigh (h : Parting cmp v X₀ a l n s) (hlt : s.hp < s.j)
    (hpos : 0 < cmp (s.mem s.j) v) :
    Parting cmp v X₀ a l n { s.touch [s.hp, s.j] with j := s.j - 1 } := by
  have hlimits := h.limits
  apply h.move [s.hp, s.j]
  · simp [Qs.touch]
    omega
  · exact Rearranged.refl a l s.mem
  · intro k _ hk
    exact Or.inl ⟨hk, rfl⟩
  · intro k hk hkhp
    exact Or.inl ⟨⟨hk, hkhp⟩, rfl⟩
  · intro k hk _
    by_cases hlast : k = s.j
    · right
      rw [hlast]
      exact hpos
    · left
      exact ⟨(Int.le_of_sub_one_lt hk).lt_of_ne (Ne.symm hlast), rfl⟩
  · rfl
  · simp
    omega

/-- The right scan meets an equal element. -/
theorem Parting.takeHigh (h : Parting cmp v X₀ a l n s) (hlt : s.hp < s.j)
    (heq : cmp (s.mem s.j) v = 0) :
    Parting cmp v X₀ a l n
      { (s.touch [s.hp, s.j]).exc (elementOps cmp) (s.hp + 1) s.j with hp := s.hp + 1 } := by
  have hlimits := h.limits
  apply h.move [s.hp, s.j, s.hp + 1, s.j]
  · simp [Qs.exc, Qs.touch]
    omega
  · apply rearranged_exchange <;> omega
  · intro k _ hk
    have hk' : k < s.i := hk
    exact Or.inl ⟨hk', exchange_of_ne (by omega) (by omega)⟩
  · intro k hk hkhp
    have hk' : k ≤ s.hp + 1 := hkhp
    have hlp : s.lp ≤ k := hk
    by_cases hlast : k = s.hp + 1
    · right
      rw [hlast]
      exact (congrArg (cmp · v) exchange_left).trans heq
    · left
      exact ⟨⟨hlp, by omega⟩, exchange_of_ne hlast (by omega)⟩
  · intro k hk _
    have hk' : s.j < k := hk
    exact Or.inl ⟨hk', exchange_of_ne (by omega) (by omega)⟩
  · simp [Qs.exc, Qs.touch]
  · simp
    omega

/-- The right scan meets a smaller element while the left scan has found a larger one. -/
theorem Parting.cross (h : Parting cmp v X₀ a l n s) (hlt : s.hp < s.j) (hne : s.i < s.lp)
    (hneg : cmp (s.mem s.j) v < 0) (hpos : 0 < cmp (s.mem s.i) v) :
    Parting cmp v X₀ a l n
      { (s.touch [s.hp, s.j]).exc (elementOps cmp) s.i s.j with j := s.j - 1, i := s.i + 1 } := by
  have hlimits := h.limits
  apply h.move [s.hp, s.j, s.i, s.j]
  · simp [Qs.exc, Qs.touch]
    omega
  · apply rearranged_exchange <;> omega
  · intro k _ hk
    have hk' : k < s.i + 1 := hk
    by_cases hlast : k = s.i
    · right
      rw [hlast]
      exact (congrArg (cmp · v) exchange_left).trans_lt hneg
    · left
      exact ⟨by omega, exchange_of_ne hlast (by omega)⟩
  · intro k hk hkhp
    have hlp : s.lp ≤ k := hk
    have hhp : k ≤ s.hp := hkhp
    exact Or.inl ⟨⟨hlp, hhp⟩, exchange_of_ne (by omega) (by omega)⟩
  · intro k hk _
    have hk' : s.j - 1 < k := hk
    by_cases hlast : k = s.j
    · right
      rw [hlast]
      exact hpos.trans_eq (congrArg (cmp · v) exchange_right).symm
    · left
      exact ⟨by omega, exchange_of_ne (by omega) hlast⟩
  · simp [Qs.exc, Qs.touch]
  · simp
    omega

/-- The right scan meets a smaller element after the left scan has reached the block, which is
moved up. -/
theorem Parting.moveUp (h : Parting cmp v X₀ a l n s) (hlt : s.hp < s.j) (hi : s.i = s.lp)
    (hneg : cmp (s.mem s.j) v < 0) :
    Parting cmp v X₀ a l n
      { (s.touch [s.hp, s.j]).texc (elementOps cmp) s.i (s.hp + 1) s.j with
        hp := s.hp + 1, lp := s.lp + 1, i := s.lp + 1 } := by
  have hlimits := h.limits
  have hzero := h.equal s.i (by omega) (by omega)
  apply h.move [s.hp, s.j, s.i, s.hp + 1, s.j]
  · simp [Qs.texc, Qs.touch]
    omega
  · apply rearranged_exchange3 <;> omega
  · intro k _ hk
    have hk' : k < s.lp + 1 := hk
    by_cases hlast : k = s.i
    · right
      rw [hlast]
      exact (congrArg (cmp · v) (exchange3_left (by omega) (by omega))).trans_lt hneg
    · left
      exact ⟨by omega, exchange3_of_ne hlast (by omega) (by omega)⟩
  · intro k hk hkhp
    have hlp : s.lp + 1 ≤ k := hk
    have hhp : k ≤ s.hp + 1 := hkhp
    by_cases hlast : k = s.hp + 1
    · right
      rw [hlast]
      exact (congrArg (cmp · v) exchange3_right).trans hzero
    · left
      exact ⟨by omega, exchange3_of_ne (by omega) hlast (by omega)⟩
  · intro k hk _
    have hk' : s.j < k := hk
    exact Or.inl ⟨hk', exchange3_of_ne (by omega) (by omega) (by omega)⟩
  · simp [Qs.texc, Qs.touch]
  · simp
    omega

/-- The right scan has reached the block while the left scan has found a larger element, and the
block is moved down. -/
theorem Parting.moveDown (h : Parting cmp v X₀ a l n s) (hj : s.j = s.hp) (hne : s.i < s.lp)
    (hpos : 0 < cmp (s.mem s.i) v) :
    Parting cmp v X₀ a l n
      { s.texc (elementOps cmp) s.j (s.lp - 1) s.i with
        lp := s.lp - 1, hp := s.hp - 1, j := s.hp - 1 } := by
  have hlimits := h.limits
  have hzero := h.equal s.j (by omega) (by omega)
  apply h.move [s.j, s.lp - 1, s.i]
  · simp [Qs.texc]
    omega
  · apply rearranged_exchange3 <;> omega
  · intro k _ hk
    have hk' : k < s.i := hk
    exact Or.inl ⟨hk', exchange3_of_ne (by omega) (by omega) (by omega)⟩
  · intro k hk hkhp
    have hlp : s.lp - 1 ≤ k := hk
    have hhp : k ≤ s.hp - 1 := hkhp
    by_cases hlast : k = s.lp - 1
    · right
      rw [hlast]
      exact (congrArg (cmp · v) exchange3_right).trans hzero
    · left
      exact ⟨by omega, exchange3_of_ne (by omega) hlast (by omega)⟩
  · intro k hk _
    have hk' : s.hp - 1 < k := hk
    by_cases hlast : k = s.j
    · right
      rw [hlast]
      exact hpos.trans_eq (congrArg (cmp · v) (exchange3_left (by omega) (by omega))).symm
    · left
      exact ⟨by omega, exchange3_of_ne hlast (by omega) (by omega)⟩
  · simp [Qs.texc]
  · simp
    omega

theorem stopped_top : Stopped cmp v .top s := by
  intro h
  cases h

/-- The left scan keeps the parts and leaves less to do. -/
theorem Parting.keptTop (hcmp : TotalPreorder cmp) (h : Parting cmp v X₀ a l n s)
    (hstep : topStep (elementOps cmp) 1 s = (label', s')) :
    Parting cmp v X₀ a l n s' ∧ Stopped cmp v label' s' ∧ work label' s' < work .top s := by
  have hlimits := h.limits
  have hsign := hcmp.congr (x := s.mem s.i) (h.equal s.lp (by omega) (by omega))
  have hops : (elementOps cmp).qscmp s.mem s.i s.lp = cmp (s.mem s.i) (s.mem s.lp) := rfl
  simp only [topStep, hops] at hstep
  split at hstep
  case isTrue hlt =>
    split at hstep
    case isTrue heq =>
      cases hstep
      refine ⟨h.takeLow hlt (hsign.2.mp heq), stopped_top, ?_⟩
      simp [work, Qs.exc, Qs.touch]
    case isFalse hne =>
      split at hstep
      case isTrue hneg =>
        cases hstep
        refine ⟨h.passLow hlt (hsign.1.mp hneg), stopped_top, ?_⟩
        simp [work, Qs.touch]
      case isFalse hpos =>
        cases hstep
        refine ⟨?_, fun _ => Or.inr ?_, ?_⟩
        · exact h.touch [s.i, s.lp] (by simp; omega)
        · show 0 < cmp (s.mem s.i) v
          omega
        · simp [work, Qs.touch]
  case isFalse hge =>
    cases hstep
    refine ⟨h, fun _ => Or.inl (by omega), ?_⟩
    simp [work]

/-- The right scan keeps the parts and leaves less to do. -/
theorem Parting.keptLoop (hcmp : TotalPreorder cmp) (h : Parting cmp v X₀ a l n s)
    (hstop : Stopped cmp v .loop s)
    (hstep : loopStep (elementOps cmp) 1 s = some (label', s')) :
    Parting cmp v X₀ a l n s' ∧ Stopped cmp v label' s' ∧ work label' s' < work .loop s := by
  have hlimits := h.limits
  have hsign := hcmp.congr_symm (x := s.mem s.j) (h.equal s.hp (by omega) (by omega))
  have hops : (elementOps cmp).qscmp s.mem s.hp s.j = cmp (s.mem s.hp) (s.mem s.j) := rfl
  have hlarge : s.i ≠ s.lp → 0 < cmp (s.mem s.i) v := (hstop rfl).resolve_left
  simp only [loopStep, hops] at hstep
  split at hstep
  case isTrue hlt =>
    split at hstep
    case isTrue heq =>
      cases hstep
      refine ⟨h.takeHigh hlt (hsign.2.mp heq), fun _ => ?_, ?_⟩
      · cases hstop rfl with
        | inl hi => exact Or.inl hi
        | inr hpos =>
            by_cases hi : s.i = s.lp
            · exact Or.inl hi
            · right
              have hsame : exchange s.mem (s.hp + 1) s.j s.i = s.mem s.i :=
                exchange_of_ne (by omega) (by omega)
              exact hpos.trans_eq (congrArg (cmp · v) hsame).symm
      · simp [work, Qs.exc, Qs.touch]
    case isFalse hne =>
      split at hstep
      case isTrue hpos =>
        have hneg := hsign.1.mp hpos
        split at hstep
        case isTrue hi =>
          cases hstep
          refine ⟨h.moveUp hlt hi hneg, fun _ => Or.inl rfl, ?_⟩
          simp [work, Qs.texc, Qs.touch, hi]
        case isFalse hi =>
          cases hstep
          refine ⟨h.cross hlt (by omega) hneg (hlarge hi), stopped_top, ?_⟩
          simp [work, Qs.exc, Qs.touch]
          omega
      case isFalse hnpos =>
        cases hstep
        refine ⟨h.passHigh hlt ?_, fun _ => hstop rfl, ?_⟩
        · omega
        · simp [work, Qs.touch]
  case isFalse hge =>
    split at hstep
    case isTrue hi => cases hstep
    case isFalse hi =>
      cases hstep
      refine ⟨h.moveDown (by omega) (by omega) (hlarge hi), stopped_top, ?_⟩
      simp [work, Qs.texc]
      omega

/-- A step keeps the parts and leaves less to do. -/
theorem Parting.kept (hcmp : TotalPreorder cmp) (h : Parting cmp v X₀ a l n s)
    (hstop : Stopped cmp v label s)
    (hstep : step (elementOps cmp) 1 label s = some (label', s')) :
    Parting cmp v X₀ a l n s' ∧ Stopped cmp v label' s' ∧ work label' s' < work label s := by
  cases label with
  | top => exact h.keptTop hcmp (Option.some.inj hstep)
  | loop => exact h.keptLoop hcmp hstop hstep

/-- The partition ends where the scans meet. -/
theorem Parting.ended (h : Parting cmp v X₀ a l n s)
    (hstep : step (elementOps cmp) 1 label s = none) : s.i = s.lp ∧ s.j = s.hp := by
  have hhigh := h.high
  cases label with
  | top => cases hstep
  | loop =>
      simp only [step, loopStep] at hstep
      split at hstep
      case isTrue hlt =>
        split at hstep
        · cases hstep
        · split at hstep
          · split at hstep <;> cases hstep
          · cases hstep
      case isFalse hge =>
        split at hstep
        case isTrue hi => exact ⟨hi, by omega⟩
        case isFalse hi => cases hstep

theorem work_nonneg (label : Label) (h : Parting cmp v X₀ a l n s) : 0 ≤ work label s := by
  have hlow := h.low
  have hhigh := h.high
  unfold work
  split <;> omega

/-- The partition of an array ends with the array parted. -/
theorem Parting.parted (hcmp : TotalPreorder cmp) (fuel : Nat) (h : Parting cmp v X₀ a l n s)
    (hstop : Stopped cmp v label s) (hfuel : work label s < fuel) :
    ∃ s', partition (elementOps cmp) 1 fuel label s = some s' ∧ Parting cmp v X₀ a l n s' ∧
      s'.i = s'.lp ∧ s'.j = s'.hp := by
  induction fuel generalizing label s with
  | zero =>
      have hwork := work_nonneg label h
      omega
  | succ fuel ih =>
      cases hstep : step (elementOps cmp) 1 label s with
      | none =>
          obtain ⟨hi, hj⟩ := h.ended hstep
          exact ⟨s, by simp only [partition, hstep], h, hi, hj⟩
      | some next =>
          obtain ⟨label', s'⟩ := next
          obtain ⟨h', hstop', hwork⟩ := h.kept hcmp hstop hstep
          obtain ⟨s'', hrun, hend⟩ := ih h' hstop' (by omega)
          exact ⟨s'', by simpa only [partition, hstep] using hrun, hend⟩

/-- A parted array is split at the element. -/
theorem Parting.split (h : Parting cmp v X₀ a l n s) (hi : s.i = s.lp) (hj : s.j = s.hp) :
    Split cmp v s.mem a s.lp s.hp l := by
  constructor
  · intro k hk hlt
    exact h.below k hk (hlt.trans_eq hi.symm)
  · exact h.equal
  · intro k hk hlt
    exact h.above k (hj.trans_lt hk) hlt

end

/-!
## Elements in memory
-/

section

variable {es n : Nat} {base p q r k : Int} {t : Nat} {m : Bytes}

/-- The elements of an array that starts at {lit}`base`. -/
def elements (es : Nat) (base : Int) (m : Bytes) : Int → Fin es → UInt8 :=
  fun k => element es m (base + es * k)

/-- An address belongs to one byte of one element. -/
theorem address_inj {u : Nat} (ht : t < es) (hu : u < es) :
    base + es * k + t = base + es * p + u ↔ k = p ∧ t = u := by
  constructor
  · intro h
    have hdiff : (es : Int) * (k - p) = u - t := by
      rw [Int.mul_sub]
      omega
    have hzero : k - p = 0 := by
      by_contra hne
      have hle : (es : Int) ≤ es * |k - p| :=
        le_mul_of_one_le_right (by omega) (Int.one_le_abs hne)
      rw [← Nat.abs_cast es, ← abs_mul, hdiff, Nat.abs_cast, le_abs] at hle
      omega
    rw [hzero, Int.mul_zero] at hdiff
    omega
  · intro h
    rw [h.1, h.2]

/-- The byte at every address belongs to an element. -/
theorem exists_element (hes : 0 < es) (base p : Int) :
    ∃ k, ∃ t : Fin es, p = base + es * k + t.val := by
  have hpos : (0 : Int) < es := by omega
  have hlt := Int.emod_lt_of_pos (p - base) hpos
  have hnonneg := Int.emod_nonneg (p - base) hpos.ne'
  refine ⟨(p - base) / es, ⟨((p - base) % es).toNat, by omega⟩, ?_⟩
  have hsum := Int.mul_ediv_add_emod (p - base) es
  show p = base + es * ((p - base) / es) + (((p - base) % es).toNat : Int)
  omega

/-- The same byte of three elements exchanged. -/
theorem exchange3_byte {u : Nat} (ht : t < es) (hu : u < es) :
    exchange3 m (base + es * p + t) (base + es * q + t) (base + es * r + t) (base + es * k + u) =
      if u = t then exchange3 (fun k => m (base + es * k + t)) p q r k
      else m (base + es * k + u) := by
  by_cases htu : u = t
  · simp [exchange3, upd_apply, address_inj ht ht, htu]
  · simp [exchange3, upd_apply, address_inj hu ht, htu]

/-- From its byte {lit}`t` on, {lit}`qstexc` exchanges the bytes of the elements. -/
theorem qstexcLoop_byte (m : Bytes) (base p q r k : Int) (h : t + n = es) {u : Nat}
    (hu : u < es) :
    qstexcLoop n m (base + es * p + t) (base + es * q + t) (base + es * r + t)
      (base + es * k + u) =
      if t ≤ u then exchange3 (fun k => m (base + es * k + u)) p q r k
      else m (base + es * k + u) := by
  induction n generalizing m t with
  | zero => rw [if_neg (by omega), qstexcLoop]
  | succ n ih =>
      have hnext : ∀ p : Int, base + es * p + t + 1 = base + es * p + (t + 1 : Nat) := by
        intro p
        omega
      have hbyte : ∀ k, exchange3 m (base + es * p + t) (base + es * q + t) (base + es * r + t)
          (base + es * k + u) = _ := fun k => exchange3_byte (by omega) hu
      rw [qstexcLoop, hnext, hnext, hnext]
      refine (ih _ (by omega)).trans ?_
      by_cases htu : u = t
      · rw [if_neg (by omega), if_pos (by omega)]
        refine (hbyte k).trans ?_
        rw [if_pos htu, htu]
      · have hsame := fun k => (hbyte k).trans (if_neg htu)
        by_cases hlt : t < u
        · rw [if_pos (Nat.succ_le_of_lt hlt), if_pos hlt.le]
          exact congrArg (exchange3 · p q r k) (funext hsame)
        · rw [if_neg (by omega), if_neg (by omega)]
          exact hsame k

/-- {lit}`qstexc` exchanges three elements. -/
theorem elements_qstexc (fc : (Fin es → UInt8) → (Fin es → UInt8) → Int) :
    elements es base ((byteOps es fc).qstexc m (base + es * p) (base + es * q) (base + es * r)) =
      exchange3 (elements es base m) p q r := by
  funext k u
  have hbyte := qstexcLoop_byte m base p q r k (Nat.zero_add es) u.isLt
  simp only [Nat.cast_zero, Int.add_zero, Nat.zero_le, if_true] at hbyte
  refine hbyte.trans ?_
  simp only [exchange3, upd_apply]
  split
  · rfl
  · split
    · split <;> rfl
    · split <;> rfl

/-- {lit}`qsexc` is {lit}`qstexc` with one element named twice. -/
theorem qsexcLoop_eq (n : Nat) (m : Bytes) (i j : Int) :
    qsexcLoop n m i j = qstexcLoop n m i j j := by
  induction n generalizing m i j with
  | zero => rfl
  | succ n ih => rw [qsexcLoop, qstexcLoop, ih, upd_upd]

/-- {lit}`qsexc` exchanges two elements. -/
theorem elements_qsexc (fc : (Fin es → UInt8) → (Fin es → UInt8) → Int) :
    elements es base ((byteOps es fc).qsexc m (base + es * p) (base + es * q)) =
      exchange (elements es base m) p q := by
  show elements es base (qsexcLoop es m (base + es * p) (base + es * q)) = _
  rw [qsexcLoop_eq, ← exchange3_self]
  exact elements_qstexc fc

/-!
## The partition of the memory
-/

/-- The state of a partition of the bytes shows a state of a partition of whole elements. -/
structure Shows (es : Nat) (base : Int) (s : Qs Bytes) (x : Qs (Int → Fin es → UInt8)) : Prop where
  i : s.i = base + es * x.i
  j : s.j = base + es * x.j
  lp : s.lp = base + es * x.lp
  hp : s.hp = base + es * x.hp
  mem : elements es base s.mem = x.mem
  touched : s.touched = x.touched.map fun k => base + es * k

variable {s : Qs Bytes} {x : Qs (Int → Fin es → UInt8)} {label : Label}
  {fc : (Fin es → UInt8) → (Fin es → UInt8) → Int}

theorem pointer_lt (hes : 0 < es) : base + es * p < base + es * q ↔ p < q := by
  have hpos : (0 : Int) < es := by omega
  rw [Int.add_lt_add_iff_left, Int.mul_lt_mul_left hpos]

theorem pointer_eq (hes : 0 < es) : base + es * p = base + es * q ↔ p = q := by
  have hne : (es : Int) ≠ 0 := by omega
  rw [Int.add_right_inj, Int.mul_eq_mul_left_iff hne]

theorem pointer_add : base + es * p + es = base + es * (p + 1) := by ring

theorem pointer_sub : base + es * p - es = base + es * (p - 1) := by ring

theorem Shows.touch (h : Shows es base s x) (ps qs : List Int)
    (hps : ps = qs.map fun k => base + es * k) : Shows es base (s.touch ps) (x.touch qs) :=
  { h with
    touched := by
      show s.touched ++ ps = (x.touched ++ qs).map _
      rw [List.map_append, ← h.touched, hps] }

theorem Shows.exc (h : Shows es base s x)
    (fc : (Fin es → UInt8) → (Fin es → UInt8) → Int) {i j : Int} (hi : i = base + es * p)
    (hj : j = base + es * q) :
    Shows es base (s.exc (byteOps es fc) i j) (x.exc (elementOps fc) p q) :=
  { h with
    mem := by
      rw [hi, hj]
      exact (elements_qsexc fc).trans (congrArg (exchange · p q) h.mem)
    touched := by
      show s.touched ++ [i, j] = (x.touched ++ [p, q]).map _
      rw [List.map_append, ← h.touched, hi, hj]
      rfl }

theorem Shows.texc (h : Shows es base s x)
    (fc : (Fin es → UInt8) → (Fin es → UInt8) → Int) {i j k : Int} (hi : i = base + es * p)
    (hj : j = base + es * q) (hk : k = base + es * r) :
    Shows es base (s.texc (byteOps es fc) i j k) (x.texc (elementOps fc) p q r) :=
  { h with
    mem := by
      rw [hi, hj, hk]
      exact (elements_qstexc fc).trans (congrArg (exchange3 · p q r) h.mem)
    touched := by
      show s.touched ++ [i, j, k] = (x.touched ++ [p, q, r]).map _
      rw [List.map_append, ← h.touched, hi, hj, hk]
      rfl }

/-- The left scan does the same to the elements seen in the memory. -/
theorem Shows.topStep (hes : 0 < es) (h : Shows es base s x) :
    (topStep (byteOps es fc) es s).1 = (topStep (elementOps fc) 1 x).1 ∧
      Shows es base (topStep (byteOps es fc) es s).2 (topStep (elementOps fc) 1 x).2 := by
  have hc : (byteOps es fc).qscmp s.mem s.i s.lp = (elementOps fc).qscmp x.mem x.i x.lp := by
    rw [h.i, h.lp, ← h.mem]
    rfl
  have hlt : s.i < s.lp ↔ x.i < x.lp := by rw [h.i, h.lp, pointer_lt hes]
  have htouch := h.touch [s.i, s.lp] [x.i, x.lp] (by rw [h.i, h.lp]; rfl)
  have hi : s.i + es = base + es * (x.i + 1) := by rw [h.i, pointer_add]
  have hlp : s.lp - es = base + es * (x.lp - 1) := by rw [h.lp, pointer_sub]
  simp only [Sorting.topStep, hc, hlt]
  split
  · split
    · exact ⟨rfl, { htouch.exc fc h.i hlp with lp := hlp }⟩
    · split
      · exact ⟨rfl, { htouch with i := hi }⟩
      · exact ⟨rfl, htouch⟩
  · exact ⟨rfl, h⟩

/-- Both states make the same jump. -/
def SameStep (es : Nat) (base : Int) :
    Option (Label × Qs Bytes) → Option (Label × Qs (Int → Fin es → UInt8)) → Prop :=
  Option.Rel fun r r' => r.1 = r'.1 ∧ Shows es base r.2 r'.2

/-- The right scan does the same to the elements seen in the memory. -/
theorem Shows.loopStep (hes : 0 < es) (h : Shows es base s x) :
    SameStep es base (loopStep (byteOps es fc) es s) (loopStep (elementOps fc) 1 x) := by
  have hc : (byteOps es fc).qscmp s.mem s.hp s.j = (elementOps fc).qscmp x.mem x.hp x.j := by
    rw [h.hp, h.j, ← h.mem]
    rfl
  have hlt : s.hp < s.j ↔ x.hp < x.j := by rw [h.hp, h.j, pointer_lt hes]
  have heq : s.i = s.lp ↔ x.i = x.lp := by rw [h.i, h.lp, pointer_eq hes]
  have htouch := h.touch [s.hp, s.j] [x.hp, x.j] (by rw [h.hp, h.j]; rfl)
  have hi : s.i + es = base + es * (x.i + 1) := by rw [h.i, pointer_add]
  have hj : s.j - es = base + es * (x.j - 1) := by rw [h.j, pointer_sub]
  have hlp : s.lp + es = base + es * (x.lp + 1) := by rw [h.lp, pointer_add]
  have hlp' : s.lp - es = base + es * (x.lp - 1) := by rw [h.lp, pointer_sub]
  have hhp : s.hp + es = base + es * (x.hp + 1) := by rw [h.hp, pointer_add]
  have hhp' : s.hp - es = base + es * (x.hp - 1) := by rw [h.hp, pointer_sub]
  simp only [Sorting.loopStep, hc, hlt, heq]
  split
  · split
    · exact .some ⟨rfl, { htouch.exc fc hhp h.j with hp := hhp }⟩
    · split
      · split
        · exact .some ⟨rfl, { htouch.texc fc h.i hhp h.j with hp := hhp, lp := hlp, i := hlp }⟩
        · exact .some ⟨rfl, { htouch.exc fc h.i h.j with j := hj, i := hi }⟩
      · exact .some ⟨rfl, { htouch with j := hj }⟩
  · split
    · exact .none
    · exact .some ⟨rfl, { h.texc fc h.j hlp' h.i with lp := hlp', hp := hhp', j := hhp' }⟩

/-- The partition of the bytes parts the elements seen in the memory. -/
theorem Shows.partition (hes : 0 < es) (fuel : Nat) (h : Shows es base s x)
    {x' : Qs (Int → Fin es → UInt8)}
    (hrun : partition (elementOps fc) 1 fuel label x = some x') :
    ∃ s', partition (byteOps es fc) es fuel label s = some s' ∧ Shows es base s' x' := by
  induction fuel generalizing label s x with
  | zero => cases hrun
  | succ fuel ih =>
      have hsame : SameStep es base (step (byteOps es fc) es label s)
          (step (elementOps fc) 1 label x) := by
        cases label with
        | top => exact .some (h.topStep hes)
        | loop => exact h.loopStep hes
      rw [Sorting.partition] at hrun ⊢
      generalize step (byteOps es fc) es label s = next at hsame
      generalize step (elementOps fc) 1 label x = next' at hsame hrun
      cases hsame with
      | none =>
          cases hrun
          exact ⟨s, rfl, h⟩
      | @some r r' hnext =>
          obtain ⟨label, s⟩ := r
          obtain ⟨label', x⟩ := r'
          obtain ⟨rfl, hshows⟩ := hnext
          exact ih hshows hrun

/-!
## The sort
-/

theorem uint32_eq {x : Int} (h0 : 0 ≤ x) (h : x < 4294967296) : (uint32 x : Int) = x := by
  rw [uint32, Int.emod_eq_of_lt h0 h, Int.toNat_of_nonneg h0]

/-- The array between two pointers has at most one element. -/
theorem length_le_one (hes : 0 < es) (hpq : p ≤ q) (hsize : es * (q - p) < (2147483648 : Int)) :
    uint32 (base + es * q - (base + es * p)) ≤ uint32 es ↔ q ≤ p + 1 := by
  have hpos : (0 : Int) < es := by omega
  have hlen : base + es * q - (base + es * p) = es * (q - p) := by ring
  have hnonneg : (0 : Int) ≤ es * (q - p) := Int.mul_nonneg hpos.le (by omega)
  have heq := uint32_eq hnonneg (by omega)
  rw [hlen]
  constructor
  · intro h
    by_contra hlt
    have htwo : (es : Int) * 2 ≤ es * (q - p) := Int.mul_le_mul_of_nonneg_left (by omega) hpos.le
    have hes' := uint32_eq hpos.le (by omega)
    omega
  · intro h
    by_cases hqp : q = p
    · rw [hqp, Int.sub_self, Int.mul_zero]
      exact Nat.zero_le _
    · have hone : q - p = 1 := by omega
      rw [hone, Int.mul_one]

/-- The pivot is the element in the middle. -/
theorem middle (hes : 0 < es) (hpq : p ≤ q) (hsize : es * (q - p) < (2147483648 : Int)) :
    base + es * p +
      (uint32 (es * ((uint32 (base + es * q - (base + es * p)) : Int) / (2 * es))) : Int) =
      base + es * (p + (q - p) / 2) := by
  have hpos : (0 : Int) < es := by omega
  have hlen : base + es * q - (base + es * p) = es * (q - p) := by ring
  have hnonneg : (0 : Int) ≤ es * (q - p) := Int.mul_nonneg hpos.le (by omega)
  have hhalf : (es : Int) * (q - p) / (2 * es) = (q - p) / 2 := by
    rw [Int.mul_comm 2, Int.mul_ediv_mul_of_pos _ _ hpos]
  have hle : (es : Int) * ((q - p) / 2) ≤ es * (q - p) :=
    Int.mul_le_mul_of_nonneg_left (by omega) hpos.le
  have hhalf0 : (0 : Int) ≤ es * ((q - p) / 2) := Int.mul_nonneg hpos.le (by omega)
  rw [hlen, uint32_eq hnonneg (by omega), hhalf, uint32_eq hhalf0 (by omega)]
  ring

/-- Whatever is passed to the operations is an element of the array. -/
def Within (es : Nat) (base n : Int) (touched : List Int) : Prop :=
  ∃ ks : List Int, touched = ks.map (fun k => base + es * k) ∧ ∀ k ∈ ks, 0 ≤ k ∧ k < n

/-- A part of the array was sorted. -/
structure Sorted (fc : (Fin es → UInt8) → (Fin es → UInt8) → Int) (base n a l : Int) (m : Bytes)
    (r : Bytes × List Int) : Prop where
  rearranged : Rearranged a l (elements es base m) (elements es base r.1)
  ordered : Ordered fc a l (elements es base r.1)
  touched : Within es base n r.2

/-- The first partition of a part with at least two elements. -/
theorem partition_part (hes : 0 < es) (hcmp : TotalPreorder fc) (fuel : Nat) (m : Bytes)
    {a l n : Int} {touched : List Int} (ha : 0 ≤ a) (hal : a + 2 ≤ l) (hln : l ≤ n)
    (hfuel : 2 * (l - a) ≤ fuel) (ht : Within es base n touched) :
    ∃ v x s, partition (byteOps es fc) es fuel .top
        { i := base + es * a, j := base + es * l - es, lp := base + es * (a + (l - a) / 2),
          hp := base + es * (a + (l - a) / 2), mem := m, touched := touched } = some s ∧
      Shows es base s x ∧ Parting fc v (elements es base m) a l n x ∧ x.i = x.lp ∧ x.j = x.hp := by
  obtain ⟨ks, hks, hin⟩ := ht
  let x₀ : Qs (Int → Fin es → UInt8) :=
    { i := a, j := l - 1, lp := a + (l - a) / 2, hp := a + (l - a) / 2,
      mem := elements es base m, touched := ks }
  let v := elements es base m (a + (l - a) / 2)
  have hparting : Parting fc v (elements es base m) a l n x₀ := by
    constructor
    case start => exact ha
    case size => exact hln
    case rearranged => exact Rearranged.refl a l _
    case equal =>
      intro k hk hk'
      have hlast : k = a + (l - a) / 2 := Int.le_antisymm hk' hk
      rw [hlast]
      exact hcmp.self v
    case below =>
      intro k hk hk'
      exact absurd hk' (Int.not_lt.mpr hk)
    case above =>
      intro k hk hk'
      have hlast : l - 1 < k := hk
      omega
    case touched => exact hin
    all_goals
      simp only [x₀]
      omega
  let s₀ : Qs Bytes :=
    { i := base + es * a, j := base + es * l - es, lp := base + es * (a + (l - a) / 2),
      hp := base + es * (a + (l - a) / 2), mem := m, touched := touched }
  have hshows : Shows es base s₀ x₀ := ⟨rfl, pointer_sub, rfl, rfl, rfl, hks⟩
  have hwork : work .top x₀ < fuel := by
    simp only [work, x₀]
    omega
  obtain ⟨x, hrun, hx, hi, hj⟩ := hparting.parted hcmp fuel stopped_top hwork
  obtain ⟨s, hbytes, hs⟩ := hshows.partition hes fuel hrun
  exact ⟨v, x, s, hbytes, hs, hx, hi, hj⟩

/-- {lit}`qs1` sorts a part of the array. -/
theorem qs1_sorted (base : Int) (hes : 0 < es) (hcmp : TotalPreorder fc) {n : Int}
    (hsize : es * n < (2147483648 : Int)) (fuel : Nat) (a l : Int) (m : Bytes)
    (touched : List Int) (ha : 0 ≤ a) (hal : a ≤ l) (hln : l ≤ n) (hfuel : 2 * (l - a) < fuel)
    (ht : Within es base n touched) :
    ∃ r, qs1 (byteOps es fc) es fuel (base + es * a) (base + es * l) m touched = some r ∧
      Sorted fc base n a l m r := by
  induction fuel generalizing a l m touched with
  | zero => omega
  | succ fuel ih =>
      have hpart : es * (l - a) < (2147483648 : Int) :=
        (Int.mul_le_mul_of_nonneg_left (by omega) (by omega)).trans_lt hsize
      simp only [qs1, length_le_one hes hal hpart, middle hes hal hpart]
      by_cases hone : l ≤ a + 1
      · exact ⟨(m, touched), if_pos hone, Rearranged.refl a l _, ordered_of_length_le hone, ht⟩
      · obtain ⟨v, x, s, hrun, hs, hx, hi, hj⟩ :=
          partition_part hes hcmp fuel m ha (by omega) hln (by omega) ht
        obtain ⟨hleft, hlow, hblock, hhigh, hright⟩ := hx.limits
        have hsplit := hx.split hi hj
        have hin : Within es base n s.touched := ⟨x.touched, hs.touched, hx.touched⟩
        have hhp : s.hp + es = base + es * (x.hp + 1) := by rw [hs.hp, pointer_add]
        rw [if_neg hone, hrun]
        simp only [hhp, hs.lp]
        split
        · obtain ⟨⟨m₁, t₁⟩, hrun₁, h₁⟩ := ih (x.hp + 1) l s.mem s.touched (by omega) (by omega) hln
            (by omega) hin
          obtain ⟨r, hrun₂, h₂⟩ := ih a x.lp m₁ t₁ ha (by omega) (by omega) (by omega) h₁.touched
          have hfst := h₁.rearranged
          rw [hs.mem] at hfst
          refine ⟨r, ?_, ?_, ?_, h₂.touched⟩
          · rw [hrun₁]
            exact hrun₂
          · apply hx.rearranged.trans
            apply (hfst.mono (by omega) (Int.le_refl l)).trans
            exact h₂.rearranged.mono (Int.le_refl a) (by omega)
          · exact hsplit.sorted_high hcmp hblock hfst h₁.ordered h₂.rearranged h₂.ordered
        · obtain ⟨⟨m₁, t₁⟩, hrun₁, h₁⟩ := ih a x.lp s.mem s.touched ha (by omega) (by omega)
            (by omega) hin
          obtain ⟨r, hrun₂, h₂⟩ := ih (x.hp + 1) l m₁ t₁ (by omega) (by omega) hln (by omega)
            h₁.touched
          have hfst := h₁.rearranged
          rw [hs.mem] at hfst
          refine ⟨r, ?_, ?_, ?_, h₂.touched⟩
          · rw [hrun₁]
            exact hrun₂
          · apply hx.rearranged.trans
            apply (hfst.mono (Int.le_refl a) (by omega)).trans
            exact h₂.rearranged.mono (by omega) (Int.le_refl l)
          · exact hsplit.sorted_low hcmp hblock hfst h₁.ordered h₂.rearranged h₂.ordered

/-- The elements of the array, one after the other. -/
def elementList (es : Nat) (base : Int) (n : Nat) (m : Bytes) : List (Fin es → UInt8) :=
  (List.range n).map fun k : Nat => elements es base m k

/-- {lit}`qsort` terminates, looks at and exchanges only elements of the array, leaves the rest of
the memory alone, and the array has its old elements in order. -/
theorem qsort_sorted {es n : Nat} (hes : 0 < es) (hsize : n * es < 2147483648)
    (fc : (Fin es → UInt8) → (Fin es → UInt8) → Int) (hfc : TotalPreorder fc) (a : Int)
    (m : Bytes) (fuel : Nat) (hfuel : 2 * n < fuel) :
    ∃ m' touched, qsort fuel a n es fc m = some (m', touched) ∧
      (∀ p ∈ touched, ∃ k < n, p = a + es * k) ∧
      (∀ p, p < a ∨ a + n * es ≤ p → m' p = m p) ∧
      (elementList es a n m').Perm (elementList es a n m) ∧
      (elementList es a n m').Pairwise fun x y => fc x y ≤ 0 := by
  have hn : (es : Int) * n < 2147483648 := by
    rw [Int.mul_comm]
    exact_mod_cast hsize
  have hend : a + (uint32 (n * es) : Int) = a + es * (n : Int) := by
    have hnonneg : (0 : Int) ≤ es * n := Int.mul_nonneg (by omega) (by omega)
    rw [Int.mul_comm n, uint32_eq hnonneg (by omega)]
  obtain ⟨r, hrun, hsorted⟩ := qs1_sorted a hes hfc hn fuel 0 n m [] (Int.le_refl 0)
    (by omega) (Int.le_refl _) (by omega) ⟨[], rfl, by simp⟩
  rw [Int.mul_zero, Int.add_zero, ← hend] at hrun
  refine ⟨r.1, r.2, hrun, ?_, ?_, hsorted.rearranged.perm, ?_⟩
  · obtain ⟨ks, hks, hin⟩ := hsorted.touched
    intro p hp
    rw [hks] at hp
    obtain ⟨k, hk, rfl⟩ := List.mem_map.mp hp
    have hbounds := hin k hk
    exact ⟨k.toNat, by omega, by rw [Int.toNat_of_nonneg hbounds.1]⟩
  · intro p hp
    obtain ⟨k, t, rfl⟩ := exists_element hes a p
    have ht := t.isLt
    have hout : ¬(0 ≤ k ∧ k < n) := by
      intro hk
      have hlow : (0 : Int) ≤ es * k := Int.mul_nonneg (by omega) hk.1
      have hhigh : (es : Int) * (k + 1) ≤ es * n :=
        Int.mul_le_mul_of_nonneg_left (by omega) (by omega)
      rw [Int.mul_add, Int.mul_one, Int.mul_comm es n] at hhigh
      omega
    exact congrFun (hsorted.rearranged.outside hout) t
  · apply List.pairwise_map.mpr
    apply List.Pairwise.imp_of_mem _ List.pairwise_lt_range
    intro p q _ hq hpq
    have hq' := List.mem_range.mp hq
    exact hsorted.ordered p q (by omega) (by omega) (by omega)

/-- Three elements of two bytes, ordered by their first byte. -/
theorem qsort_sorted_pairs :
    ∃ m' touched, qsort 7 100 3 2 (fun x y => ((x 0).toNat : Int) - (y 0).toNat)
        (fun p => if p = 100 then 9 else 7) = some (m', touched) ∧
      (∀ p ∈ touched, ∃ k < 3, p = 100 + (2 : Nat) * (k : Nat)) ∧
      (∀ p : Int, p < 100 ∨ 100 + ((3 : Nat) : Int) * (2 : Nat) ≤ p →
        m' p = if p = 100 then 9 else 7) ∧
      (elementList 2 100 3 m').Perm (elementList 2 100 3 fun p => if p = 100 then 9 else 7) ∧
      (elementList 2 100 3 m').Pairwise fun x y => ((x 0).toNat : Int) - (y 0).toNat ≤ 0 := by
  have hfc : TotalPreorder fun x y : Fin 2 → UInt8 => ((x 0).toNat : Int) - (y 0).toNat := by
    constructor
    · intro x y
      omega
    · intro x y z hxy hyz
      omega
  exact qsort_sorted (by decide) (by decide) _ hfc 100 _ 7 (by decide)

end

end Sorting
end BbbXinu
