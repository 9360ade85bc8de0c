import Mathlib.Logic.Equiv.Basic
import BbbXinu.Lib.Table

/-!
# Arrays whose elements are exchanged

An array is a function of the place.  Exchanges leave a rearrangement of a part of it, and a
part is in order when it was split at an element and both sides are in order.

Nothing here depends on a particular program.
-/

namespace BbbXinu
namespace Rearrangements

variable {α : Type}

/-- Two elements exchanged. -/
def exchange (X : Int → α) (p q : Int) : Int → α := upd (upd X p (X q)) q (X p)

/-- Three elements exchanged: the first place gets the third element, the third place the second
and the second place the first. -/
def exchange3 (X : Int → α) (p q r : Int) : Int → α :=
  upd (upd (upd X p (X r)) r (upd X p (X r) q)) q (X p)

/-- The elements in a part of an array are arranged otherwise. -/
def Rearranged (lo hi : Int) (X Y : Int → α) : Prop :=
  ∃ σ : Equiv.Perm Int, Y = X ∘ σ ∧ ∀ k, ¬(lo ≤ k ∧ k < hi) → σ k = k

/-- A comparison that can decide an order. -/
structure TotalPreorder (cmp : α → α → Int) : Prop where
  symm : ∀ x y, cmp x y < 0 ↔ 0 < cmp y x
  trans : ∀ x y z, cmp x y ≤ 0 → cmp y z ≤ 0 → cmp x z ≤ 0

/-- A part of an array is in order. -/
def Ordered (cmp : α → α → Int) (lo hi : Int) (X : Int → α) : Prop :=
  ∀ p q, lo ≤ p → p < q → q < hi → cmp (X p) (X q) ≤ 0

/-- What is smaller than an element, equal to it and larger. -/
structure Split (cmp : α → α → Int) (v : α) (X : Int → α) (lo lp hp hi : Int) : Prop where
  below : ∀ k, lo ≤ k → k < lp → cmp (X k) v < 0
  equal : ∀ k, lp ≤ k → k ≤ hp → cmp (X k) v = 0
  above : ∀ k, hp < k → k < hi → 0 < cmp (X k) v

section

variable {X Y Z : Int → α} {lo hi lo' hi' lp hp p q r k : Int} {cmp : α → α → Int} {v : α}

/-!
## Exchanges
-/

theorem exchange_apply : exchange X p q k = if k = q then X p else if k = p then X q else X k :=
  rfl

theorem exchange_of_ne (hp : k ≠ p) (hq : k ≠ q) : exchange X p q k = X k := by
  rw [exchange_apply, if_neg hq, if_neg hp]

theorem exchange_left : exchange X p q p = X q := by
  rw [exchange_apply]
  split
  · rename_i h
    rw [h]
  · rw [if_pos rfl]

theorem exchange_right : exchange X p q q = X p := by
  rw [exchange_apply, if_pos rfl]

theorem exchange_eq : exchange X p q = X ∘ Equiv.swap p q := by
  funext k
  rw [exchange_apply, Function.comp_apply, Equiv.swap_apply_def]
  by_cases hq : k = q
  · rw [if_pos hq]
    by_cases hp : k = p
    · rw [if_pos hp, ← hq, hp]
    · rw [if_neg hp, if_pos hq]
  · rw [if_neg hq]
    by_cases hp : k = p
    · rw [if_pos hp, if_pos hp]
    · rw [if_neg hp, if_neg hp, if_neg hq]

theorem exchange3_eq (hq : p ≠ q) :
    exchange3 X p q r = exchange (exchange X p r) r q := by
  funext k
  by_cases hk : k = q
  · rw [hk, exchange3, upd_self, exchange_right, exchange_right]
  · by_cases hk' : k = r
    · have hqr : q ≠ r := fun h => hk (hk'.trans h.symm)
      rw [hk', exchange3, upd_of_ne (Ne.symm hqr), upd_self, upd_of_ne (Ne.symm hq), exchange_left,
        exchange_of_ne (Ne.symm hq) hqr]
    · rw [exchange3, upd_of_ne hk, upd_of_ne hk', exchange_of_ne hk' hk]
      simp [exchange_apply, upd_apply, hk']

theorem exchange3_self : exchange3 X p q q = exchange X p q := by
  rw [exchange3, exchange, upd_upd]

theorem exchange3_left (hq : p ≠ q) (hr : p ≠ r) : exchange3 X p q r p = X r := by
  rw [exchange3, upd_of_ne hq, upd_of_ne hr, upd_self]

theorem exchange3_right : exchange3 X p q r q = X p := by
  rw [exchange3, upd_self]

theorem exchange3_of_ne (hp : k ≠ p) (hq : k ≠ q) (hr : k ≠ r) : exchange3 X p q r k = X k := by
  rw [exchange3, upd_of_ne hq, upd_of_ne hr, upd_of_ne hp]

/-!
## Rearrangements
-/

theorem Rearranged.refl (lo hi : Int) (X : Int → α) : Rearranged lo hi X X :=
  ⟨Equiv.refl Int, rfl, fun _ _ => rfl⟩

theorem Rearranged.trans (h : Rearranged lo hi X Y) (h' : Rearranged lo hi Y Z) :
    Rearranged lo hi X Z := by
  obtain ⟨σ, rfl, hσ⟩ := h
  obtain ⟨τ, rfl, hτ⟩ := h'
  refine ⟨τ.trans σ, rfl, fun k hk => ?_⟩
  rw [Equiv.trans_apply, hτ k hk, hσ k hk]

theorem Rearranged.mono (h : Rearranged lo hi X Y) (hlo : lo' ≤ lo) (hhi : hi ≤ hi') :
    Rearranged lo' hi' X Y := by
  obtain ⟨σ, hY, hσ⟩ := h
  refine ⟨σ, hY, fun k hk => hσ k ?_⟩
  omega

theorem rearranged_exchange (hp0 : lo ≤ p) (hp : p < hi) (hq0 : lo ≤ q) (hq : q < hi) :
    Rearranged lo hi X (exchange X p q) := by
  refine ⟨Equiv.swap p q, exchange_eq, fun k hk => ?_⟩
  apply Equiv.swap_apply_of_ne_of_ne
  · omega
  · omega

theorem rearranged_exchange3 (hpq : p ≠ q) (hp0 : lo ≤ p) (hp : p < hi)
    (hq0 : lo ≤ q) (hq : q < hi) (hr0 : lo ≤ r) (hr : r < hi) :
    Rearranged lo hi X (exchange3 X p q r) := by
  rw [exchange3_eq hpq]
  exact (rearranged_exchange hp0 hp hr0 hr).trans (rearranged_exchange hr0 hr hq0 hq)

/-- Outside the part nothing has changed. -/
theorem Rearranged.outside (h : Rearranged lo hi X Y) (hk : ¬(lo ≤ k ∧ k < hi)) : Y k = X k := by
  obtain ⟨σ, rfl, hσ⟩ := h
  rw [Function.comp_apply, hσ k hk]

/-- The elements of the part come from the part. -/
theorem Rearranged.inside (h : Rearranged lo hi X Y) (hk : lo ≤ k ∧ k < hi) :
    ∃ j, (lo ≤ j ∧ j < hi) ∧ Y k = X j := by
  obtain ⟨σ, rfl, hσ⟩ := h
  refine ⟨σ k, ?_, rfl⟩
  by_contra hout
  have hfix := σ.injective (hσ (σ k) hout)
  rw [hfix] at hout
  exact hout hk

/-- The two arrays have the same elements. -/
theorem Rearranged.perm {n : Nat} (h : Rearranged 0 n X Y) :
    ((List.range n).map fun k : Nat => Y k).Perm ((List.range n).map fun k : Nat => X k) := by
  have hlist : ∀ Z : Int → α, (List.range n).map (fun k : Nat => Z k) =
      (((List.range n).map fun k : Nat => (k : Int)).map Z) := by
    intro Z
    rw [List.map_map]
    rfl
  have hnodup : ((List.range n).map fun k : Nat => (k : Int)).Nodup :=
    List.nodup_range.map fun a b hab => Int.ofNat_inj.mp hab
  have hmem : ∀ k : Int, k ∈ (List.range n).map (fun k : Nat => (k : Int)) ↔ 0 ≤ k ∧ k < n := by
    intro k
    rw [List.mem_map]
    constructor
    · intro hk
      obtain ⟨j, hj, rfl⟩ := hk
      have hlt := List.mem_range.mp hj
      omega
    · intro hk
      exact ⟨k.toNat, List.mem_range.mpr (by omega), by omega⟩
  obtain ⟨σ, rfl, hσ⟩ := h
  rw [hlist, hlist, ← List.map_map]
  apply List.Perm.map
  rw [List.perm_ext_iff_of_nodup (hnodup.map σ.injective) hnodup]
  intro k
  have hin : ∀ j : Int, (0 ≤ σ j ∧ σ j < n) ↔ (0 ≤ j ∧ j < n) := by
    intro j
    by_cases hj : 0 ≤ j ∧ j < n
    · apply iff_of_true _ hj
      by_contra hout
      have hfix := σ.injective (hσ (σ j) hout)
      rw [hfix] at hout
      exact hout hj
    · rw [hσ j hj]
  rw [List.mem_map, hmem]
  constructor
  · intro hk
    obtain ⟨j, hj, rfl⟩ := hk
    exact (hin j).mpr ((hmem j).mp hj)
  · intro hk
    refine ⟨σ.symm k, (hmem _).mpr ?_, σ.apply_symm_apply k⟩
    apply (hin _).mp
    rw [σ.apply_symm_apply]
    exact hk

/-!
## Order
-/

theorem TotalPreorder.le_of_nonneg (h : TotalPreorder cmp) {x y : α} (hxy : 0 ≤ cmp x y) :
    cmp y x ≤ 0 := by
  by_contra hlt
  have hneg := (h.symm x y).mpr (Int.not_le.mp hlt)
  omega

theorem TotalPreorder.self (h : TotalPreorder cmp) (x : α) : cmp x x = 0 := by
  have hsymm := h.symm x x
  omega

/-- An element that is equal to another compares as this. -/
theorem TotalPreorder.congr (h : TotalPreorder cmp) {x y z : α} (hy : cmp y z = 0) :
    (cmp x y < 0 ↔ cmp x z < 0) ∧ (cmp x y = 0 ↔ cmp x z = 0) := by
  have hzy : cmp z y = 0 := by
    have hsymm := h.symm y z
    have hsymm' := h.symm z y
    omega
  have hle := h.trans x y z
  have hle' := h.trans x z y
  have hge := h.trans z y x
  have hge' := h.trans y z x
  have hxy := h.symm x y
  have hxz := h.symm x z
  omega

/-- The same with the sides of the second comparison changed. -/
theorem TotalPreorder.congr_symm (h : TotalPreorder cmp) {x y z : α} (hy : cmp y z = 0) :
    (0 < cmp y x ↔ cmp x z < 0) ∧ (cmp y x = 0 ↔ cmp x z = 0) := by
  have hcongr := h.congr (x := x) hy
  have hxy := h.symm x y
  have hyx := h.symm y x
  omega

theorem ordered_of_length_le (h : hi ≤ lo + 1) : Ordered cmp lo hi X := by
  intro p q hp hpq hq
  omega

/-- A part that was split is in order when both sides are. -/
theorem Split.ordered (hcmp : TotalPreorder cmp) (h : Split cmp v X lo lp hp hi)
    (hlow : Ordered cmp lo lp X) (hhigh : Ordered cmp (hp + 1) hi X) : Ordered cmp lo hi X := by
  intro p q hlo hpq hhi
  by_cases hq : q < lp
  · exact hlow p q hlo hpq hq
  · by_cases hp' : hp < p
    · exact hhigh p q (by omega) hpq hhi
    · apply hcmp.trans _ v
      · by_cases hp'' : p < lp
        · have hneg := h.below p hlo hp''
          omega
        · have hzero := h.equal p (by omega) (by omega)
          omega
      · apply hcmp.le_of_nonneg
        by_cases hq' : q ≤ hp
        · have hzero := h.equal q (by omega) hq'
          omega
        · have hpos := h.above q (by omega) hhi
          omega

/-- A side of a split part is rearranged. -/
theorem Split.rearranged (h : Split cmp v X lo lp hp hi)
    (hY : Rearranged lo lp X Y ∨ Rearranged (hp + 1) hi X Y) (hle : lp ≤ hp) :
    Split cmp v Y lo lp hp hi := by
  have hpart : ∀ k, ∃ j, Y k = X j ∧ ((lo ≤ k ∧ k < lp → lo ≤ j ∧ j < lp) ∧
      (hp < k ∧ k < hi → hp < j ∧ j < hi) ∧ (lp ≤ k ∧ k ≤ hp → lp ≤ j ∧ j ≤ hp)) := by
    intro k
    rcases hY with hY | hY
    · by_cases hk : lo ≤ k ∧ k < lp
      · obtain ⟨j, hj, heq⟩ := hY.inside hk
        exact ⟨j, heq, by omega⟩
      · exact ⟨k, hY.outside hk, by omega⟩
    · by_cases hk : hp + 1 ≤ k ∧ k < hi
      · obtain ⟨j, hj, heq⟩ := hY.inside hk
        exact ⟨j, heq, by omega⟩
      · exact ⟨k, hY.outside hk, by omega⟩
  constructor
  · intro k hlo hlt
    obtain ⟨j, heq, hj⟩ := hpart k
    have hin := hj.1 ⟨hlo, hlt⟩
    rw [heq]
    exact h.below j hin.1 hin.2
  · intro k hlo hle
    obtain ⟨j, heq, hj⟩ := hpart k
    have hin := hj.2.2 ⟨hlo, hle⟩
    rw [heq]
    exact h.equal j hin.1 hin.2
  · intro k hlt hhi
    obtain ⟨j, heq, hj⟩ := hpart k
    have hin := hj.2.1 ⟨hlt, hhi⟩
    rw [heq]
    exact h.above j hin.1 hin.2

/-- A part stays in order when another part is rearranged. -/
theorem Ordered.rearranged (h : Ordered cmp lo hi X) (hY : Rearranged lo' hi' X Y)
    (hsides : hi ≤ lo' ∨ hi' ≤ lo) : Ordered cmp lo hi Y := by
  intro p q hp hpq hq
  rw [hY.outside (by omega), hY.outside (by omega)]
  exact h p q hp hpq hq

/-- A split part is in order after both its sides have been brought in order, first the low one. -/
theorem Split.sorted_low (hcmp : TotalPreorder cmp) (h : Split cmp v X lo lp hp hi) (hle : lp ≤ hp)
    (hY : Rearranged lo lp X Y) (hlow : Ordered cmp lo lp Y) (hZ : Rearranged (hp + 1) hi Y Z)
    (hhigh : Ordered cmp (hp + 1) hi Z) : Ordered cmp lo hi Z := by
  have hsplit := (h.rearranged (Or.inl hY) hle).rearranged (Or.inr hZ) hle
  apply hsplit.ordered hcmp _ hhigh
  exact hlow.rearranged hZ (Or.inl (by omega))

/-- The same when the high side comes first. -/
theorem Split.sorted_high (hcmp : TotalPreorder cmp) (h : Split cmp v X lo lp hp hi) (hle : lp ≤ hp)
    (hY : Rearranged (hp + 1) hi X Y) (hhigh : Ordered cmp (hp + 1) hi Y)
    (hZ : Rearranged lo lp Y Z) (hlow : Ordered cmp lo lp Z) : Ordered cmp lo hi Z := by
  have hsplit := (h.rearranged (Or.inr hY) hle).rearranged (Or.inl hZ) hle
  apply hsplit.ordered hcmp hlow
  exact hhigh.rearranged hZ (Or.inr (by omega))

end

end Rearrangements
end BbbXinu
