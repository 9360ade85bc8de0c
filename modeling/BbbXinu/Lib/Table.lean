import Mathlib.Algebra.Order.BigOperators.Group.List
import Mathlib.Algebra.Order.Ring.Int
import Mathlib.Logic.Basic
import Mathlib.Algebra.Order.Ring.Nat
import Mathlib.Data.List.FinRange
import Mathlib.Data.List.Nodup
import Mathlib.Data.List.Perm.Basic

/-!
# Tables

A table is a function of its index.  {lit}`upd` replaces one entry; unlike the
library's function update it is not dependent, so it evaluates by comparing
indices and nothing else.

Nothing here depends on a particular program.
-/

namespace BbbXinu

/-- A table with one entry replaced. -/
def upd {κ α : Type} [DecidableEq κ] (f : κ → α) (k : κ) (v : α) : κ → α :=
  fun i => if i = k then v else f i

section

variable {κ α β : Type} [DecidableEq κ] {f : κ → α} {k i : κ} {v w : α}

@[simp] theorem upd_self : upd f k v k = v := if_pos rfl

theorem upd_of_ne (h : i ≠ k) : upd f k v i = f i := if_neg h

theorem upd_apply : upd f k v i = if i = k then v else f i := rfl

@[simp] theorem upd_upd : upd (upd f k v) k w = upd f k w := by
  funext i
  by_cases h : i = k <;> simp [upd_apply, h]

theorem upd_eq_self (h : f k = v) : upd f k v = f := by
  funext i
  by_cases hi : i = k
  · rw [hi, upd_self, h]
  · rw [upd_of_ne hi]

/-- Reading a projection of an updated table. -/
theorem proj_upd (g : α → β) :
    (fun i => g (upd f k v i)) = upd (fun i => g (f i)) k (g v) := by
  funext i
  by_cases h : i = k <;> simp [upd_apply, h]

end

/-!
## Sums over a table
-/

section

variable {κ : Type} {k : κ}

/-- One entry of a table changes its sum. -/
theorem sum_map_change {l : List κ} {f f' : κ → Int} (hl : l.Nodup) (hk : k ∈ l)
    (h : ∀ i, i ≠ k → f' i = f i) : (l.map f').sum = (l.map f).sum + (f' k - f k) := by
  induction l with
  | nil => cases hk
  | cons a l ih =>
      have hnodup := List.nodup_cons.mp hl
      rw [List.map_cons, List.map_cons, List.sum_cons, List.sum_cons]
      by_cases ha : a = k
      · have hsame : l.map f' = l.map f := by
          apply List.map_congr_left
          intro i hi
          apply h
          intro hik
          exact hnodup.1 (ha.trans hik.symm ▸ hi)
        rw [hsame, ha]
        omega
      · have hmem : k ∈ l := (List.mem_cons.mp hk).resolve_left fun he => ha he.symm
        rw [ih hnodup.2 hmem, h a ha]
        omega

/-- A table that is 0 but for one entry. -/
theorem sum_map_single {l : List κ} {f : κ → Int} (hl : l.Nodup) (hk : k ∈ l)
    (h : ∀ i, i ≠ k → f i = 0) : (l.map f).sum = f k := by
  have hzero : (l.map fun _ => (0 : Int)).sum = 0 := by
    rw [List.map_const', List.sum_replicate, nsmul_zero]
  rw [sum_map_change (f := fun _ => 0) hl hk h, hzero]
  omega

theorem le_sum_map {l : List κ} {f : κ → Int} (hk : k ∈ l) (h : ∀ i, 0 ≤ f i) :
    f k ≤ (l.map f).sum := by
  apply List.single_le_sum
  · intro x hx
    rcases List.mem_map.mp hx with ⟨i, _, rfl⟩
    exact h i
  · exact List.mem_map_of_mem hk

end

end BbbXinu

/-!
# Things divided among owners

A list of things is divided when each of them is either free or belongs to one
of finitely many owners.  Things go from the free ones to an owner and back,
which concerns this owner only.

Nothing here depends on a particular program.
-/

namespace BbbXinu

/-- The free things and those of all owners are the given ones, in some order. -/
def Parted {α : Type} {n : Nat} (all free : List α) (own : Fin n → List α) : Prop :=
  (free ++ (List.finRange n).flatMap own).Perm all

namespace Parted

variable {α : Type} {n : Nat} {all free free' : List α} {own : Fin n → List α} {e e' : Fin n}
  {l : List α} {a : α}

/-- The things of the other owners. -/
def others (own : Fin n → List α) (e : Fin n) : List α :=
  ((List.finRange n).erase e).flatMap own

theorem all_free : Parted all all fun _ : Fin n => [] := by
  unfold Parted
  rw [List.flatMap_eq_nil_iff.mpr fun _ _ => rfl, List.append_nil]

theorem flatMap_perm (own : Fin n → List α) (e : Fin n) :
    ((List.finRange n).flatMap own).Perm (own e ++ others own e) := by
  have hperm : (List.finRange n).Perm (e :: (List.finRange n).erase e) :=
    List.perm_cons_erase (List.mem_finRange e)
  exact hperm.flatMap_right own

theorem others_upd : others (upd own e l) e = others own e := by
  unfold others
  apply List.flatMap_congr
  intro i hi
  apply upd_of_ne
  intro heq
  rw [heq] at hi
  exact (List.nodup_finRange n).not_mem_erase hi

/-- All things, with those of one owner apart. -/
theorem split (h : Parted all free own) (e : Fin n) :
    (free ++ own e ++ others own e).Perm all := by
  rw [List.append_assoc]
  exact ((flatMap_perm own e).symm.append_left free).trans h

theorem of_split (h : (free ++ own e ++ others own e).Perm all) : Parted all free own := by
  rw [List.append_assoc] at h
  exact ((flatMap_perm own e).append_left free).trans h

/-- One owner and the free things exchange some. -/
theorem exchange (h : Parted all free own) (hl : (free' ++ l).Perm (free ++ own e)) :
    Parted all free' (upd own e l) := by
  apply of_split (e := e)
  rw [upd_self, others_upd]
  exact (hl.append_right _).trans (h.split e)

theorem nodup (h : Parted all free own) (hall : all.Nodup) (e : Fin n) :
    (free ++ own e).Nodup :=
  (List.nodup_append.mp ((h.split e).nodup_iff.mpr hall)).1

theorem mem_all (h : Parted all free own) (ha : a ∈ free ∨ a ∈ own e) : a ∈ all := by
  apply (h.split e).subset
  rw [List.mem_append, List.mem_append]
  exact Or.inl ha

theorem mem_others (he : e' ≠ e) (ha : a ∈ own e') : a ∈ others own e := by
  apply List.mem_flatMap.mpr
  exact ⟨e', (List.mem_erase_of_ne he).mpr (List.mem_finRange e'), ha⟩

/-- What belongs to another owner is neither free nor this owner's. -/
theorem apart (h : Parted all free own) (hall : all.Nodup) (he : e' ≠ e) (ha : a ∈ own e') :
    ¬(a ∈ free ∨ a ∈ own e) := by
  intro hown
  have hnodup := (h.split e).nodup_iff.mpr hall
  have hmem : a ∈ free ++ own e := List.mem_append.mpr hown
  exact (List.nodup_append.mp hnodup).2.2 a hmem a (mem_others he ha) rfl

/-- The number of all things. -/
theorem length (h : Parted all free own) :
    free.length + ((List.finRange n).map fun e => (own e).length).sum = all.length := by
  have hlen := List.Perm.length_eq h
  rw [List.length_append, List.length_flatMap] at hlen
  exact hlen

end Parted
end BbbXinu
