import Mathlib.Algebra.BigOperators.Group.List.Basic
import Mathlib.Data.List.Basic
import BbbXinu.Lib.Table

/-!
# Filling buffers one after the other

Some buffers of given sizes are filled from the first one on, and from the start of each.
What they have then is the beginning of their contents taken together.

Nothing here depends on a particular program.
-/

namespace BbbXinu
namespace Scatter

variable {α : Type}

/-- The first entries of a buffer. -/
def front (buf : Nat → α) (n : Nat) : List α := (List.range n).map buf

/-- The contents of the first buffers, one after the other. -/
def contents (size : Nat → Nat) (bufs : Nat → Nat → α) (n : Nat) : List α :=
  (List.range n).flatMap fun b => front (bufs b) (size b)

/-- What the first buffers have room for. -/
def capacity (size : Nat → Nat) (n : Nat) : Nat := ((List.range n).map size).sum

/-- One entry of one buffer is replaced. -/
def store (bufs : Nat → Nat → α) (place : Nat × Nat) (x : α) : Nat → Nat → α :=
  upd bufs place.1 (upd (bufs place.1) place.2 x)

/-- The buffers before one of them are full, and that one up to a place, of a list. -/
structure Filled (size : Nat → Nat) (bufs : Nat → Nat → α) (n ind used : Nat) (l : List α) :
    Prop where
  ind_lt : ind < n
  used_le : used ≤ size ind
  holds : contents size bufs ind ++ front (bufs ind) used = l

section

variable {size : Nat → Nat} {bufs bufs' : Nat → Nat → α} {buf buf' : Nat → α} {n m ind used : Nat}
  {l : List α} {x : α}

theorem front_succ : front buf (n + 1) = front buf n ++ [buf n] := by
  unfold front
  rw [List.range_succ, List.map_append]
  rfl

theorem front_congr (h : ∀ i < n, buf i = buf' i) : front buf n = front buf' n :=
  List.map_congr_left fun i hi => h i (List.mem_range.mp hi)

theorem length_front : (front buf n).length = n := by
  unfold front
  rw [List.length_map, List.length_range]

/-- The next entry of a buffer is stored. -/
theorem front_upd : front (upd buf n x) (n + 1) = front buf n ++ [x] := by
  have hsame : front (upd buf n x) n = front buf n := front_congr fun i hi => upd_of_ne (by omega)
  rw [front_succ, hsame, upd_self]

theorem front_get (h : front buf n = l) {i : Nat} (hi : i < n) : l[i]? = some (buf i) := by
  rw [← h]
  unfold front
  rw [List.getElem?_map, List.getElem?_range hi]
  rfl

theorem front_initial (h : n ≤ m) : front buf n <+: front buf m := by
  have htake : (List.range m).take n = List.range n := by
    rw [List.take_range, Nat.min_eq_left h]
  unfold front
  rw [← htake]
  exact (List.take_prefix _ _).map _

theorem contents_succ :
    contents size bufs (n + 1) = contents size bufs n ++ front (bufs n) (size n) := by
  unfold contents
  rw [List.range_succ, List.flatMap_append, List.flatMap_singleton]

theorem contents_congr (h : ∀ b < n, bufs b = bufs' b) :
    contents size bufs n = contents size bufs' n := by
  induction n with
  | zero => rfl
  | succ n ih =>
      rw [contents_succ, contents_succ, ih fun b hb => h b (by omega), h n (by omega)]

theorem length_contents : (contents size bufs n).length = capacity size n := by
  induction n with
  | zero => rfl
  | succ n ih =>
      unfold capacity at ih ⊢
      rw [contents_succ, List.length_append, ih, length_front, List.range_succ, List.map_append,
        List.sum_append]
      rfl

theorem contents_initial (h : n ≤ m) : contents size bufs n <+: contents size bufs m := by
  induction m with
  | zero =>
      obtain rfl := Nat.le_zero.mp h
      exact List.prefix_rfl
  | succ m ih =>
      by_cases hm : n = m + 1
      · exact hm ▸ List.prefix_rfl
      · rw [contents_succ]
        exact (ih (by omega)).trans (List.prefix_append _ _)

theorem Filled.nil (h : 0 < n) : Filled size bufs n 0 0 ([] : List α) := ⟨h, Nat.zero_le _, rfl⟩

/-- The next entry is stored behind the last one. -/
theorem Filled.put (h : Filled size bufs n ind used l) (hroom : used < size ind) :
    Filled size (store bufs (ind, used) x) n ind (used + 1) (l ++ [x]) where
  ind_lt := h.ind_lt
  used_le := hroom
  holds := by
    have hbefore : contents size (store bufs (ind, used) x) ind = contents size bufs ind :=
      contents_congr fun b hb => upd_of_ne (by dsimp only; omega)
    have hthis : store bufs (ind, used) x ind = upd (bufs ind) used x := upd_self
    rw [hbefore, hthis, front_upd, ← List.append_assoc, h.holds]

/-- A full buffer is left for the next one. -/
theorem Filled.next (h : Filled size bufs n ind used l) (hfull : size ind ≤ used)
    (hn : ind + 1 < n) : Filled size bufs n (ind + 1) 0 l where
  ind_lt := hn
  used_le := Nat.zero_le _
  holds := by
    have hused : used = size ind := Nat.le_antisymm h.used_le hfull
    rw [contents_succ, ← hused, h.holds]
    exact List.append_nil l

/-- The last buffer is full. -/
theorem Filled.full (h : Filled size bufs n ind used l) (hfull : size ind ≤ used)
    (hn : n ≤ ind + 1) : contents size bufs n = l := by
  have hused : used = size ind := Nat.le_antisymm h.used_le hfull
  have hlast : n = ind + 1 := Nat.le_antisymm hn h.ind_lt
  rw [hlast, contents_succ, ← hused, h.holds]

/-- What was stored is the beginning of the contents. -/
theorem Filled.isPrefix (h : Filled size bufs n ind used l) : l <+: contents size bufs n := by
  have hfront : front (bufs ind) used <+: front (bufs ind) (size ind) := front_initial h.used_le
  have hwhole : l <+: contents size bufs (ind + 1) := by
    rw [← h.holds, contents_succ]
    exact (List.prefix_append_right_inj _).mpr hfront
  exact hwhole.trans (contents_initial h.ind_lt)

theorem Filled.length_le (h : Filled size bufs n ind used l) : l.length ≤ capacity size n :=
  h.isPrefix.length_le.trans_eq length_contents

end

end Scatter
end BbbXinu
