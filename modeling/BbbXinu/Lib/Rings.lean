import Mathlib.Data.List.Induction
import Mathlib.Data.Nat.ModEq
import BbbXinu.Lib.Table

/-!
# Circular buffers

A table of {lit}`n` entries with an index of the first entry in use and an index of the
first free one.  The entries in use are a list: an element is stored at the end, and
taken from either end.

Nothing here depends on a particular program.
-/

namespace BbbXinu
namespace Rings

/-- The index after an index. -/
def next (n i : Nat) : Nat := if n ≤ i + 1 then 0 else i + 1

/-- The index before an index. -/
def prev (n i : Nat) : Nat := if i = 0 then n - 1 else i - 1

/-- The entries in use, from {lit}`head` on, are those of a list. -/
structure Ring {α : Type} (n : Nat) (buf : Nat → α) (head tail : Nat) (l : List α) : Prop where
  head_lt : head < n
  tail_eq : tail = (head + l.length) % n
  length_le : l.length ≤ n
  holds : ∀ i x, l[i]? = some x → buf ((head + i) % n) = x

section

variable {α : Type} {n i j head tail : Nat} {buf : Nat → α} {l : List α} {x : α}

theorem next_eq (h : i < n) : next n i = (i + 1) % n := by
  unfold next
  by_cases hn : n ≤ i + 1
  · rw [if_pos hn, show i + 1 = n by omega, Nat.mod_self]
  · rw [if_neg hn, Nat.mod_eq_of_lt (by omega)]

theorem prev_next (h : i < n) : prev n (next n i) = i := by
  unfold prev next
  split
  · split
    · omega
    · omega
  · split
    · omega
    · omega

/-- Different entries in use lie at different indices. -/
theorem index_ne (hij : i < j) (hj : j < n) : (head + i) % n ≠ (head + j) % n := by
  intro h
  have hmod : i % n = j % n := Nat.ModEq.add_left_cancel' head h
  rw [Nat.mod_eq_of_lt (by omega), Nat.mod_eq_of_lt hj] at hmod
  omega

theorem Ring.nil (h : head < n) : Ring n buf head head ([] : List α) where
  head_lt := h
  tail_eq := (Nat.mod_eq_of_lt h).symm
  length_le := Nat.zero_le _
  holds := nofun

theorem Ring.tail_lt (h : Ring n buf head tail l) : tail < n := by
  rw [h.tail_eq]
  exact Nat.mod_lt _ (Nat.zero_lt_of_lt h.head_lt)

/-- An element is stored behind the others while there is room. -/
theorem Ring.push (h : Ring n buf head tail l) (hroom : l.length < n) :
    Ring n (upd buf tail x) head (next n tail) (l ++ [x]) where
  head_lt := h.head_lt
  tail_eq := by
    rw [next_eq h.tail_lt, h.tail_eq, Nat.mod_add_mod, List.length_append]
    rfl
  length_le := by
    rw [List.length_append]
    exact hroom
  holds := by
    intro i y hi
    by_cases hlast : i < l.length
    · rw [List.getElem?_append_left hlast] at hi
      have hne : (head + i) % n ≠ tail := by
        rw [h.tail_eq]
        exact index_ne hlast hroom
      rw [upd_of_ne hne]
      exact h.holds i y hi
    · rw [List.getElem?_append_right (by omega)] at hi
      have h0 : i - l.length = 0 := by
        by_contra hpos
        rw [List.getElem?_eq_none (by simp; omega)] at hi
        cases hi
      rw [h0] at hi
      rw [show i = l.length by omega, ← h.tail_eq, upd_self]
      exact Option.some.inj hi

/-- The first element is the one at the head. -/
theorem Ring.first (h : Ring n buf head tail (x :: l)) : buf head = x := by
  have hx := h.holds 0 x rfl
  rwa [Nat.add_zero, Nat.mod_eq_of_lt h.head_lt] at hx

theorem Ring.pop (h : Ring n buf head tail (x :: l)) : Ring n buf (next n head) tail l where
  head_lt := by
    rw [next_eq h.head_lt]
    exact Nat.mod_lt _ (Nat.zero_lt_of_lt h.head_lt)
  tail_eq := by
    rw [next_eq h.head_lt, Nat.mod_add_mod, h.tail_eq, List.length_cons, Nat.add_right_comm,
      Nat.add_assoc]
  length_le := Nat.le_of_succ_le h.length_le
  holds := by
    intro i y hi
    have hy := h.holds (i + 1) y hi
    rw [next_eq h.head_lt, Nat.mod_add_mod, Nat.add_right_comm, Nat.add_assoc]
    exact hy

/-- The last element is given up. -/
theorem Ring.dropLast (h : Ring n buf head tail (l ++ [x])) :
    Ring n buf head (prev n tail) l where
  head_lt := h.head_lt
  tail_eq := by
    have hpos : 0 < n := Nat.zero_lt_of_lt h.head_lt
    have htail : tail = next n ((head + l.length) % n) := by
      rw [next_eq (Nat.mod_lt _ hpos), Nat.mod_add_mod, h.tail_eq, List.length_append]
      rfl
    rw [htail, prev_next (Nat.mod_lt _ hpos)]
  length_le := by
    have hle := h.length_le
    rw [List.length_append] at hle
    exact Nat.le_of_succ_le hle
  holds := by
    intro i y hi
    have hlt : i < l.length := (List.getElem?_eq_some_iff.mp hi).1
    exact h.holds i y (by rw [List.getElem?_append_left hlt, hi])

/-- Some elements at the end are given up, where the index does not have to wrap. -/
theorem Ring.dropRight {l' : List α} (h : Ring n buf head tail (l ++ l'))
    (hle : l'.length ≤ tail) : Ring n buf head (tail - l'.length) l := by
  induction l' using List.reverseRecOn generalizing tail with
  | nil => simpa using h
  | append_singleton l' x ih =>
      rw [List.length_append, List.length_singleton] at hle
      rw [← List.append_assoc] at h
      have hprev : prev n tail = tail - 1 := if_neg (by omega)
      have hdrop := h.dropLast
      rw [hprev] at hdrop
      have hrest := ih hdrop (by omega)
      rw [List.length_append, List.length_singleton]
      rwa [show tail - (l'.length + 1) = tail - 1 - l'.length by omega]

/-!
## Queues with a count and a history
-/

/-- A circular buffer with a count: what was put in is what was taken out, in the same
order, followed by what is there. -/
structure Queue (n : Nat) (buf : Nat → α) (head tail : Nat) (count : Int)
    (queued left : List α) : Prop where
  exists_ring : ∃ l, Ring n buf head tail l ∧ count = l.length ∧ queued = left ++ l

variable {count : Int} {queued left : List α}

theorem Queue.nil (h : head < n) : Queue n buf head head 0 ([] : List α) [] :=
  ⟨[], Ring.nil h, rfl, rfl⟩

theorem Queue.head_lt (h : Queue n buf head tail count queued left) : head < n := by
  obtain ⟨l, hring, -, -⟩ := h.exists_ring
  exact hring.head_lt

theorem Queue.tail_lt (h : Queue n buf head tail count queued left) : tail < n := by
  obtain ⟨l, hring, -, -⟩ := h.exists_ring
  exact hring.tail_lt

theorem Queue.count_nonneg (h : Queue n buf head tail count queued left) : 0 ≤ count := by
  obtain ⟨l, -, hcount, -⟩ := h.exists_ring
  omega

theorem Queue.push (h : Queue n buf head tail count queued left) (x : α) (hroom : count < n) :
    Queue n (upd buf tail x) head (next n tail) (count + 1) (queued ++ [x]) left := by
  obtain ⟨l, hring, hcount, hlog⟩ := h.exists_ring
  refine ⟨l ++ [x], hring.push (by omega), ?_, ?_⟩
  · rw [hcount, List.length_append]
    rfl
  · rw [hlog, List.append_assoc]

theorem Queue.pop (h : Queue n buf head tail count queued left) (hpos : 0 < count) :
    Queue n buf (next n head) tail (count - 1) queued (left ++ [buf head]) := by
  obtain ⟨l, hring, hcount, hlog⟩ := h.exists_ring
  cases l with
  | nil =>
      rw [List.length_nil] at hcount
      omega
  | cons x l =>
      refine ⟨l, hring.pop, ?_, ?_⟩
      · rw [hcount, List.length_cons]
        omega
      · rw [hlog, hring.first, List.append_assoc]
        rfl

end

end Rings
end BbbXinu
