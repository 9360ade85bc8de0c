import BbbXinu.Lib.Table
import Mathlib.Data.List.Basic

/-!
# Chains

Singly linked lists in one link table.  A chain starts at a pointer and follows the links up to
the null pointer.  Several chains may live in the table at once; a change of the link of a node
concerns the chain that the node is in.

Nothing here depends on a particular program.
-/

namespace BbbXinu
namespace Chains

variable {ι : Type}

/-- From a pointer the links lead through some nodes to the null pointer. -/
def Chain (next : ι → ι) (null : ι) : ι → List ι → Prop
  | a, [] => a = null
  | a, x :: l => a = x ∧ a ≠ null ∧ Chain next null (next a) l

section

variable {next next' : ι → ι} {null a b x t : ι} {l l' m : List ι}

theorem chain_nil : Chain next null null [] := rfl

theorem Chain.eq_nil (h : Chain next null null l) : l = [] := by
  cases l with
  | nil => rfl
  | cons x l => exact absurd rfl h.2.1

/-- A chain that is not empty starts with its first node. -/
theorem Chain.of_ne_null (h : Chain next null a l) (ha : a ≠ null) :
    ∃ rest, l = a :: rest ∧ Chain next null (next a) rest := by
  cases l with
  | nil => exact absurd h ha
  | cons x rest =>
      rcases h with ⟨hx, _, hrest⟩
      exact ⟨rest, by rw [hx], hrest⟩

theorem Chain.eq_null_iff (h : Chain next null a l) : a = null ↔ l = [] := by
  constructor
  · intro ha
    subst ha
    exact h.eq_nil
  · intro hl
    subst hl
    exact h

/-- A chain depends on the links of its nodes only. -/
theorem Chain.congr (h : Chain next null a l) (hnext : ∀ x ∈ l, next' x = next x) :
    Chain next' null a l := by
  induction l generalizing a with
  | nil => exact h
  | cons x l ih =>
      rcases h with ⟨rfl, ha, hrest⟩
      refine ⟨rfl, ha, ?_⟩
      rw [hnext a List.mem_cons_self]
      exact ih hrest fun y hy => hnext y (List.mem_cons_of_mem a hy)

theorem Chain.null_not_mem (h : Chain next null a l) : null ∉ l := by
  induction l generalizing a with
  | nil => exact List.not_mem_nil
  | cons x l ih =>
      rcases h with ⟨rfl, ha, hrest⟩
      rw [List.mem_cons, not_or]
      exact ⟨Ne.symm ha, ih hrest⟩

/-- The nodes are determined by the pointer. -/
theorem Chain.unique (h : Chain next null a l) (h' : Chain next null a l') : l = l' := by
  induction l generalizing a l' with
  | nil =>
      cases h
      exact h'.eq_nil.symm
  | cons x l ih =>
      rcases h with ⟨rfl, ha, hrest⟩
      obtain ⟨rest, rfl, hrest'⟩ := h'.of_ne_null ha
      rw [ih hrest hrest']

/-- From each of its nodes on, a chain is a chain. -/
theorem Chain.suffix (h : Chain next null a (l ++ x :: m)) : Chain next null x (x :: m) := by
  induction l generalizing a with
  | nil =>
      rcases h with ⟨rfl, ha, hrest⟩
      exact ⟨rfl, ha, hrest⟩
  | cons y l ih => exact ih h.2.2

/-- A chain meets no node twice, for it would not end. -/
theorem Chain.nodup (h : Chain next null a l) : l.Nodup := by
  induction l generalizing a with
  | nil => exact List.nodup_nil
  | cons x l ih =>
      rcases h with ⟨rfl, ha, hrest⟩
      rw [List.nodup_cons]
      constructor
      · intro hmem
        obtain ⟨l₁, l₂, rfl⟩ := List.append_of_mem hmem
        have hagain : Chain next null a (a :: l₂) := hrest.suffix
        have hlen := congrArg List.length (hrest.unique hagain.2.2)
        rw [List.length_append, List.length_cons] at hlen
        omega
      · exact ih hrest

end

/-!
## Linking and unlinking
-/

section

variable [DecidableEq ι] {next : ι → ι} {null a b x t v : ι} {l m : List ι}

/-- A link outside of a chain. -/
theorem Chain.other (h : Chain next null a l) (hx : x ∉ l) : Chain (upd next x v) null a l := by
  apply h.congr
  intro y hy
  exact upd_of_ne (ne_of_mem_of_not_mem hy hx)

/-- A node is put in front. -/
theorem Chain.push (h : Chain next null a l) (hx : x ∉ l) (hnull : x ≠ null) :
    Chain (upd next x a) null x (x :: l) := by
  refine ⟨rfl, hnull, ?_⟩
  rw [upd_self]
  exact h.other hx

/-- The last node is linked to another chain. -/
theorem Chain.append (h : Chain next null a (l ++ [t])) (h' : Chain next null b m)
    (ht : t ∉ m) : Chain (upd next t b) null a (l ++ t :: m) := by
  induction l generalizing a with
  | nil =>
      rcases h with ⟨rfl, ha, _⟩
      refine ⟨rfl, ha, ?_⟩
      rw [upd_self]
      exact h'.other ht
  | cons y l ih =>
      have hnodup := h.nodup
      rcases h with ⟨rfl, ha, hrest⟩
      have hne : a ≠ t := by
        intro hat
        rw [List.cons_append, List.nodup_cons, hat] at hnodup
        exact hnodup.1 (List.mem_append_right l (List.mem_singleton_self t))
      refine ⟨rfl, ha, ?_⟩
      rw [upd_of_ne hne]
      exact ih hrest

/-- A node is put at the end. -/
theorem Chain.concat (h : Chain next null a (l ++ [t])) (hx : x ∉ l ++ [t]) (hnull : x ≠ null) :
    Chain (upd (upd next x null) t x) null a (l ++ [t, x]) := by
  have hsingle : Chain (upd next x null) null x [x] := by
    refine ⟨rfl, hnull, ?_⟩
    rw [upd_self]
    exact chain_nil
  have ht : t ∉ [x] := by
    intro hmem
    rw [List.mem_singleton.mp hmem] at hx
    exact hx (List.mem_append_right l (List.mem_singleton_self x))
  exact (h.other hx).append hsingle ht

end

/-!
## Blocks of equal size
-/

/-- The addresses of some blocks of one size that lie one behind the other. -/
def blocks (size : Nat) : Nat → Nat → List Nat
  | _, 0 => []
  | a, n + 1 => a :: blocks size (a + size) n

section

variable {size a b n : Nat}

theorem length_blocks : (blocks size a n).length = n := by
  induction n generalizing a with
  | zero => rfl
  | succ n ih => rw [blocks, List.length_cons, ih]

theorem mem_blocks : b ∈ blocks size a n ↔ ∃ i < n, b = a + i * size := by
  induction n generalizing a with
  | zero => simp [blocks]
  | succ n ih =>
      rw [blocks, List.mem_cons, ih]
      constructor
      · intro h
        rcases h with rfl | ⟨i, hi, rfl⟩
        · exact ⟨0, by omega, by rw [Nat.zero_mul, Nat.add_zero]⟩
        · exact ⟨i + 1, by omega, by rw [Nat.succ_mul]; omega⟩
      · rintro ⟨i, hi, rfl⟩
        cases i with
        | zero => exact Or.inl (by rw [Nat.zero_mul, Nat.add_zero])
        | succ i => exact Or.inr ⟨i, by omega, by rw [Nat.succ_mul]; omega⟩

/-- The blocks lie in the memory that they take up. -/
theorem blocks_within (h : b ∈ blocks size a n) : a ≤ b ∧ b + size ≤ a + n * size := by
  obtain ⟨i, hi, rfl⟩ := mem_blocks.mp h
  have hle : (i + 1) * size ≤ n * size := Nat.mul_le_mul_right size hi
  rw [Nat.succ_mul] at hle
  omega

/-- Two different blocks do not overlap. -/
theorem blocks_apart {b' : Nat} (h : b ∈ blocks size a n) (h' : b' ∈ blocks size a n)
    (hne : b ≠ b') : b + size ≤ b' ∨ b' + size ≤ b := by
  obtain ⟨i, -, rfl⟩ := mem_blocks.mp h
  obtain ⟨j, -, rfl⟩ := mem_blocks.mp h'
  rcases Nat.lt_trichotomy i j with hlt | rfl | hlt
  · have hle : (i + 1) * size ≤ j * size := Nat.mul_le_mul_right size hlt
    rw [Nat.succ_mul] at hle
    omega
  · exact absurd rfl hne
  · have hle : (j + 1) * size ≤ i * size := Nat.mul_le_mul_right size hlt
    rw [Nat.succ_mul] at hle
    omega

end

end Chains
end BbbXinu
