import Mathlib.Algebra.Order.Ring.Nat
import Mathlib.Logic.Equiv.Fin.Basic
import Mathlib.Data.List.Basic
import Mathlib.Data.List.GetD

/-!
# Records in blocks of bytes

A layout says how the values of a type lie in a block of bytes of a fixed
length.  It is a bijection, so that reading back what was written gives the
value, and writing what was read changes nothing.  Layouts are put together
from bytes, little-endian words, pairs and arrays.  The second part is about
reading and replacing a piece of a longer block.

Nothing here depends on a particular program.
-/

namespace BbbXinu
namespace Layouts

/-- How a value lies in a block of the given number of bytes. -/
abbrev Layout (α : Type) (n : Nat) : Type := α ≃ (Fin n → UInt8)

/-!
## Words
-/

/-- Byte number {lit}`i` of a word, the lowest first. -/
def wordByte (w : UInt32) (i : Nat) : UInt8 := UInt8.ofNat (w.toNat / 256 ^ i)

/-- The word with the given four bytes, the lowest first. -/
def ofBytes (b : Fin 4 → UInt8) : UInt32 :=
  UInt32.ofNat ((b 0).toNat + 256 * (b 1).toNat + 65536 * (b 2).toNat
    + 16777216 * (b 3).toNat)

theorem wordByte_toNat (w : UInt32) (i : Nat) :
    (wordByte w i).toNat = w.toNat / 256 ^ i % 256 := by
  simp [wordByte, UInt8.toNat_ofNat']

theorem ofBytes_toNat (b : Fin 4 → UInt8) :
    (ofBytes b).toNat = (b 0).toNat + 256 * (b 1).toNat + 65536 * (b 2).toNat
      + 16777216 * (b 3).toNat := by
  have h0 := (b 0).toNat_lt
  have h1 := (b 1).toNat_lt
  have h2 := (b 2).toNat_lt
  have h3 := (b 3).toNat_lt
  rw [ofBytes, UInt32.toNat_ofNat']
  apply Nat.mod_eq_of_lt
  omega

theorem ofBytes_wordByte (w : UInt32) : ofBytes (fun i => wordByte w i) = w := by
  have hw := w.toNat_lt
  apply UInt32.toNat_inj.mp
  rw [ofBytes_toNat]
  simp only [wordByte_toNat]
  change w.toNat / 1 % 256 + 256 * (w.toNat / 256 % 256) + 65536 * (w.toNat / 65536 % 256)
    + 16777216 * (w.toNat / 16777216 % 256) = _
  omega

theorem wordByte_ofBytes (b : Fin 4 → UInt8) (i : Fin 4) : wordByte (ofBytes b) i = b i := by
  have h0 := (b 0).toNat_lt
  have h1 := (b 1).toNat_lt
  have h2 := (b 2).toNat_lt
  have h3 := (b 3).toNat_lt
  apply UInt8.toNat_inj.mp
  rw [wordByte_toNat, ofBytes_toNat]
  match i with
  | 0 =>
      change _ / 1 % 256 = (b 0).toNat
      omega
  | 1 =>
      change _ / 256 % 256 = (b 1).toNat
      omega
  | 2 =>
      change _ / 65536 % 256 = (b 2).toNat
      omega
  | 3 =>
      change _ / 16777216 % 256 = (b 3).toNat
      omega

/-- A word of 32 bits, its lowest byte first. -/
def word : Layout UInt32 4 where
  toFun w := fun i => wordByte w i
  invFun b := ofBytes b
  left_inv w := ofBytes_wordByte w
  right_inv b := funext fun i => wordByte_ofBytes b i

/-!
## Composite layouts
-/

/-- An array of bytes is its own layout. -/
def bytes (n : Nat) : Layout (Fin n → UInt8) n := Equiv.refl _

/-- Two values one behind the other. -/
def pair {α β : Type} {m n : Nat} (a : Layout α m) (b : Layout β n) : Layout (α × β) (m + n) :=
  (Equiv.prodCongr a b).trans (Fin.appendEquiv m n)

/-- The given number of values of one type one behind the other. -/
def array {α : Type} {n : Nat} (a : Layout α n) (k : Nat) : Layout (Fin k → α) (k * n) :=
  (Equiv.arrowCongr (Equiv.refl (Fin k)) a).trans
    ((Equiv.curry (Fin k) (Fin n) UInt8).symm.trans
      (Equiv.arrowCongr finProdFinEquiv (Equiv.refl UInt8)))

/-!
## Pieces of a block
-/

section Pieces

variable {β : Type} {N n d d' m : Nat}

/-- The piece of the given length at the given place. -/
def piece (s : Fin N → β) (d n : Nat) (h : d + n ≤ N) : Fin n → β :=
  fun i => s ⟨d + i, by omega⟩

/-- The block with a piece replaced. -/
def patch (s : Fin N → β) (d : Nat) (b : Fin n → β) : Fin N → β :=
  fun i => if h : d ≤ i ∧ i < d + n then b ⟨i - d, by omega⟩ else s i

theorem piece_patch (s : Fin N → β) (b : Fin n → β) (h : d + n ≤ N) :
    piece (patch s d b) d n h = b := by
  funext i
  have hi : d ≤ d + i.val ∧ d + i.val < d + n := ⟨by omega, by omega⟩
  simp only [piece, patch, dif_pos hi]
  congr 1
  apply Fin.ext
  simp

theorem piece_patch_of_disjoint (s : Fin N → β) (b : Fin n → β) (h : d' + m ≤ N)
    (hd : d' + m ≤ d ∨ d + n ≤ d') : piece (patch s d b) d' m h = piece s d' m h := by
  funext i
  have hi : ¬(d ≤ d' + i.val ∧ d' + i.val < d + n) := by
    have := i.isLt
    omega
  simp only [piece, patch, dif_neg hi]

end Pieces

end Layouts
end BbbXinu

/-!
# Labels in memory

A list of labels is written with a separator between two of them or behind each of them, or
with the length of each before it.  The second part is about bytes that lie in a memory from
an address on.

Nothing here depends on a particular program.
-/

namespace BbbXinu
namespace Labels

/-- The labels with a separator between two of them. -/
def joined (sep : UInt8) (ls : List (List UInt8)) : List UInt8 := [sep].intercalate ls

/-- The labels with a separator behind each. -/
def closed (sep : UInt8) (ls : List (List UInt8)) : List UInt8 := ls.flatMap fun l => l ++ [sep]

/-- The labels with its length before each. -/
def framed (ls : List (List UInt8)) : List UInt8 :=
  ls.flatMap fun l => UInt8.ofNat l.length :: l

/-- The bytes lie in a memory from an address on. -/
def Holds (mem : Nat → UInt8) : Nat → List UInt8 → Prop
  | _, [] => True
  | a, b :: bytes => mem a = b ∧ Holds mem (a + 1) bytes

/-- The bytes are stored from an address on. -/
def stored (mem : Nat → UInt8) (a : Nat) (bytes : List UInt8) : Nat → UInt8 :=
  fun i => if a ≤ i then bytes.getD (i - a) (mem i) else mem i

section

variable {sep : UInt8} {l bytes bytes' : List UInt8} {ls : List (List UInt8)} {mem : Nat → UInt8}
  {a : Nat}

theorem joined_singleton (sep : UInt8) (l : List UInt8) : joined sep [l] = l := by
  unfold joined
  rw [List.intercalate_singleton]

theorem joined_cons (sep : UInt8) (l : List UInt8) (h : ls ≠ []) :
    joined sep (l :: ls) = l ++ sep :: joined sep ls := by
  cases ls with
  | nil => exact absurd rfl h
  | cons l' ls =>
      unfold joined
      rw [List.intercalate_cons_cons]
      simp

theorem closed_cons (sep : UInt8) (l : List UInt8) (ls : List (List UInt8)) :
    closed sep (l :: ls) = l ++ sep :: closed sep ls := by
  unfold closed
  rw [List.flatMap_cons, List.append_assoc, List.singleton_append]

theorem framed_cons (l : List UInt8) (ls : List (List UInt8)) :
    framed (l :: ls) = UInt8.ofNat l.length :: (l ++ framed ls) := by
  unfold framed
  rw [List.flatMap_cons, List.cons_append]

/-- The last separator makes the difference. -/
theorem joined_append (h : ls ≠ []) : joined sep ls ++ [sep] = closed sep ls := by
  induction ls with
  | nil => exact absurd rfl h
  | cons l ls ih =>
      rw [closed_cons]
      by_cases hls : ls = []
      · subst hls
        rw [joined_singleton]
        rfl
      · rw [joined_cons sep l hls, List.append_assoc, List.cons_append, ih hls]

theorem length_framed (sep : UInt8) (ls : List (List UInt8)) :
    (framed ls).length = (closed sep ls).length := by
  induction ls with
  | nil => rfl
  | cons l ls ih =>
      rw [framed_cons, closed_cons, List.length_cons, List.length_append, List.length_append,
        List.length_cons, ih]
      omega

/-!
## Bytes in a memory
-/

theorem holds_append : Holds mem a (bytes ++ bytes') ↔
    Holds mem a bytes ∧ Holds mem (a + bytes.length) bytes' := by
  induction bytes generalizing a with
  | nil => exact (and_iff_right trivial).symm
  | cons b bytes ih =>
      rw [List.cons_append, List.length_cons, Nat.add_comm bytes.length 1, ← Nat.add_assoc]
      change mem a = b ∧ Holds mem (a + 1) (bytes ++ bytes') ↔ _
      rw [ih]
      exact (and_assoc).symm

theorem Holds.get (h : Holds mem a bytes) {i : Nat} (hi : i < bytes.length) :
    mem (a + i) = bytes[i] := by
  induction bytes generalizing a i with
  | nil => exact absurd hi (Nat.not_lt_zero i)
  | cons b bytes ih =>
      cases i with
      | zero => exact h.1
      | succ i =>
          have hget := ih h.2 (Nat.lt_of_succ_lt_succ hi)
          rw [Nat.add_assoc, Nat.add_comm 1 i] at hget
          exact hget

/-- What is read there are the bytes. -/
theorem Holds.map_range (h : Holds mem a bytes) :
    (List.range bytes.length).map (fun i => mem (a + i)) = bytes := by
  apply List.ext_getElem
  · rw [List.length_map, List.length_range]
  · intro i hi hi'
    rw [List.getElem_map, List.getElem_range, h.get hi']

theorem holds_of_get (h : ∀ i (hi : i < bytes.length), mem (a + i) = bytes[i]) :
    Holds mem a bytes := by
  induction bytes generalizing a with
  | nil => trivial
  | cons b bytes ih =>
      refine ⟨h 0 (Nat.zero_lt_succ _), ih fun i hi => ?_⟩
      have hget : mem (a + (i + 1)) = bytes[i] := h (i + 1) (Nat.succ_lt_succ hi)
      rw [Nat.add_assoc, Nat.add_comm 1 i]
      exact hget

theorem holds_stored (mem : Nat → UInt8) (a : Nat) (bytes : List UInt8) :
    Holds (stored mem a bytes) a bytes := by
  apply holds_of_get
  intro i hi
  unfold stored
  rw [if_pos (Nat.le_add_right a i), Nat.add_sub_cancel_left, List.getD_eq_getElem _ _ hi]

end

end Labels
end BbbXinu
