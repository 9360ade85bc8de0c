import Mathlib.Data.List.Basic
import Mathlib.Data.List.Pairwise
import Mathlib.Data.Set.Card
import Mathlib.Data.Set.Lattice
import Mathlib.Order.Interval.Finset.Nat
import Mathlib.Order.CompletePartialOrder
import Mathlib.Order.Interval.Set.Basic

/-!
# Lists of address ranges

A set of addresses is kept as a list of ranges in increasing order.  Ranges are
taken away at either end, or put back and joined with the neighbours that they
touch.

Nothing here depends on a particular program.
-/

namespace BbbXinu

structure Span where
  start : Nat
  size : Nat
  deriving DecidableEq, Repr

namespace Span

variable (a b : Span)

/-- The first address behind the range. -/
def stop : Nat := a.start + a.size

def bytes : Set Nat := Set.Ico a.start a.stop

/-- The range of two that touch. -/
def join : Span := { start := a.start, size := a.size + b.size }

/-- What is left above the given number of bytes at the start. -/
def dropLow (n : Nat) : List Span :=
  if a.size = n then [] else [{ start := a.start + n, size := a.size - n }]

/-- What is left below the given number of bytes at the end. -/
def dropHigh (n : Nat) : List Span :=
  if a.size = n then [] else [{ start := a.start, size := a.size - n }]

end Span

/-- The addresses of all ranges of a list. -/
def spanBytes (L : List Span) : Set Nat := { x | ∃ a ∈ L, x ∈ a.bytes }

/-- Ranges in increasing order, none empty, with at least the given gap between
any two. -/
structure Spaced (gap : Nat) (L : List Span) : Prop where
  size_pos : ∀ a ∈ L, 0 < a.size
  ascending : L.Pairwise fun a b => a.stop + gap ≤ b.start

section

variable {gap n : Nat} {a b c : Span} {l l₁ l₂ : List Span} {A : Set Nat}

/-!
## Addresses
-/

theorem mem_bytes {x : Nat} : x ∈ a.bytes ↔ a.start ≤ x ∧ x < a.stop := Iff.rfl

theorem spanBytes_nil : spanBytes [] = ∅ := by
  ext x
  constructor
  · intro h
    rcases h with ⟨a, ha, _⟩
    cases ha
  · exact False.elim

theorem spanBytes_append : spanBytes (l₁ ++ l₂) = spanBytes l₁ ∪ spanBytes l₂ := by
  ext x
  constructor
  · intro h
    rcases h with ⟨a, ha, hx⟩
    cases List.mem_append.mp ha with
    | inl h => exact Or.inl ⟨a, h, hx⟩
    | inr h => exact Or.inr ⟨a, h, hx⟩
  · intro h
    cases h with
    | inl h =>
        rcases h with ⟨a, ha, hx⟩
        exact ⟨a, List.mem_append_left l₂ ha, hx⟩
    | inr h =>
        rcases h with ⟨a, ha, hx⟩
        exact ⟨a, List.mem_append_right l₁ ha, hx⟩

theorem spanBytes_singleton : spanBytes [a] = a.bytes := by
  ext x
  constructor
  · intro h
    rcases h with ⟨b, hb, hx⟩
    cases List.mem_singleton.mp hb
    exact hx
  · exact fun hx => ⟨a, List.mem_singleton_self a, hx⟩

theorem spanBytes_cons : spanBytes (a :: l) = a.bytes ∪ spanBytes l := by
  rw [← spanBytes_singleton, ← spanBytes_append]
  rfl

theorem disjoint_spanBytes : Disjoint A (spanBytes l) ↔ ∀ a ∈ l, Disjoint A a.bytes := by
  constructor
  · intro h a ha
    apply h.mono_right
    exact fun x hx => ⟨a, ha, hx⟩
  · intro h
    apply Set.disjoint_left.mpr
    intro x hx hl
    rcases hl with ⟨a, ha, hxa⟩
    exact Set.disjoint_left.mp (h a ha) hx hxa

/-- Ranges that follow each other share nothing. -/
theorem disjoint_of_le (h : a.stop ≤ b.start) : Disjoint a.bytes b.bytes := by
  apply Set.disjoint_left.mpr
  intro x ha hb
  have hlt := ha.2
  have hle := hb.1
  omega

/-- Ranges that share nothing follow each other. -/
theorem le_of_disjoint (hb : 0 < b.size) (h : Disjoint a.bytes b.bytes)
    (hlt : a.start ≤ b.start) : a.stop ≤ b.start := by
  by_contra hcross
  have hin : b.start ∈ b.bytes := ⟨Nat.le_refl _, Nat.lt_add_of_pos_right hb⟩
  exact Set.disjoint_right.mp h hin ⟨hlt, Nat.lt_of_not_le hcross⟩

theorem join_bytes (h : a.stop = b.start) : (a.join b).bytes = a.bytes ∪ b.bytes := by
  ext x
  simp only [Set.mem_union, mem_bytes]
  unfold Span.join Span.stop at *
  dsimp only
  omega

/-- The part taken at the start and the part left. -/
theorem dropLow_bytes (h : n ≤ b.size) :
    ({ start := b.start, size := n } : Span).bytes ∪ spanBytes (b.dropLow n) = b.bytes := by
  unfold Span.dropLow
  split
  · rename_i heq
    rw [spanBytes_nil, Set.union_empty, ← heq]
  · rw [spanBytes_singleton]
    ext x
    simp only [Set.mem_union, mem_bytes]
    unfold Span.stop
    dsimp only
    omega

theorem dropHigh_bytes (h : n ≤ b.size) :
    ({ start := b.stop - n, size := n } : Span).bytes ∪ spanBytes (b.dropHigh n) = b.bytes := by
  unfold Span.dropHigh
  split
  · rename_i heq
    rw [spanBytes_nil, Set.union_empty, ← heq]
    unfold Span.stop
    rw [Nat.add_sub_cancel]
  · rw [spanBytes_singleton]
    ext x
    simp only [Set.mem_union, mem_bytes]
    unfold Span.stop
    dsimp only
    omega

theorem dropLow_disjoint :
    Disjoint ({ start := b.start, size := n } : Span).bytes (spanBytes (b.dropLow n)) := by
  apply disjoint_spanBytes.mpr
  intro c hc
  unfold Span.dropLow at hc
  split at hc
  · cases hc
  · cases List.mem_singleton.mp hc
    exact disjoint_of_le (Nat.le_refl _)

theorem dropHigh_disjoint (h : n ≤ b.size) :
    Disjoint ({ start := b.stop - n, size := n } : Span).bytes (spanBytes (b.dropHigh n)) := by
  apply disjoint_spanBytes.mpr
  intro c hc
  unfold Span.dropHigh at hc
  split at hc
  · cases hc
  · cases List.mem_singleton.mp hc
    apply Disjoint.symm
    apply disjoint_of_le
    unfold Span.stop
    dsimp only
    omega

/-!
## Spaced lists
-/

theorem spaced_nil : Spaced gap [] := ⟨by simp, List.Pairwise.nil⟩

theorem spaced_singleton (h : 0 < a.size) : Spaced gap [a] :=
  ⟨by simpa using h, List.pairwise_singleton _ a⟩

theorem spaced_append : Spaced gap (l₁ ++ l₂) ↔
    Spaced gap l₁ ∧ Spaced gap l₂ ∧ ∀ a ∈ l₁, ∀ b ∈ l₂, a.stop + gap ≤ b.start := by
  constructor
  · intro h
    rcases List.pairwise_append.mp h.ascending with ⟨h1, h2, h12⟩
    exact ⟨⟨fun a ha => h.size_pos a (List.mem_append_left l₂ ha), h1⟩,
      ⟨fun a ha => h.size_pos a (List.mem_append_right l₁ ha), h2⟩, h12⟩
  · intro h
    rcases h with ⟨h1, h2, h12⟩
    constructor
    · intro a ha
      cases List.mem_append.mp ha with
      | inl ha => exact h1.size_pos a ha
      | inr ha => exact h2.size_pos a ha
    · exact List.pairwise_append.mpr ⟨h1.ascending, h2.ascending, h12⟩

theorem spaced_cons : Spaced gap (a :: l) ↔
    0 < a.size ∧ Spaced gap l ∧ ∀ b ∈ l, a.stop + gap ≤ b.start := by
  have h : Spaced gap ([a] ++ l) ↔ _ := spaced_append
  constructor
  · intro ha
    rcases h.mp ha with ⟨h1, h2, h12⟩
    exact ⟨h1.size_pos a (by simp), h2, h12 a (by simp)⟩
  · intro ha
    rcases ha with ⟨hpos, h2, h12⟩
    apply h.mpr
    refine ⟨spaced_singleton hpos, h2, ?_⟩
    intro b hb
    cases List.mem_singleton.mp hb
    exact h12

theorem Spaced.of_append_left (h : Spaced gap (l₁ ++ l₂)) : Spaced gap l₁ :=
  (spaced_append.mp h).1

theorem Spaced.of_append_right (h : Spaced gap (l₁ ++ l₂)) : Spaced gap l₂ :=
  (spaced_append.mp h).2.1

theorem Spaced.mono {gap' : Nat} (h : Spaced gap l) (hle : gap' ≤ gap) : Spaced gap' l where
  size_pos := h.size_pos
  ascending := h.ascending.imp fun hab => by omega

/-- The starts of the ranges increase. -/
theorem Spaced.starts (h : Spaced gap l) : (l.map Span.start).Pairwise (· < ·) := by
  apply List.pairwise_map.mpr
  have hall : l.Pairwise fun a b => 0 < a.size ∧ a.stop + gap ≤ b.start :=
    h.ascending.imp_of_mem fun ha _ hab => ⟨h.size_pos _ ha, hab⟩
  apply hall.imp
  intro a b hab
  have hpos := hab.1
  have hle := hab.2
  unfold Span.stop at hle
  omega

theorem Spaced.starts_nodup (h : Spaced gap l) : (l.map Span.start).Nodup :=
  h.starts.imp Nat.ne_of_lt

/-- The ends of the ranges increase. -/
theorem Spaced.stops (h : Spaced gap l) : (l.map Span.stop).Pairwise (· < ·) := by
  apply List.pairwise_map.mpr
  have hall : l.Pairwise fun a b => 0 < b.size ∧ a.stop + gap ≤ b.start :=
    h.ascending.imp_of_mem fun _ hb hab => ⟨h.size_pos _ hb, hab⟩
  apply hall.imp
  intro a b hab
  have hpos := hab.1
  have hle := hab.2
  unfold Span.stop at *
  omega

theorem Spaced.eq_of_start (h : Spaced gap l) (ha : a ∈ l) (hb : b ∈ l)
    (he : a.start = b.start) : a = b :=
  List.inj_on_of_nodup_map h.starts_nodup ha hb he

theorem Spaced.eq_of_stop (h : Spaced gap l) (ha : a ∈ l) (hb : b ∈ l)
    (he : a.stop = b.stop) : a = b :=
  List.inj_on_of_nodup_map (h.stops.imp Nat.ne_of_lt) ha hb he

/-- Ranges that do not touch and make up one interval are one range. -/
theorem Spaced.eq_singleton {lo hi : Nat} (h : Spaced 1 l) (hlt : lo < hi)
    (hbytes : spanBytes l = Set.Ico lo hi) : l = [{ start := lo, size := hi - lo }] := by
  have hmem : ∀ x, (∃ b ∈ l, b.start ≤ x ∧ x < b.start + b.size) ↔ lo ≤ x ∧ x < hi :=
    Set.ext_iff.mp hbytes
  rcases (hmem lo).mpr ⟨Nat.le_refl lo, hlt⟩ with ⟨c, hc, hlow, -⟩
  cases l with
  | nil => cases hc
  | cons a rest =>
      rcases spaced_cons.mp h with ⟨hpos, hrest, hgap⟩
      unfold Span.stop at hgap
      have hfirst := (hmem a.start).mp ⟨a, List.mem_cons_self, by omega⟩
      have hlast := (hmem (a.start + a.size - 1)).mp ⟨a, List.mem_cons_self, by omega⟩
      -- nothing begins where the first range stops
      have hstop : hi ≤ a.start + a.size := by
        by_contra hle
        rcases (hmem (a.start + a.size)).mpr (by omega) with ⟨b, hb, hb'⟩
        rcases List.mem_cons.mp hb with rfl | hb
        · omega
        · have hnext := hgap b hb
          omega
      have hnone : rest = [] := by
        refine List.eq_nil_iff_forall_not_mem.mpr fun b hb => ?_
        have hnext := hgap b hb
        have hb' := (hmem b.start).mp ⟨b, List.mem_cons_of_mem a hb, Nat.le_refl _,
          Nat.lt_add_of_pos_right (hrest.size_pos b hb)⟩
        omega
      rw [hnone] at hc ⊢
      rcases List.mem_singleton.mp hc with rfl
      have hstart : c.start = lo := by omega
      have hsize : c.size = hi - lo := by omega
      rw [← hsize, ← hstart]

/-- A range shares nothing with the other ranges of its list. -/
theorem Spaced.disjoint (h : Spaced gap (l₁ ++ b :: l₂)) :
    Disjoint b.bytes (spanBytes (l₁ ++ l₂)) := by
  rcases spaced_append.mp h with ⟨_, h2, h12⟩
  rcases spaced_cons.mp h2 with ⟨_, _, hb⟩
  apply disjoint_spanBytes.mpr
  intro a ha
  cases List.mem_append.mp ha with
  | inl ha =>
      have hle := h12 a ha b (by simp)
      exact (disjoint_of_le (by omega)).symm
  | inr ha =>
      have hle := hb a ha
      exact disjoint_of_le (by omega)

/-- A range may be replaced by ranges inside it. -/
theorem Spaced.replace {m : List Span} (h : Spaced gap (l₁ ++ b :: l₂)) (hm : Spaced gap m)
    (hin : ∀ c ∈ m, b.start ≤ c.start ∧ c.stop ≤ b.stop) : Spaced gap (l₁ ++ m ++ l₂) := by
  rcases spaced_append.mp h with ⟨h1, h2, h12⟩
  rcases spaced_cons.mp h2 with ⟨_, h2, hb⟩
  rw [List.append_assoc]
  apply spaced_append.mpr
  refine ⟨h1, ?_, ?_⟩
  · apply spaced_append.mpr
    refine ⟨hm, h2, ?_⟩
    intro c hc a ha
    have hle := hb a ha
    have hstop := (hin c hc).2
    omega
  · intro a ha c hc
    cases List.mem_append.mp hc with
    | inl hc =>
        have hle := h12 a ha b (by simp)
        have hstart := (hin c hc).1
        omega
    | inr hc => exact h12 a ha c (List.mem_cons_of_mem b hc)

/-- There are fewer ranges than addresses. -/
theorem Spaced.length_le {lo hi : Nat} (h : Spaced gap l) (hlo : ∀ a ∈ l, lo ≤ a.start)
    (hhi : ∀ a ∈ l, a.stop ≤ hi) : l.length ≤ hi - lo := by
  induction l generalizing lo with
  | nil => exact Nat.zero_le _
  | cons a l ih =>
      rcases spaced_cons.mp h with ⟨hpos, hl, ha⟩
      have hrest := ih hl
        (fun b hb => show a.stop ≤ b.start by
          have hle := ha b hb
          omega)
        (fun b hb => hhi b (List.mem_cons_of_mem a hb))
      have hstart := hlo a (by simp)
      have hstop := hhi a (by simp)
      rw [List.length_cons]
      unfold Span.stop at *
      omega

/-!
## Counting addresses
-/

/-- How many addresses the ranges of a list have together. -/
def totalSize (l : List Span) : Nat := (l.map Span.size).sum

theorem bytes_finite : a.bytes.Finite := Set.finite_Ico _ _

theorem bytes_ncard : a.bytes.ncard = a.size := by
  have hcoe : a.bytes = (Finset.Ico a.start a.stop : Set Nat) := (Finset.coe_Ico _ _).symm
  rw [hcoe, Set.ncard_coe_finset, Nat.card_Ico]
  exact Nat.add_sub_cancel_left _ _

theorem spanBytes_finite : (spanBytes l).Finite := by
  induction l with
  | nil =>
      rw [spanBytes_nil]
      exact Set.finite_empty
  | cons a l ih =>
      rw [spanBytes_cons]
      exact bytes_finite.union ih

/-- Ranges that share nothing have as many addresses as their sizes say. -/
theorem Spaced.ncard_bytes (h : Spaced gap l) : (spanBytes l).ncard = totalSize l := by
  induction l with
  | nil => rw [spanBytes_nil, Set.ncard_empty]; rfl
  | cons a l ih =>
      have hapart : Disjoint a.bytes (spanBytes l) :=
        (show Spaced gap ([] ++ a :: l) from h).disjoint
      rcases spaced_cons.mp h with ⟨_, hl, _⟩
      rw [spanBytes_cons, Set.ncard_union_eq hapart bytes_finite spanBytes_finite, bytes_ncard,
        ih hl]
      rfl

/-- The sizes of a list that is shared out add up. -/
theorem Spaced.totalSize_eq {gap' : Nat} {l' : List Span} (h : Spaced gap l) (h' : Spaced gap' l')
    (hbytes : spanBytes l = a.bytes ∪ spanBytes l') (hapart : Disjoint a.bytes (spanBytes l')) :
    totalSize l = a.size + totalSize l' := by
  rw [← h.ncard_bytes, hbytes, Set.ncard_union_eq hapart bytes_finite spanBytes_finite,
    bytes_ncard, h'.ncard_bytes]

theorem Spaced.totalSize_le {lo hi : Nat} (h : Spaced gap l)
    (hin : spanBytes l ⊆ Set.Ico lo hi) : totalSize l ≤ hi - lo := by
  have hcoe : Set.Ico lo hi = (Finset.Ico lo hi : Set Nat) := (Finset.coe_Ico _ _).symm
  rw [← h.ncard_bytes, ← Nat.card_Ico, ← Set.ncard_coe_finset, ← hcoe]
  exact Set.ncard_le_ncard hin (Set.finite_Ico _ _)

/-!
## Taking a part of a range
-/

theorem dropLow_spaced (h : n ≤ b.size) : Spaced gap (b.dropLow n) := by
  unfold Span.dropLow
  split
  · exact spaced_nil
  · apply spaced_singleton
    dsimp only
    omega

theorem dropHigh_spaced (h : n ≤ b.size) : Spaced gap (b.dropHigh n) := by
  unfold Span.dropHigh
  split
  · exact spaced_nil
  · apply spaced_singleton
    dsimp only
    omega

theorem dropLow_within (h : n ≤ b.size) (c : Span) (hc : c ∈ b.dropLow n) :
    b.start ≤ c.start ∧ c.stop ≤ b.stop := by
  unfold Span.dropLow at hc
  split at hc
  · cases hc
  · cases List.mem_singleton.mp hc
    unfold Span.stop
    dsimp only
    omega

theorem dropHigh_within (c : Span) (hc : c ∈ b.dropHigh n) :
    b.start ≤ c.start ∧ c.stop ≤ b.stop := by
  unfold Span.dropHigh at hc
  split at hc
  · cases hc
  · cases List.mem_singleton.mp hc
    unfold Span.stop
    dsimp only
    omega

/-!
## Putting a range back
-/

/-- Join a range with the last of the ranges below it, if they touch. -/
def joinLow (l : List Span) (c : Span) : List Span × Span :=
  match l.getLast? with
  | some p => if p.stop = c.start then (l.dropLast, p.join c) else (l, c)
  | none => (l, c)

/-- Join a range with the first of the ranges above it, if they touch. -/
def joinHigh (c : Span) : List Span → Span × List Span
  | [] => (c, [])
  | q :: l => if c.stop = q.start then (c.join q, l) else (c, q :: l)

/-- Put a range between those below and those above it. -/
def putBack (l₁ : List Span) (c : Span) (l₂ : List Span) : List Span :=
  let low := joinLow l₁ c
  let high := joinHigh low.2 l₂
  low.1 ++ high.1 :: high.2

theorem joinLow_concat : joinLow (l ++ [a]) c =
    if a.stop = c.start then (l, a.join c) else (l ++ [a], c) := by
  unfold joinLow
  rw [List.getLast?_concat]
  dsimp only
  rw [List.dropLast_concat]

theorem join_stop (h : a.stop = c.start) : (a.join c).stop = c.stop := by
  unfold Span.join Span.stop at *
  dsimp only
  omega

theorem joinLow_stop : (joinLow l c).2.stop = c.stop := by
  cases List.eq_nil_or_concat' l with
  | inl h => rw [h]; rfl
  | inr h =>
      rcases h with ⟨k, a, rfl⟩
      rw [joinLow_concat]
      split
      · rename_i htouch
        exact join_stop htouch
      · rfl

theorem joinLow_bytes :
    spanBytes ((joinLow l c).1 ++ [(joinLow l c).2]) = spanBytes l ∪ c.bytes := by
  cases List.eq_nil_or_concat' l with
  | inl h =>
      rw [h, spanBytes_nil, Set.empty_union]
      exact spanBytes_singleton
  | inr h =>
      rcases h with ⟨k, a, rfl⟩
      rw [joinLow_concat]
      split
      · rename_i htouch
        rw [spanBytes_append, spanBytes_append, spanBytes_singleton, spanBytes_singleton,
          join_bytes htouch, Set.union_assoc]
      · rw [show k ++ [a] ++ [c] = (k ++ [a]) ++ [c] from rfl, spanBytes_append, spanBytes_singleton]

/-- Afterwards no range below touches it any more. -/
theorem joinLow_spaced (h : Spaced 1 l) (hc : 0 < c.size) (hle : ∀ a ∈ l, a.stop ≤ c.start) :
    Spaced 1 ((joinLow l c).1 ++ [(joinLow l c).2]) := by
  cases List.eq_nil_or_concat' l with
  | inl hnil =>
      rw [hnil]
      exact spaced_singleton hc
  | inr hk =>
      rcases hk with ⟨k, a, rfl⟩
      rcases spaced_append.mp h with ⟨hk, ha, hka⟩
      rw [joinLow_concat]
      split
      · apply spaced_append.mpr
        refine ⟨hk, ?_, ?_⟩
        · apply spaced_singleton
          exact Nat.add_pos_right _ hc
        · intro b hb d hd
          cases List.mem_singleton.mp hd
          exact hka b hb a (by simp)
      · rename_i hapart
        apply spaced_append.mpr
        refine ⟨h, spaced_singleton hc, ?_⟩
        intro b hb d hd
        cases List.mem_singleton.mp hd
        dsimp only
        cases List.mem_append.mp hb with
        | inl hb =>
            have hba := hka b hb a (by simp)
            have hac := hle a (by simp)
            unfold Span.stop at *
            omega
        | inr hb =>
            cases List.mem_singleton.mp hb
            have hac := hle a (by simp)
            omega

theorem joinHigh_cons : joinHigh c (a :: l) =
    if c.stop = a.start then (c.join a, l) else (c, a :: l) := rfl

theorem joinHigh_start : (joinHigh c l).1.start = c.start := by
  cases l with
  | nil => rfl
  | cons q l =>
      rw [joinHigh_cons]
      split <;> rfl

theorem joinHigh_bytes :
    spanBytes ((joinHigh c l).1 :: (joinHigh c l).2) = c.bytes ∪ spanBytes l := by
  cases l with
  | nil => exact spanBytes_cons
  | cons q l =>
      rw [joinHigh_cons]
      split
      · rename_i htouch
        rw [spanBytes_cons, spanBytes_cons, join_bytes htouch, Set.union_assoc]
      · exact spanBytes_cons

/-- Afterwards no range above touches it any more. -/
theorem joinHigh_spaced (h : Spaced 1 l) (hc : 0 < c.size) (hle : ∀ a ∈ l, c.stop ≤ a.start) :
    Spaced 1 ((joinHigh c l).1 :: (joinHigh c l).2) := by
  cases l with
  | nil => exact spaced_singleton hc
  | cons q l =>
      rcases spaced_cons.mp h with ⟨hq, hl, hql⟩
      rw [joinHigh_cons]
      split
      · rename_i htouch
        apply spaced_cons.mpr
        refine ⟨Nat.add_pos_left hc _, hl, ?_⟩
        intro b hb
        rw [join_stop htouch]
        exact hql b hb
      · rename_i hapart
        apply spaced_cons.mpr
        refine ⟨hc, h, ?_⟩
        intro b hb
        dsimp only at hb ⊢
        have hcq := hle q (by simp)
        cases List.mem_cons.mp hb with
        | inl hb =>
            rw [hb]
            omega
        | inr hb =>
            have hqb := hql b hb
            unfold Span.stop at *
            omega

/-- In between it may still touch the first of the ranges above. -/
theorem joinLow_spaced_append (h : Spaced 1 (l₁ ++ l₂)) (hc : 0 < c.size)
    (hlow : ∀ a ∈ l₁, a.stop ≤ c.start) (hhigh : ∀ a ∈ l₂, c.stop ≤ a.start) :
    Spaced 0 ((joinLow l₁ c).1 ++ (joinLow l₁ c).2 :: l₂) := by
  rcases spaced_append.mp (joinLow_spaced h.of_append_left hc hlow) with ⟨hl, hd, hld⟩
  have hpos := hd.size_pos _ (List.mem_singleton_self _)
  have hstop : ∀ a ∈ l₂, (joinLow l₁ c).2.stop ≤ a.start := by
    intro a ha
    rw [joinLow_stop]
    exact hhigh a ha
  apply spaced_append.mpr
  refine ⟨hl.mono (Nat.zero_le 1), ?_, ?_⟩
  · apply spaced_cons.mpr
    exact ⟨hpos, h.of_append_right.mono (Nat.zero_le 1), hstop⟩
  · intro a ha b hb
    have hfirst := hld a ha _ (List.mem_singleton_self _)
    cases List.mem_cons.mp hb with
    | inl hb =>
        rw [hb]
        omega
    | inr hb =>
        have hb := hstop b hb
        unfold Span.stop at *
        omega

theorem putBack_bytes :
    spanBytes (putBack l₁ c l₂) = spanBytes (l₁ ++ l₂) ∪ c.bytes := by
  unfold putBack
  dsimp only
  rw [spanBytes_append, joinHigh_bytes, ← Set.union_assoc, ← spanBytes_singleton,
    ← spanBytes_append, joinLow_bytes, spanBytes_append, Set.union_assoc, Set.union_assoc,
    Set.union_comm c.bytes]

theorem putBack_spaced (h : Spaced 1 (l₁ ++ l₂)) (hc : 0 < c.size)
    (hlow : ∀ a ∈ l₁, a.stop ≤ c.start) (hhigh : ∀ a ∈ l₂, c.stop ≤ a.start) :
    Spaced 1 (putBack l₁ c l₂) := by
  have h1 := joinLow_spaced h.of_append_left hc hlow
  rcases spaced_append.mp h1 with ⟨hl, hd, hld⟩
  have hpos := hd.size_pos _ (List.mem_singleton_self _)
  have h2 := joinHigh_spaced h.of_append_right hpos (by
    intro a ha
    rw [joinLow_stop]
    exact hhigh a ha)
  unfold putBack
  dsimp only
  apply spaced_append.mpr
  refine ⟨hl, h2, ?_⟩
  intro a ha b hb
  have hfirst := hld a ha _ (List.mem_singleton_self _)
  rcases spaced_cons.mp h2 with ⟨_, _, hrest⟩
  cases List.mem_cons.mp hb with
  | inl hb =>
      rw [hb, joinHigh_start]
      exact hfirst
  | inr hb =>
      have hb := hrest b hb
      rw [← joinHigh_start (l := l₂)] at hfirst
      unfold Span.stop at *
      omega

end

end BbbXinu
