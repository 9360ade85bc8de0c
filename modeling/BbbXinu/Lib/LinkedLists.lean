import BbbXinu.Lib.Table
import Mathlib.Data.List.Basic

/-!
# Families of doubly linked lists in one link table

A link table holds one forward and one backward link per index.  Several lists
live in the table at once.  Each has a head sentinel, a tail sentinel and inner
nodes that no other list uses.  This module gives the segment predicate, the
family predicate, and the effect of the three splices on both: inserting a free
node, removing a node, and moving all nodes of one list to another.

Nothing here depends on a particular program.
-/

namespace BbbXinu
namespace LinkedLists

variable {ι : Type} [DecidableEq ι]

/-!
## Segments
-/

/-- The links run from {lit}`a` through {lit}`l` to {lit}`b`, and back again. -/
def Seg (nx pv : ι → ι) : ι → List ι → ι → Prop
  | a, [], b => nx a = b ∧ pv b = a
  | a, x :: l, b => nx a = x ∧ pv x = a ∧ Seg nx pv x l b

/-- First element of a list, or the end that stands behind it. -/
def headOr (b : ι) : List ι → ι
  | [] => b
  | x :: _ => x

/-- Last element of a list, or the end that stands before it. -/
def lastOr (a : ι) : List ι → ι
  | [] => a
  | x :: l => lastOr x l

omit [DecidableEq ι] in
@[simp] theorem headOr_nil (b : ι) : headOr b [] = b := rfl

omit [DecidableEq ι] in
@[simp] theorem headOr_cons (b x : ι) (l : List ι) :
    headOr b (x :: l) = x := rfl

omit [DecidableEq ι] in
@[simp] theorem lastOr_nil (a : ι) : lastOr a [] = a := rfl

omit [DecidableEq ι] in
@[simp] theorem lastOr_cons (a x : ι) (l : List ι) :
    lastOr a (x :: l) = lastOr x l := rfl

omit [DecidableEq ι] in
theorem headOr_mem (b : ι) (l : List ι) : headOr b l ∈ l ++ [b] := by
  cases l with
  | nil => simp
  | cons x l => simp

omit [DecidableEq ι] in
theorem lastOr_mem (a : ι) (l : List ι) : lastOr a l ∈ a :: l := by
  induction l generalizing a with
  | nil => simp
  | cons x l ih =>
      rw [lastOr_cons]
      exact List.mem_cons_of_mem a (ih x)

omit [DecidableEq ι] in
theorem lastOr_append_singleton (a x : ι) (l : List ι) :
    lastOr a (l ++ [x]) = x := by
  induction l generalizing a with
  | nil => rfl
  | cons y l ih => exact ih y

section Segments

variable {nx pv nx' pv' : ι → ι} {a b x : ι} {l l₁ l₂ m m' : List ι}

omit [DecidableEq ι] in
theorem seg_append :
    Seg nx pv a (l₁ ++ x :: l₂) b ↔ Seg nx pv a l₁ x ∧ Seg nx pv x l₂ b := by
  induction l₁ generalizing a with
  | nil => simp [Seg, and_assoc]
  | cons y l₁ ih => simp [Seg, ih, and_assoc]

omit [DecidableEq ι] in
/-- Seen from its end, a segment runs the other way. -/
theorem Seg.reverse (h : Seg nx pv a l b) : Seg pv nx b l.reverse a := by
  induction l generalizing a with
  | nil => exact ⟨h.2, h.1⟩
  | cons x l ih =>
      rcases h with ⟨h1, h2, h3⟩
      rw [List.reverse_cons]
      exact seg_append.mpr ⟨ih h3, h2, h1⟩

omit [DecidableEq ι] in
/-- A segment only reads the forward links of its start and nodes and the
backward links of its nodes and end. -/
theorem Seg.congr (h : Seg nx pv a l b)
    (hnx : ∀ y ∈ a :: l, nx' y = nx y) (hpv : ∀ y ∈ l ++ [b], pv' y = pv y) :
    Seg nx' pv' a l b := by
  induction l generalizing a with
  | nil =>
      rcases h with ⟨h1, h2⟩
      exact ⟨by rw [hnx a (by simp), h1], by rw [hpv b (by simp), h2]⟩
  | cons y l ih =>
      rcases h with ⟨h1, h2, h3⟩
      refine ⟨by rw [hnx a (by simp), h1], by rw [hpv y (by simp), h2], ?_⟩
      apply ih h3
      · intro z hz
        exact hnx z (List.mem_cons_of_mem a hz)
      · intro z hz
        exact hpv z (by simpa using Or.inr (by simpa using hz))

omit [DecidableEq ι] in
theorem Seg.next_eq_headOr (h : Seg nx pv a l b) : nx a = headOr b l := by
  cases l with
  | nil => exact h.1
  | cons y l => exact h.1

omit [DecidableEq ι] in
theorem Seg.prev_eq_lastOr (h : Seg nx pv a l b) : pv b = lastOr a l := by
  induction l generalizing a with
  | nil => exact h.2
  | cons y l ih => exact ih h.2.2

omit [DecidableEq ι] in
/-- Forward links are undone by backward links. -/
theorem Seg.prev_next (h : Seg nx pv a l b) {x : ι} (hx : x ∈ a :: l) : pv (nx x) = x := by
  induction l generalizing a with
  | nil =>
      rw [List.mem_singleton.mp hx, h.1]
      exact h.2
  | cons y l ih =>
      rcases List.mem_cons.mp hx with hx | hx
      · rw [hx, h.1]
        exact h.2.1
      · exact ih h.2.2 hx

omit [DecidableEq ι] in
/-- Backward links are undone by forward links. -/
theorem Seg.next_prev (h : Seg nx pv a l b) {x : ι} (hx : x ∈ l ++ [b]) : nx (pv x) = x := by
  induction l generalizing a with
  | nil =>
      rw [List.mem_singleton.mp hx, h.2]
      exact h.1
  | cons y l ih =>
      rcases List.mem_cons.mp hx with hx | hx
      · rw [hx, h.2.1]
        exact h.1
      · exact ih h.2.2 hx

omit [DecidableEq ι] in
/-- The two indices that face each other where a segment is cut. -/
theorem Seg.boundary (h : Seg nx pv a (l₁ ++ l₂) b) :
    nx (lastOr a l₁) = headOr b l₂ ∧ pv (headOr b l₂) = lastOr a l₁ := by
  induction l₁ generalizing a with
  | nil =>
      cases l₂ with
      | nil => exact h
      | cons y l => exact ⟨h.1, h.2.1⟩
  | cons y l ih => exact ih h.2.2

omit [DecidableEq ι] in
/-- Two segments that leave the same place and end outside of the nodes are one. -/
theorem Seg.unique {node : ι → Prop} {c : ι} (h : Seg nx pv a l b) (h' : Seg nx pv a m c)
    (hl : ∀ y ∈ l, node y) (hm : ∀ y ∈ m, node y) (hb : ¬ node b) (hc : ¬ node c) :
    l = m ∧ b = c := by
  have hnext := h.next_eq_headOr.symm.trans h'.next_eq_headOr
  induction l generalizing a m with
  | nil =>
      cases m with
      | nil => exact ⟨rfl, hnext⟩
      | cons y m =>
          rw [headOr_nil, headOr_cons] at hnext
          exact absurd (hm y (by simp)) (hnext ▸ hb)
  | cons x l ih =>
      cases m with
      | nil =>
          rw [headOr_nil, headOr_cons] at hnext
          exact absurd (hl x (by simp)) (hnext ▸ hc)
      | cons y m =>
          rw [headOr_cons, headOr_cons] at hnext
          subst hnext
          have hrest := h.2.2.next_eq_headOr.symm.trans h'.2.2.next_eq_headOr
          rcases ih h.2.2 h'.2.2 (fun z hz => hl z (by simp [hz]))
            (fun z hz => hm z (by simp [hz])) hrest with ⟨rfl, rfl⟩
          exact ⟨rfl, rfl⟩

omit [DecidableEq ι] in
/-- Any part of a segment may be replaced when the links of the rest stay. -/
theorem Seg.splice (h : Seg nx pv a (l₁ ++ m ++ l₂) b)
    (hnd₁ : (a :: l₁).Nodup) (hnd₂ : (l₂ ++ [b]).Nodup)
    (hnx₁ : ∀ y ∈ a :: l₁, y ≠ lastOr a l₁ → nx' y = nx y) (hpv₁ : ∀ y ∈ l₁, pv' y = pv y)
    (hnx₂ : ∀ y ∈ l₂, nx' y = nx y)
    (hpv₂ : ∀ y ∈ l₂ ++ [b], y ≠ headOr b l₂ → pv' y = pv y)
    (hmid : Seg nx' pv' (lastOr a l₁) m' (headOr b l₂)) :
    Seg nx' pv' a (l₁ ++ m' ++ l₂) b := by
  induction l₁ generalizing a with
  | nil =>
      cases l₂ with
      | nil =>
          rw [List.append_nil]
          exact hmid
      | cons z l₂ =>
          have hz := (List.nodup_cons.mp hnd₂).1
          have hrest := (seg_append.mp h).2
          apply seg_append.mpr
          constructor
          · exact hmid
          · apply hrest.congr hnx₂
            intro y hy
            apply hpv₂ y (List.mem_cons_of_mem z hy)
            intro hyz
            have he : y = z := hyz
            exact hz (he ▸ hy)
  | cons x l₁ ih =>
      have hlast := (List.nodup_cons.mp hnd₁).1
      have ha : a ≠ lastOr x l₁ := fun he => hlast (he ▸ lastOr_mem x l₁)
      rcases h with ⟨h1, h2, h3⟩
      refine ⟨?_, ?_, ?_⟩
      · rw [hnx₁ a (by simp) ha, h1]
      · rw [hpv₁ x (by simp), h2]
      · apply ih h3 (List.nodup_cons.mp hnd₁).2
        · exact fun y hy => hnx₁ y (List.mem_cons_of_mem a hy)
        · exact fun y hy => hpv₁ y (List.mem_cons_of_mem x hy)
        · exact hmid

omit [DecidableEq ι] in
/-- The same in a ring, where only the links of the two parts and of the
neighbours may change. -/
theorem Seg.splice_ring (h : Seg nx pv a (l₁ ++ m ++ l₂) a)
    (hnd : (a :: (l₁ ++ m ++ l₂)).Nodup) (hnd' : (a :: (l₁ ++ m' ++ l₂)).Nodup)
    (hnx : ∀ y, y ≠ lastOr a l₁ → y ∉ m → y ∉ m' → nx' y = nx y)
    (hpv : ∀ y, y ≠ headOr a l₂ → y ∉ m → y ∉ m' → pv' y = pv y)
    (hmid : Seg nx' pv' (lastOr a l₁) m' (headOr a l₂)) :
    Seg nx' pv' a (l₁ ++ m' ++ l₂) a := by
  have hlast := lastOr_mem a l₁
  have hhead := headOr_mem a l₂
  have hout : ∀ y ∈ a :: (l₁ ++ l₂), y ∉ m ∧ y ∉ m' := by grind
  have hcross : ∀ y ∈ l₁, y ≠ a ∧ y ∉ l₂ := by grind
  have hnd₂ : (l₂ ++ [a]).Nodup := by grind
  apply h.splice (by grind) hnd₂
  · intro y hy hne
    have hy' := hout y (by grind)
    exact hnx y hne hy'.1 hy'.2
  · intro y hy
    have hy' := hout y (by grind)
    exact hpv y (by grind) hy'.1 hy'.2
  · intro y hy
    have hy' := hout y (by grind)
    exact hnx y (by grind) hy'.1 hy'.2
  · intro y hy hne
    have hy' := hout y (by grind)
    exact hpv y hne hy'.1 hy'.2
  · exact hmid

/-- Linking a fresh node between two parts of a segment. -/
theorem Seg.insert (h : Seg nx pv a (l₁ ++ l₂) b)
    (hnd : (a :: (l₁ ++ l₂ ++ [b])).Nodup) (hx : x ∉ a :: (l₁ ++ l₂ ++ [b])) :
    Seg (upd (upd nx x (headOr b l₂)) (lastOr a l₁) x)
      (upd (upd pv x (lastOr a l₁)) (headOr b l₂) x)
      a (l₁ ++ x :: l₂) b := by
  induction l₁ generalizing a with
  | nil =>
      have hxa : x ≠ a := by grind
      have hmem := headOr_mem b l₂
      have hne : x ≠ headOr b l₂ := by grind
      refine ⟨by simp, by simp [upd_of_ne hne], ?_⟩
      cases l₂ with
      | nil => simp [Seg, upd_of_ne hxa]
      | cons y l =>
          rcases h with ⟨_, _, h3⟩
          refine ⟨by simp [upd_of_ne hxa], by simp, ?_⟩
          apply Seg.congr h3
          · intro z hz
            have hza : z ≠ a := by grind
            have hzx : z ≠ x := by grind
            simp [upd_of_ne hza, upd_of_ne hzx]
          · intro z hz
            have hzx : z ≠ x := by grind
            have hzy : z ≠ y := by grind
            simp [upd_of_ne hzx, upd_of_ne hzy]
  | cons y l ih =>
      rcases h with ⟨h1, h2, h3⟩
      have hrec := ih (a := y) h3 (by grind) (by grind)
      have hlast := lastOr_mem y l
      have hhead := headOr_mem b l₂
      have hane : a ≠ lastOr y l := by grind
      have hax : a ≠ x := by grind
      have hyx : y ≠ x := by grind
      have hyh : y ≠ headOr b l₂ := by grind
      refine ⟨?_, ?_, hrec⟩
      · simpa [upd_of_ne hane, upd_of_ne hax] using h1
      · simpa [upd_of_ne hyh, upd_of_ne hyx] using h2

/-- Bypassing the node between two segments joins them. -/
theorem Seg.remove (h : Seg nx pv a (l₁ ++ x :: l₂) b)
    (hnd : (a :: (l₁ ++ x :: l₂ ++ [b])).Nodup) :
    Seg (upd nx (pv x) (nx x)) (upd pv (nx x) (pv x)) a (l₁ ++ l₂) b := by
  induction l₁ generalizing a with
  | nil =>
      rcases h with ⟨h1, h2, h3⟩
      have hnx := h3.next_eq_headOr
      rw [h2, hnx]
      cases l₂ with
      | nil => exact ⟨by simp, by simp⟩
      | cons y l =>
          rcases h3 with ⟨_, _, h6⟩
          refine ⟨by simp, by simp, ?_⟩
          apply Seg.congr h6
          · intro z hz
            have hza : z ≠ a := by grind
            simp [upd_of_ne hza]
          · intro z hz
            have hzy : z ≠ y := by grind
            simp [upd_of_ne hzy]
  | cons y l ih =>
      rcases h with ⟨h1, h2, h3⟩
      have hrec := ih (a := y) h3 (by grind)
      rcases seg_append.mp h3 with ⟨h4, h5⟩
      have hpx := h4.prev_eq_lastOr
      have hnx := h5.next_eq_headOr
      have hlast := lastOr_mem y l
      have hhead := headOr_mem b l₂
      have hane : a ≠ pv x := by grind
      have hyh : y ≠ nx x := by grind
      refine ⟨?_, ?_, hrec⟩
      · simpa [upd_of_ne hane] using h1
      · simpa [upd_of_ne hyh] using h2

omit [DecidableEq ι] in
/-- Redirecting both ends of a nonempty segment carries its nodes over. -/
theorem Seg.move {c d : ι} (h : Seg nx pv a l b) (hne : l ≠ [])
    (hc : c ∉ l) (hd : d ∉ l) (hnd : l.Nodup) (ha : a ∉ l) (hb : b ∉ l)
    (hnx : ∀ y, y ≠ c → y ∉ [lastOr a l, a] → nx' y = nx y)
    (hpv : ∀ y, y ≠ d → y ∉ [headOr b l, b] → pv' y = pv y)
    (h1 : nx' c = headOr b l) (h2 : pv' (headOr b l) = c)
    (h3 : pv' d = lastOr a l) (h4 : nx' (lastOr a l) = d) :
    Seg nx' pv' c l d := by
  cases l with
  | nil => exact absurd rfl hne
  | cons x l =>
      rcases h with ⟨_, _, h5⟩
      refine ⟨h1, h2, ?_⟩
      clear hne
      have hinner : ∀ (y : ι) (m : List ι), Seg nx pv y m b →
          (y :: m).Nodup → (∀ z ∈ y :: m, z ∈ x :: l) → lastOr y m = lastOr a (x :: l) →
          x ∉ m → Seg nx' pv' y m d := by
        intro y m
        induction m generalizing y with
        | nil =>
            intro _ _ _ hlast _
            rw [lastOr_nil] at hlast
            rw [hlast]
            exact ⟨h4, h3⟩
        | cons z m ih =>
            intro hs hn hsub hlast hxm
            rcases hs with ⟨g1, g2, g3⟩
            have hy : y ∈ x :: l := hsub y (by simp)
            have hz : z ∈ x :: l := hsub z (by simp)
            have hylast : y ≠ lastOr a (x :: l) := by
              rw [← hlast]
              intro he
              rw [lastOr_cons] at he
              have hm := lastOr_mem z m
              rw [← he] at hm
              exact (List.nodup_cons.mp hn).1 hm
            refine ⟨?_, ?_, ?_⟩
            · rw [hnx y (by rintro rfl; exact hc hy), g1]
              simp only [List.mem_cons, List.not_mem_nil, or_false, not_or]
              exact ⟨hylast, by rintro rfl; exact ha hy⟩
            · rw [hpv z (by rintro rfl; exact hd hz), g2]
              simp only [List.mem_cons, List.not_mem_nil, or_false, not_or, headOr_cons]
              exact ⟨by rintro rfl; exact hxm (by simp), by rintro rfl; exact hb hz⟩
            · exact ih z g3 (List.nodup_cons.mp hn).2
                (fun w hw => hsub w (List.mem_cons_of_mem y hw)) hlast
                (fun hw => hxm (List.mem_cons_of_mem z hw))
      exact hinner x l h5 hnd (fun z hz => hz) rfl (List.nodup_cons.mp hnd).1

end Segments

/-!
## Families

A layout separates the sentinels from the nodes.  A family gives, for each head
sentinel, the list of nodes between it and its tail sentinel.
-/

/-- Sentinels are not nodes, and no sentinel serves twice. -/
structure Layout (tail : ι → ι) (head node : ι → Prop) : Prop where
  head_not_node : ∀ {q}, head q → ¬ node q
  tail_not_node : ∀ {q}, head q → ¬ node (tail q)
  tail_not_head : ∀ {q r}, head q → head r → tail q ≠ r
  tail_inj : ∀ {q r}, head q → head r → tail q = tail r → q = r

/-- The lists {lit}`L` live side by side in the links {lit}`nx` and {lit}`pv`. -/
structure Family (nx pv : ι → ι) (tail : ι → ι) (head node : ι → Prop)
    (L : ι → List ι) : Prop where
  seg : ∀ {q}, head q → Seg nx pv q (L q) (tail q)
  node : ∀ {q x}, head q → x ∈ L q → node x
  nodup : ∀ {q}, head q → (L q).Nodup
  disjoint : ∀ {q r x}, head q → head r → x ∈ L q → x ∈ L r → q = r

namespace Family

variable {nx pv nx' pv' tail : ι → ι} {head node : ι → Prop} {L : ι → List ι}
  {q r x : ι} {l₁ l₂ : List ι}

omit [DecidableEq ι] in
theorem ring_nodup (hF : Family nx pv tail head node L)
    (hl : Layout tail head node) (hq : head q) :
    (q :: (L q ++ [tail q])).Nodup := by
  have hqt := hl.tail_not_head hq hq
  have hqn : q ∉ L q := fun hm => hl.head_not_node hq (hF.node hq hm)
  have htn : tail q ∉ L q := fun hm => hl.tail_not_node hq (hF.node hq hm)
  have hnd := hF.nodup hq
  grind

omit [DecidableEq ι] in
theorem next_head (hF : Family nx pv tail head node L) (hq : head q) :
    nx q = headOr (tail q) (L q) :=
  (hF.seg hq).next_eq_headOr

omit [DecidableEq ι] in
theorem prev_tail (hF : Family nx pv tail head node L) (hq : head q) :
    pv (tail q) = lastOr q (L q) :=
  (hF.seg hq).prev_eq_lastOr

omit [DecidableEq ι] in
/-- The neighbours of a node, read off its list. -/
theorem neighbours (hF : Family nx pv tail head node L) (hq : head q)
    (hsplit : L q = l₁ ++ x :: l₂) :
    pv x = lastOr q l₁ ∧ nx x = headOr (tail q) l₂ := by
  have hs := hF.seg hq
  rw [hsplit] at hs
  rcases seg_append.mp hs with ⟨h1, h2⟩
  exact ⟨h1.prev_eq_lastOr, h2.next_eq_headOr⟩

omit [DecidableEq ι] in
/-- Links of indices outside every ring are irrelevant. -/
theorem congr (hF : Family nx pv tail head node L)
    (hnx : ∀ q y, head q → y ∈ q :: L q → nx' y = nx y)
    (hpv : ∀ q y, head q → y ∈ L q ++ [tail q] → pv' y = pv y) :
    Family nx' pv' tail head node L where
  seg := fun {q} hq => (hF.seg hq).congr (hnx q · hq) (hpv q · hq)
  node := hF.node
  nodup := hF.nodup
  disjoint := hF.disjoint

omit [DecidableEq ι] in
/-- Two lists of a family have no index in common, their sentinels included. -/
theorem rings_apart (hF : Family nx pv tail head node L) (hl : Layout tail head node)
    (hq : head q) (hr : head r) (hne : r ≠ q) :
    ∀ y ∈ r :: (L r ++ [tail r]), y ∉ q :: (L q ++ [tail q]) := by
  have hdis : ∀ y ∈ L q, y ∉ L r := fun y h1 h2 => hne (hF.disjoint hr hq h2 h1)
  have htt : tail r ≠ tail q := fun he => hne (hl.tail_inj hr hq he)
  have hrt : tail q ≠ r := hl.tail_not_head hq hr
  have htr : tail r ≠ q := hl.tail_not_head hr hq
  have hqL : q ∉ L r ∧ tail q ∉ L r :=
    ⟨fun hm => hl.head_not_node hq (hF.node hr hm), fun hm => hl.tail_not_node hq (hF.node hr hm)⟩
  have hrL : r ∉ L q ∧ tail r ∉ L q :=
    ⟨fun hm => hl.head_not_node hr (hF.node hq hm), fun hm => hl.tail_not_node hr (hF.node hq hm)⟩
  grind

omit [DecidableEq ι] in
/-- Changes within one list are nothing to another list. -/
theorem seg_other (hF : Family nx pv tail head node L) (hl : Layout tail head node)
    (hq : head q) (hr : head r) (hne : r ≠ q)
    (hnx : ∀ y ∈ r :: L r, y ∉ q :: (L q ++ [tail q]) → nx' y = nx y)
    (hpv : ∀ y ∈ L r ++ [tail r], y ∉ q :: (L q ++ [tail q]) → pv' y = pv y) :
    Seg nx' pv' r (L r) (tail r) := by
  have hapart := hF.rings_apart hl hq hr hne
  apply (hF.seg hr).congr
  · intro y hy
    exact hnx y hy (hapart y (List.mem_append_left [tail r] hy))
  · intro y hy
    exact hpv y hy (hapart y (List.mem_cons_of_mem r hy))

/-- One list is replaced by another whose nodes are on no other list. -/
theorem replace {l : List ι} (hF : Family nx pv tail head node L) (hq : head q)
    (hseg : Seg nx' pv' q l (tail q))
    (hrest : ∀ r, head r → r ≠ q → Seg nx' pv' r (L r) (tail r))
    (hnode : ∀ y ∈ l, node y) (hnd : l.Nodup)
    (hfree : ∀ y ∈ l, ∀ r, head r → r ≠ q → y ∉ L r) :
    Family nx' pv' tail head node (upd L q l) where
  seg := by
    intro r hr
    by_cases hrq : r = q
    · subst hrq
      rw [upd_self]
      exact hseg
    · rw [upd_of_ne hrq]
      exact hrest r hr hrq
  node := by
    intro r y hr hy
    by_cases hrq : r = q
    · subst hrq
      rw [upd_self] at hy
      exact hnode y hy
    · rw [upd_of_ne hrq] at hy
      exact hF.node hr hy
  nodup := by
    intro r hr
    by_cases hrq : r = q
    · subst hrq
      rw [upd_self]
      exact hnd
    · rw [upd_of_ne hrq]
      exact hF.nodup hr
  disjoint := by
    intro r r' y hr hr' hy hy'
    by_cases hrq : r = q
    · subst hrq
      by_cases hrq' : r' = r
      · exact hrq'.symm
      · rw [upd_self] at hy
        rw [upd_of_ne hrq'] at hy'
        exact absurd hy' (hfree y hy r' hr' hrq')
    · rw [upd_of_ne hrq] at hy
      by_cases hrq' : r' = q
      · subst hrq'
        rw [upd_self] at hy'
        exact absurd hy (hfree y hy' r hr hrq)
      · rw [upd_of_ne hrq'] at hy'
        exact hF.disjoint hr hr' hy hy'

/-- Inserting a free node into one list leaves all others alone. -/
theorem insert (hF : Family nx pv tail head node L)
    (hl : Layout tail head node) (hq : head q) (hx : node x)
    (hfree : ∀ r, head r → x ∉ L r) (hsplit : L q = l₁ ++ l₂) :
    Family (upd (upd nx x (headOr (tail q) l₂)) (lastOr q l₁) x)
      (upd (upd pv x (lastOr q l₁)) (headOr (tail q) l₂) x)
      tail head node (upd L q (l₁ ++ x :: l₂)) := by
  have hring := hF.ring_nodup hl hq
  have hlast := lastOr_mem q l₁
  have hhead := headOr_mem (tail q) l₂
  have hends : ∀ r, head r → x ≠ r ∧ x ≠ tail r := fun r hr =>
    ⟨fun he => hl.head_not_node hr (he ▸ hx), fun he => hl.tail_not_node hr (he ▸ hx)⟩
  have hmem : ∀ y ∈ l₁ ++ x :: l₂, y = x ∨ y ∈ L q := by grind
  apply hF.replace hq
  · have hxq := hends q hq
    have hxL := hfree q hq
    have hs := hF.seg hq
    rw [hsplit] at hs hring hxL
    exact hs.insert hring (by grind)
  · intro r hr hrq
    have hxr := hends r hr
    have hxL := hfree r hr
    apply hF.seg_other hl hq hr hrq
    · intro y hy hring'
      have hyl : y ≠ lastOr q l₁ := by grind
      have hyx : y ≠ x := by grind
      rw [upd_of_ne hyl, upd_of_ne hyx]
    · intro y hy hring'
      have hyh : y ≠ headOr (tail q) l₂ := by grind
      have hyx : y ≠ x := by grind
      rw [upd_of_ne hyh, upd_of_ne hyx]
  · intro y hy
    rcases hmem y hy with he | hm
    · exact he ▸ hx
    · exact hF.node hq hm
  · have hnd := hF.nodup hq
    have hxL := hfree q hq
    grind
  · intro y hy r hr hrq hm
    rcases hmem y hy with he | hm'
    · exact hfree r hr (he ▸ hm)
    · exact hrq (hF.disjoint hr hq hm hm')

/-- Unlinking a node takes it off its list and leaves all others alone. -/
theorem remove (hF : Family nx pv tail head node L)
    (hl : Layout tail head node) (hq : head q) (hsplit : L q = l₁ ++ x :: l₂) :
    Family (upd nx (pv x) (nx x)) (upd pv (nx x) (pv x))
      tail head node (upd L q (l₁ ++ l₂)) := by
  have hring := hF.ring_nodup hl hq
  rcases hF.neighbours hq hsplit with ⟨hpx, hnx⟩
  have hlast := lastOr_mem q l₁
  have hhead := headOr_mem (tail q) l₂
  have hsub : ∀ y ∈ l₁ ++ l₂, y ∈ L q := by grind
  apply hF.replace hq
  · have hs := hF.seg hq
    rw [hsplit] at hs hring
    exact hs.remove hring
  · intro r hr hrq
    apply hF.seg_other hl hq hr hrq
    · intro y _ hring'
      have hyl : y ≠ pv x := by grind
      rw [upd_of_ne hyl]
    · intro y _ hring'
      have hyh : y ≠ nx x := by grind
      rw [upd_of_ne hyh]
  · exact fun y hy => hF.node hq (hsub y hy)
  · have hnd := hF.nodup hq
    grind
  · exact fun y hy r hr hrq hm => hrq (hF.disjoint hr hq hm (hsub y hy))

/-- Pointing an empty list's sentinels at another list's ends, and closing the
other list, carries all nodes over in order. -/
theorem move (hF : Family nx pv tail head node L)
    (hl : Layout tail head node) {src dst : ι} (hs : head src) (hd : head dst)
    (hne : src ≠ dst) (hsrc : L src ≠ []) (hdst : L dst = []) :
    Family
      (upd (upd (upd nx src (tail src)) dst (nx src))
        (pv (tail src)) (tail dst))
      (upd (upd (upd pv (tail src) src) (nx src) dst)
        (tail dst) (pv (tail src)))
      tail head node (upd (upd L dst (L src)) src []) := by
  rw [hF.next_head hs, hF.prev_tail hs]
  have hfirst : headOr (tail src) (L src) ∈ L src := by
    cases hL : L src with
    | nil => exact absurd hL hsrc
    | cons y l => simp
  have hlast : lastOr src (L src) ∈ L src := by
    cases hL : L src with
    | nil => exact absurd hL hsrc
    | cons y l => exact lastOr_mem y l
  have hns : ∀ y ∈ L src, node y := fun y hy => hF.node hs hy
  have hsrcn : src ∉ L src := fun hm => hl.head_not_node hs (hns _ hm)
  have hdstn : dst ∉ L src := fun hm => hl.head_not_node hd (hns _ hm)
  have htsrcn : tail src ∉ L src := fun hm => hl.tail_not_node hs (hns _ hm)
  have htdstn : tail dst ∉ L src := fun hm => hl.tail_not_node hd (hns _ hm)
  have htt : tail src ≠ tail dst := fun he => hne (hl.tail_inj hs hd he)
  have hlists : ∀ r, r ≠ src → r ≠ dst →
      upd (upd L dst (L src)) src [] r = L r := by
    intro r h1 h2
    rw [upd_of_ne h1, upd_of_ne h2]
  have hatdst : upd (upd L dst (L src)) src [] dst = L src := by
    rw [upd_of_ne (Ne.symm hne), upd_self]
  generalize hgf : headOr (tail src) (L src) = first at *
  generalize hgl : lastOr src (L src) = last at *
  refine ⟨?_, ?_, ?_, ?_⟩
  · intro r hr
    by_cases hrs : r = src
    · subst hrs
      rw [upd_self]
      refine ⟨?_, ?_⟩
      · have h1 : r ≠ last := by grind
        rw [upd_of_ne h1, upd_of_ne hne, upd_self]
      · have h1 : tail r ≠ first := by grind
        rw [upd_of_ne htt, upd_of_ne h1, upd_self]
    · by_cases hrd : r = dst
      · subst hrd
        rw [hatdst]
        have hseg := hF.seg hs
        apply Seg.move hseg hsrc hdstn htdstn (hF.nodup hs) hsrcn htsrcn
        · intro y h1 h2
          have h3 : y ≠ last := by grind
          have h4 : y ≠ src := by grind
          rw [upd_of_ne h3, upd_of_ne h1, upd_of_ne h4]
        · intro y h1 h2
          have h3 : y ≠ first := by grind
          have h4 : y ≠ tail src := by grind
          rw [upd_of_ne h1, upd_of_ne h3, upd_of_ne h4]
        · have h1 : r ≠ last := by grind
          rw [upd_of_ne h1, upd_self, hgf]
        · rw [hgf]
          have h1 : first ≠ tail r := by grind
          rw [upd_of_ne h1, upd_self]
        · rw [upd_self, hgl]
        · rw [hgl, upd_self]
      · rw [hlists r hrs hrd]
        have hapart := hF.rings_apart hl hs hr hrs
        have hapart' := hF.rings_apart hl hd hr hrd
        apply (hF.seg hr).congr
        · intro y hy
          have hy₁ := hapart y (List.mem_append_left [tail r] hy)
          have hy₂ := hapart' y (List.mem_append_left [tail r] hy)
          have h4 : y ≠ last := by grind
          have h5 : y ≠ dst := by grind
          have h6 : y ≠ src := by grind
          rw [upd_of_ne h4, upd_of_ne h5, upd_of_ne h6]
        · intro y hy
          have hy₁ := hapart y (List.mem_cons_of_mem r hy)
          have hy₂ := hapart' y (List.mem_cons_of_mem r hy)
          have h4 : y ≠ tail dst := by grind
          have h5 : y ≠ first := by grind
          have h6 : y ≠ tail src := by grind
          rw [upd_of_ne h4, upd_of_ne h5, upd_of_ne h6]
  · intro r y hr hy
    by_cases hrs : r = src
    · subst hrs
      rw [upd_self] at hy
      exact absurd hy List.not_mem_nil
    · by_cases hrd : r = dst
      · subst hrd
        rw [hatdst] at hy
        exact hns y hy
      · rw [hlists r hrs hrd] at hy
        exact hF.node hr hy
  · intro r hr
    by_cases hrs : r = src
    · subst hrs
      rw [upd_self]
      exact List.nodup_nil
    · by_cases hrd : r = dst
      · subst hrd
        rw [hatdst]
        exact hF.nodup hs
      · rw [hlists r hrs hrd]
        exact hF.nodup hr
  · -- every nonempty list of the new family is an old list under a new name
    have hold : ∀ r y, y ∈ upd (upd L dst (L src)) src [] r →
        r ≠ src ∧ y ∈ L (if r = dst then src else r) := by
      intro r y hy
      by_cases hrs : r = src
      · subst hrs
        rw [upd_self] at hy
        exact absurd hy List.not_mem_nil
      · by_cases hrd : r = dst
        · subst hrd
          rw [hatdst] at hy
          exact ⟨hrs, by simpa using hy⟩
        · rw [hlists r hrs hrd] at hy
          exact ⟨hrs, by simpa [hrd] using hy⟩
    intro r r' y hr hr' hy hy'
    rcases hold r y hy with ⟨h1, h2⟩
    rcases hold r' y hy' with ⟨h3, h4⟩
    have hd' : ∀ {a b}, head a → head b → y ∈ L a → y ∈ L b → a = b :=
      fun ha hb => hF.disjoint ha hb
    by_cases hrd : r = dst <;> by_cases hrd' : r' = dst
    · rw [hrd, hrd']
    · rw [if_pos hrd] at h2
      rw [if_neg hrd'] at h4
      exact absurd (hd' hs hr' h2 h4).symm h3
    · rw [if_neg hrd] at h2
      rw [if_pos hrd'] at h4
      exact absurd (hd' hr hs h2 h4) h1
    · rw [if_neg hrd] at h2
      rw [if_neg hrd'] at h4
      exact hd' hr hr' h2 h4

end Family

/-!
## Walking a list

A list is read back from the table by following forward links from the head
sentinel until an index that is not a node.
-/

/-- Collect at most the given number of nodes along the forward links. -/
def walk (nx : ι → ι) (node : ι → Prop) [DecidablePred node] : Nat → ι → List ι
  | 0, _ => []
  | n + 1, i => if node i then i :: walk nx node n (nx i) else []

omit [DecidableEq ι] in
theorem walk_eq_of_seg {nx pv : ι → ι} {node : ι → Prop} [DecidablePred node]
    {a b : ι} {l : List ι} {n : Nat} (hs : Seg nx pv a l b)
    (hnode : ∀ x ∈ l, node x) (hb : ¬ node b) (hn : l.length ≤ n) :
    walk nx node n (nx a) = l := by
  induction l generalizing a n with
  | nil =>
      rw [hs.1]
      cases n with
      | zero => rfl
      | succ n => simp [walk, hb]
  | cons x l ih =>
      rcases hs with ⟨h1, _, h3⟩
      cases n with
      | zero => simp at hn
      | succ n =>
          rw [h1, walk, if_pos (hnode x (by simp)),
            ih h3 (fun y hy => hnode y (by simp [hy])) (by simpa using hn)]

end LinkedLists
end BbbXinu

/-!
## Singly linked lists

A chain starts at a head, follows one link per node and ends at a given end,
which for a whole list is the null pointer.

Nothing here depends on a particular program.
-/

namespace BbbXinu

/-- From the head, the links run through the nodes of the list to the end. -/
def Chain {ι : Type} (next : ι → ι) (stop : ι) : ι → List ι → Prop
  | h, [] => h = stop
  | h, a :: l => h = a ∧ Chain next stop (next a) l

namespace Chain

variable {ι : Type} {next next' : ι → ι} {stop mid h a : ι} {l m : List ι}

theorem head_eq (hc : Chain next stop h l) : h = l.headD stop := by
  cases l with
  | nil => exact hc
  | cons a l => exact hc.1

/-- A chain only reads the links of its nodes. -/
theorem congr (hc : Chain next stop h l) (hl : ∀ a ∈ l, next' a = next a) :
    Chain next' stop h l := by
  induction l generalizing h with
  | nil => exact hc
  | cons a l ih =>
      refine ⟨hc.1, ?_⟩
      rw [hl a (by simp)]
      exact ih hc.2 fun b hb => hl b (List.mem_cons_of_mem a hb)

/-- A chain that ends where another starts. -/
theorem append (hl : Chain next mid h l) (hm : Chain next stop mid m) :
    Chain next stop h (l ++ m) := by
  induction l generalizing h with
  | nil =>
      have heq : h = mid := hl
      rw [heq]
      exact hm
  | cons a l ih => exact ⟨hl.1, ih hl.2⟩

/-- A list whose nodes each link to the one behind them is a chain. -/
theorem of_getElem (hh : h = l.headD stop)
    (hl : ∀ k (hk : k < l.length), next l[k] = (l[k + 1]?).getD stop) :
    Chain next stop h l := by
  induction l generalizing h with
  | nil => exact hh
  | cons a l ih =>
      refine ⟨hh, ih ?_ ?_⟩
      · have h0 := hl 0 (by simp)
        cases l with
        | nil => exact h0
        | cons b l => exact h0
      · intro k hk
        exact hl (k + 1) (by simpa using hk)

end Chain
end BbbXinu
