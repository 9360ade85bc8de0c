import BbbXinu.Lib.LinkedLists

/-!
# Lists ordered by integer keys

Two ways to keep a list in order.  A descending list stores each key and inserts
behind equal keys.  A delta list stores the difference to the element before,
so that the sum of the keys up to an element is its due value; counting down the
first key counts down every due value.

Nothing here depends on a particular program.
-/

namespace BbbXinu
namespace KeyedLists

open LinkedLists

variable {ι : Type}

/-!
## Descending lists
-/

/-- Every key is at least as large as the keys behind it. -/
def Descending (k : ι → Int) (l : List ι) : Prop :=
  l.Pairwise fun x y => k y ≤ k x

/-- Insertion behind all elements whose key is at least as large. -/
def insertKey (k : ι → Int) (x : ι) (key : Int) (l : List ι) : List ι :=
  l.takeWhile (fun y => decide (key ≤ k y)) ++
    x :: l.dropWhile (fun y => decide (key ≤ k y))

section Descending

variable {k k' : ι → Int} {x y : ι} {key : Int} {l : List ι}

theorem insertKey_nil : insertKey k x key [] = [x] := rfl

theorem insertKey_cons :
    insertKey k x key (y :: l) =
      if key ≤ k y then y :: insertKey k x key l else x :: y :: l := by
  unfold insertKey
  split
  · rename_i h
    rw [List.takeWhile_cons_of_pos (by simpa using h),
      List.dropWhile_cons_of_pos (by simpa using h)]
    rfl
  · rename_i h
    rw [List.takeWhile_cons_of_neg (by simpa using h),
      List.dropWhile_cons_of_neg (by simpa using h)]
    rfl

theorem insertKey_perm : (insertKey k x key l).Perm (x :: l) := by
  have h := List.takeWhile_append_dropWhile (p := fun y => decide (key ≤ k y)) (l := l)
  unfold insertKey
  refine List.perm_middle.trans ?_
  rw [h]

theorem mem_insertKey : y ∈ insertKey k x key l ↔ y = x ∨ y ∈ l := by
  rw [insertKey_perm.mem_iff, List.mem_cons]

theorem length_insertKey : (insertKey k x key l).length = l.length + 1 := by
  rw [insertKey_perm.length_eq, List.length_cons]

/-- An element with a key at least as large stays in front, with all before it. -/
theorem insertKey_behind {l₁ l₂ : List ι} (hl : ∀ z ∈ l₁, key ≤ k z) (hy : key ≤ k y) :
    insertKey k x key (l₁ ++ y :: l₂) = l₁ ++ y :: insertKey k x key l₂ := by
  induction l₁ with
  | nil => rw [List.nil_append, insertKey_cons, if_pos hy, List.nil_append]
  | cons z l₁ ih =>
      rw [List.cons_append, insertKey_cons, if_pos (hl z (by simp)),
        ih fun w hw => hl w (by simp [hw]), List.cons_append]

/-- An element with a smaller key is overtaken. -/
theorem insertKey_front {l₁ l₂ : List ι} (hy : k y < key) :
    insertKey k x key (l₁ ++ y :: l₂) = insertKey k x key l₁ ++ y :: l₂ := by
  induction l₁ with
  | nil => rw [List.nil_append, insertKey_cons, if_neg (Int.not_le.mpr hy), insertKey_nil,
      List.singleton_append]
  | cons z l₁ ih =>
      rw [List.cons_append, insertKey_cons, insertKey_cons, ih]
      split
      · rfl
      · rfl

/-- With a key at most as large, the later element is behind the earlier one. -/
theorem insertKey_later {key' : Int} (hx : k' x = key) (hk : ∀ z ∈ l, k' z = k z)
    (hle : key' ≤ key) : [x, y].Sublist (insertKey k' y key' (insertKey k x key l)) := by
  have hfront : ∀ z ∈ l.takeWhile fun z => decide (key ≤ k z), key' ≤ k' z := by
    intro z hz
    have hkey := List.all_eq_true.mp List.all_takeWhile z hz
    rw [hk z ((List.takeWhile_prefix _).mem hz)]
    exact Int.le_trans hle (by simpa using hkey)
  have hsplit : insertKey k' y key' (insertKey k x key l) =
      l.takeWhile (fun z => decide (key ≤ k z)) ++
        x :: insertKey k' y key' (l.dropWhile fun z => decide (key ≤ k z)) :=
    insertKey_behind hfront (hx.symm ▸ hle)
  rw [hsplit]
  apply List.Sublist.trans _ (List.sublist_append_right _ _)
  apply List.Sublist.cons_cons
  exact List.singleton_sublist.mpr (mem_insertKey.mpr (Or.inl rfl))

/-- With a larger key it overtakes the earlier one. -/
theorem insertKey_sooner {key' : Int} (hx : k' x = key) (hlt : key < key') :
    [y, x].Sublist (insertKey k' y key' (insertKey k x key l)) := by
  have hsplit : insertKey k' y key' (insertKey k x key l) =
      insertKey k' y key' (l.takeWhile fun z => decide (key ≤ k z)) ++
        x :: l.dropWhile fun z => decide (key ≤ k z) :=
    insertKey_front (hx.symm ▸ hlt)
  rw [hsplit]
  have hy : [y].Sublist (insertKey k' y key' (l.takeWhile fun z => decide (key ≤ k z))) :=
    List.singleton_sublist.mpr (mem_insertKey.mpr (Or.inl rfl))
  exact hy.append (List.singleton_sublist.mpr (List.mem_cons_self ..))

theorem Descending.congr (h : Descending k l) (hk : ∀ y ∈ l, k' y = k y) :
    Descending k' l := by
  apply List.Pairwise.imp_of_mem _ h
  intro a b ha hb hab
  rw [hk a ha, hk b hb]
  exact hab

theorem Descending.sublist {m : List ι} (h : Descending k l) (hm : m.Sublist l) :
    Descending k m :=
  List.Pairwise.sublist hm h

theorem Descending.insertKey (h : Descending k l) (hx : k' x = key)
    (hk : ∀ y ∈ l, k' y = k y) :
    Descending k' (insertKey k x key l) := by
  induction l with
  | nil => exact List.pairwise_singleton _ _
  | cons y l ih =>
      have hy : k' y = k y := hk y (by simp)
      rcases List.pairwise_cons.mp h with ⟨h1, h2⟩
      rw [insertKey_cons]
      split
      · rename_i hle
        refine List.pairwise_cons.mpr ⟨?_, ih h2 (fun z hz => hk z (by simp [hz]))⟩
        intro z hz
        rcases mem_insertKey.mp hz with he | he
        · rw [he, hx, hy]
          exact hle
        · rw [hy, hk z (by simp [he])]
          exact h1 z he
      · rename_i hlt
        refine List.pairwise_cons.mpr ⟨?_, Descending.congr h hk⟩
        intro z hz
        rw [hx, hk z hz]
        rcases List.mem_cons.mp hz with he | he
        · rw [he]
          omega
        · have h3 := h1 z he
          omega

/-- The first key bounds all keys. -/
theorem Descending.le_head (h : Descending k (x :: l)) (hy : y ∈ x :: l) : k y ≤ k x := by
  rcases List.mem_cons.mp hy with he | he
  · exact Int.le_of_eq (congrArg k he)
  · exact (List.pairwise_cons.mp h).1 y he

end Descending

/-!
## Delta lists
-/

/-- The keys are the differences between consecutive due values, from the given
start on. -/
def Delta (k due : ι → Int) : Int → List ι → Prop
  | _, [] => True
  | start, x :: l => k x = due x - start ∧ start ≤ due x ∧ Delta k due (due x) l

/-- The due value that a list of elements ends with. -/
def endDue (due : ι → Int) : Int → List ι → Int
  | start, [] => start
  | _, x :: l => endDue due (due x) l

section Delta

variable {k k' due due' : ι → Int} {x y : ι} {start d : Int} {l l₁ l₂ : List ι}

theorem delta_append :
    Delta k due start (l₁ ++ l₂) ↔
      Delta k due start l₁ ∧ Delta k due (endDue due start l₁) l₂ := by
  induction l₁ generalizing start with
  | nil => simp [Delta, endDue]
  | cons x l₁ ih => simp [Delta, endDue, ih, and_assoc]

theorem Delta.congr (h : Delta k due start l) (hk : ∀ y ∈ l, k' y = k y)
    (hd : ∀ y ∈ l, due' y = due y) : Delta k' due' start l := by
  induction l generalizing start with
  | nil => exact h
  | cons x l ih =>
      rcases h with ⟨h1, h2, h3⟩
      have hx : due' x = due x := hd x (by simp)
      refine ⟨?_, ?_, ?_⟩
      · rw [hk x (by simp), hx, h1]
      · rw [hx]
        exact h2
      · rw [hx]
        exact ih h3 (fun y hy => hk y (by simp [hy])) (fun y hy => hd y (by simp [hy]))

theorem Delta.start_le (h : Delta k due start l) (hy : y ∈ l) : start ≤ due y := by
  induction l generalizing start with
  | nil => simp at hy
  | cons x l ih =>
      rcases h with ⟨_, h2, h3⟩
      rcases List.mem_cons.mp hy with he | he
      · rw [he]
        exact h2
      · have h4 := ih h3 he
        omega

theorem Delta.start_le_end (h : Delta k due start l) : start ≤ endDue due start l := by
  induction l generalizing start with
  | nil => exact Int.le_refl _
  | cons x l ih =>
      rcases h with ⟨_, h2, h3⟩
      have h4 := ih h3
      unfold endDue
      omega

theorem endDue_congr (hd : ∀ y ∈ l, due' y = due y) :
    endDue due' start l = endDue due start l := by
  induction l generalizing start with
  | nil => rfl
  | cons x l ih =>
      unfold endDue
      rw [hd x (by simp)]
      exact ih (fun y hy => hd y (by simp [hy]))

/-- A new element takes its part of the difference that it is put into. -/
theorem Delta.insert [DecidableEq ι] (h : Delta k due start (l₁ ++ l₂)) (hnd : (l₁ ++ l₂).Nodup)
    (hx : x ∉ l₁ ++ l₂) (hbefore : endDue due start l₁ ≤ d)
    (hafter : ∀ y ∈ l₂, d ≤ due y)
    (hk₁ : ∀ y ∈ l₁, k' y = k y) (hkx : k' x = d - endDue due start l₁)
    (hk₂ : ∀ y ∈ l₂, k' y = if l₂.head? = some y then k y - k' x else k y)
    (hdx : due' x = d) (hd : ∀ y ∈ l₁ ++ l₂, due' y = due y) :
    Delta k' due' start (l₁ ++ x :: l₂) := by
  rcases delta_append.mp h with ⟨h1, h2⟩
  have hd₁ : ∀ y ∈ l₁, due' y = due y := fun y hy => hd y (by simp [hy])
  have hd₂ : ∀ y ∈ l₂, due' y = due y := fun y hy => hd y (by simp [hy])
  refine delta_append.mpr ⟨h1.congr hk₁ hd₁, ?_⟩
  rw [endDue_congr hd₁]
  refine ⟨by rw [hkx, hdx], by rw [hdx]; exact hbefore, ?_⟩
  rw [hdx]
  cases l₂ with
  | nil => trivial
  | cons y l =>
      rcases h2 with ⟨h3, _, h5⟩
      have hyl : y ∉ l := (List.nodup_cons.mp hnd.of_append_right).1
      have hdy : due' y = due y := hd₂ y (by simp)
      refine ⟨?_, ?_, ?_⟩
      · rw [hk₂ y (by simp), List.head?_cons, if_pos rfl, hdy, h3, hkx]
        omega
      · rw [hdy]
        exact hafter y (by simp)
      · rw [hdy]
        apply h5.congr
        · intro z hz
          have hzy : y ≠ z := fun he => hyl (he ▸ hz)
          rw [hk₂ z (by simp [hz]), List.head?_cons,
            if_neg (fun he => hzy (Option.some.inj he))]
        · exact fun z hz => hd₂ z (by simp [hz])

/-- The element behind a removed one takes over its key. -/
theorem Delta.remove [DecidableEq ι] (h : Delta k due start (l₁ ++ x :: l₂))
    (hnd : (l₁ ++ x :: l₂).Nodup)
    (hk₁ : ∀ y ∈ l₁, k' y = k y)
    (hk₂ : ∀ y ∈ l₂, k' y = if l₂.head? = some y then k y + k x else k y) :
    Delta k' due start (l₁ ++ l₂) := by
  rcases delta_append.mp h with ⟨h1, h2, h3, h4⟩
  refine delta_append.mpr ⟨h1.congr hk₁ (fun _ _ => rfl), ?_⟩
  cases l₂ with
  | nil => trivial
  | cons y l =>
      rcases h4 with ⟨h5, h6, h7⟩
      have hyl : y ∉ l := by
        have h8 := (List.nodup_cons.mp hnd.of_append_right).2
        exact (List.nodup_cons.mp h8).1
      refine ⟨?_, by omega, ?_⟩
      · rw [hk₂ y (by simp), List.head?_cons, if_pos rfl]
        omega
      · apply h7.congr _ (fun _ _ => rfl)
        intro z hz
        have hzy : y ≠ z := fun he => hyl (he ▸ hz)
        rw [hk₂ z (by simp [hz]), List.head?_cons,
          if_neg (fun he => hzy (Option.some.inj he))]

/-- Counting down the first key counts down every due value. -/
theorem Delta.tick (h : Delta k due start (x :: l)) (hkx : k' x = k x - 1)
    (hk : ∀ y ∈ l, k' y = k y) (hpos : start < due x) :
    Delta k' (fun y => due y - 1) start (x :: l) := by
  rcases h with ⟨h1, h2, h3⟩
  refine ⟨by dsimp only; omega, by dsimp only; omega, ?_⟩
  have hshift : ∀ (m : List ι) (s : Int), Delta k due s m → (∀ y ∈ m, k' y = k y) →
      Delta k' (fun y => due y - 1) (s - 1) m := by
    intro m
    induction m with
    | nil => exact fun _ _ _ => trivial
    | cons y m ih =>
        intro s hm hkm
        rcases hm with ⟨g1, g2, g3⟩
        refine ⟨?_, by dsimp only; omega, ih _ g3 (fun z hz => hkm z (by simp [hz]))⟩
        rw [hkm y (by simp), g1]
        dsimp only
        omega
  exact hshift l (due x) h3 hk

/-!
## Sums of keys

The due values of a delta list are the sums of its keys.
-/

/-- The sum of the keys up to an element, its own key included. -/
def sumTo [DecidableEq ι] (k : ι → Int) : List ι → ι → Int
  | [], _ => 0
  | x :: l, y => if y = x then k x else k x + sumTo k l y

theorem Delta.key_nonneg (h : Delta k due start l) (hy : y ∈ l) : 0 ≤ k y := by
  induction l generalizing start with
  | nil => simp at hy
  | cons x l ih =>
      rcases h with ⟨h1, h2, h3⟩
      rcases List.mem_cons.mp hy with he | he
      · rw [he]
        omega
      · exact ih h3 he

theorem Delta.sumTo_eq [DecidableEq ι] (h : Delta k due start l) (hy : y ∈ l) :
    start + sumTo k l y = due y := by
  induction l generalizing start with
  | nil => simp at hy
  | cons x l ih =>
      rcases h with ⟨h1, h2, h3⟩
      unfold sumTo
      split
      · rename_i he
        rw [he]
        omega
      · rename_i hne
        have htail : y ∈ l := (List.mem_cons.mp hy).resolve_left hne
        have hrec := ih h3 htail
        omega

/-- Any list without negative keys is a delta list. -/
theorem delta_sumTo [DecidableEq ι] (start : Int) (hnd : l.Nodup) (hk : ∀ y ∈ l, 0 ≤ k y) :
    Delta k (fun y => start + sumTo k l y) start l := by
  induction l generalizing start with
  | nil => trivial
  | cons x l ih =>
      rcases List.nodup_cons.mp hnd with ⟨hx, hnd'⟩
      have hkx := hk x (by simp)
      have hself : sumTo k (x :: l) x = k x := if_pos rfl
      have hrec := ih (start + k x) hnd' fun y hy => hk y (by simp [hy])
      refine ⟨?_, ?_, ?_⟩
      · simp only [hself]
        omega
      · simp only [hself]
        omega
      · simp only [hself]
        apply hrec.congr (fun _ _ => rfl)
        intro y hy
        have hne : y ≠ x := fun he => hx (he ▸ hy)
        simp [sumTo, hne, Int.add_assoc]

theorem Delta.sum_keys (h : Delta k due start l) : start + (l.map k).sum = endDue due start l := by
  induction l generalizing start with
  | nil => simp [endDue]
  | cons x l ih =>
      rcases h with ⟨h1, _, h3⟩
      have hrec := ih h3
      simp only [List.map_cons, List.sum_cons, endDue]
      omega

theorem Delta.le_end (h : Delta k due start l) (hy : y ∈ l) : due y ≤ endDue due start l := by
  induction l generalizing start with
  | nil => simp at hy
  | cons x l ih =>
      rcases h with ⟨_, _, h3⟩
      rcases List.mem_cons.mp hy with he | he
      · rw [he]
        exact h3.start_le_end
      · exact ih h3 he

/-- The end of a list is due no later than a bound on all its elements. -/
theorem endDue_lt {b : Int} (hs : start < b) (hl : ∀ y ∈ l, due y < b) :
    endDue due start l < b := by
  induction l generalizing start with
  | nil => exact hs
  | cons x l ih => exact ih (hl x (by simp)) fun y hy => hl y (by simp [hy])

end Delta

end KeyedLists
end BbbXinu
