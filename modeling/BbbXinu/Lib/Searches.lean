import Mathlib.Data.List.Basic
import Mathlib.Data.List.Pairwise
import Mathlib.Tactic.Linarith
import Mathlib.Tactic.Ring
import Mathlib.Data.List.Dedup
import Mathlib.Data.List.Infix

/-!
# Searches around a table

A table has a free place or not, and is searched from a place on, around its end, until a
free place was found or each place was tried.  The search also yields the place after the
last one that it tried.

Nothing here depends on a particular program.
-/

namespace BbbXinu
namespace Searches

/-- The place after a place. -/
def next (size place : Int) : Int := if size ≤ place + 1 then 0 else place + 1

/-- The search, with the number of places still to try. -/
def search (size : Int) (free : Int → Prop) [DecidablePred free] :
    Nat → Int → Option Int × Int
  | 0, place => (none, place)
  | n + 1, place =>
      if free place then (some place, next size place) else search size free n (next size place)

/-- How far a place is from the first one that is tried. -/
def ahead (size place i : Int) : Int := (i - place) % size

/-- The free place that is found from a place on: no free place is nearer. -/
structure Nearest (size : Int) (free : Int → Prop) (place i : Int) : Prop where
  nonneg : 0 ≤ i
  lt : i < size
  found : free i
  least : ∀ j, 0 ≤ j → j < size → free j → ahead size place i ≤ ahead size place j

section

variable {size place i j : Int} {free : Int → Prop} [DecidablePred free]

theorem next_nonneg (h : 0 ≤ place) : 0 ≤ next size place := by
  unfold next
  split <;> omega

theorem next_lt (h : place < size) (h0 : 0 ≤ place) : next size place < size := by
  unfold next
  split <;> omega

theorem ahead_nonneg (h : 0 < size) : 0 ≤ ahead size place i := Int.emod_nonneg _ (by omega)

theorem ahead_lt (h : 0 < size) : ahead size place i < size := Int.emod_lt_of_pos _ h

theorem ahead_self : ahead size place place = 0 := by
  simp [ahead]

/-- Places that are as far away are the same. -/
theorem ahead_injective (hi0 : 0 ≤ i) (hi : i < size) (hj0 : 0 ≤ j) (hj : j < size)
    (h : ahead size place i = ahead size place j) : i = j := by
  have hmod : (i - place - (j - place)) % size = 0 := Int.emod_eq_emod_iff_emod_sub_eq_zero.mp h
  rw [show i - place - (j - place) = i - j by ring] at hmod
  obtain ⟨k, hk⟩ := Int.dvd_of_emod_eq_zero hmod
  have hlt : size * k < size * 1 := by omega
  have hgt : size * (-1) < size * k := by omega
  have hk1 := lt_of_mul_lt_mul_left hlt (by omega)
  have hk0 := lt_of_mul_lt_mul_left hgt (by omega)
  have hzero : k = 0 := by omega
  rw [hzero] at hk
  omega

/-- From the next place on every other place is nearer by one. -/
theorem ahead_next (h0 : 0 ≤ place) (h : place < size) (hi0 : 0 ≤ i) (hi : i < size)
    (hne : i ≠ place) : ahead size (next size place) i = ahead size place i - 1 := by
  have hmod : ahead size (next size place) i = (i - place - 1) % size := by
    unfold ahead next
    split
    · have hsize : place = size - 1 := by omega
      rw [hsize, show i - (size - 1) - 1 = i - size by ring, Int.sub_emod_right]
      simp
    · rw [show i - (place + 1) = i - place - 1 by ring]
  have hpos : 0 < ahead size place i := by
    have hnonneg : 0 ≤ ahead size place i := ahead_nonneg (by omega)
    have hzero : ahead size place i ≠ 0 := fun hz =>
      hne (ahead_injective hi0 hi h0 h (hz.trans ahead_self.symm))
    omega
  rw [hmod, Int.sub_emod, show (i - place) % size = ahead size place i from rfl]
  have hlt : ahead size place i < size := ahead_lt (by omega)
  by_cases hone : size = 1
  · omega
  · rw [Int.emod_eq_of_lt (a := 1) (by omega) (by omega)]
    exact Int.emod_eq_of_lt (by omega) (by omega)

/-- What a search finds: the nearest free place among those that it tries. -/
theorem search_cases (free : Int → Prop) [DecidablePred free] (n : Nat) (h0 : 0 ≤ place) (h : place < size) (hn : n ≤ size) :
    ((search size free n place).1 = none ∧
      ∀ i, 0 ≤ i → i < size → ahead size place i < n → ¬free i) ∨
    ∃ i, search size free n place = (some i, next size i) ∧ Nearest size free place i := by
  induction n generalizing place with
  | zero =>
      left
      constructor
      · rfl
      · intro i _ _ hlt
        have hnonneg : 0 ≤ ahead size place i := ahead_nonneg (by omega)
        omega
  | succ n ih =>
      by_cases hfree : free place
      · right
        refine ⟨place, if_pos hfree, h0, h, hfree, ?_⟩
        intro j _ _ _
        rw [ahead_self]
        exact ahead_nonneg (by omega)
      · have hstep : search size free (n + 1) place = search size free n (next size place) :=
          if_neg hfree
        rw [hstep]
        rcases ih (next_nonneg h0) (next_lt h h0) (by omega) with ⟨hnone, hall⟩ | ⟨i, hi, hnear⟩
        · left
          constructor
          · exact hnone
          · intro i hi0 hi hlt
            by_cases heq : i = place
            · rw [heq]
              exact hfree
            · apply hall i hi0 hi
              rw [ahead_next h0 h hi0 hi heq]
              push_cast at hlt
              omega
        · right
          refine ⟨i, hi, hnear.nonneg, hnear.lt, hnear.found, ?_⟩
          intro j hj0 hj hjfree
          have hjne : j ≠ place := fun heq => hfree (heq ▸ hjfree)
          have hine : i ≠ place := fun heq => hfree (heq ▸ hnear.found)
          have hle := hnear.least j hj0 hj hjfree
          rw [ahead_next h0 h hj0 hj hjne, ahead_next h0 h hnear.nonneg hnear.lt hine] at hle
          omega

/-- A search that tries every place. -/
theorem search_all (free : Int → Prop) [DecidablePred free] {n : Nat} (h0 : 0 ≤ place) (h : place < size) (hn : n = size) :
    ((search size free n place).1 = none ∧ ∀ i, 0 ≤ i → i < size → ¬free i) ∨
    ∃ i, search size free n place = (some i, next size i) ∧ Nearest size free place i := by
  rcases search_cases free n h0 h hn.le with ⟨hnone, hall⟩ | hsome
  · left
    constructor
    · exact hnone
    · intro i hi0 hi
      exact hall i hi0 hi (hn ▸ ahead_lt (by omega))
  · exact Or.inr hsome

theorem exists_nearest (h0 : 0 ≤ place) (h : place < size)
    (hex : ∃ i, 0 ≤ i ∧ i < size ∧ free i) : ∃ i, Nearest size free place i := by
  rcases search_all free (n := size.toNat) h0 h (by omega) with
    ⟨_, hall⟩ | ⟨i, _, hnear⟩
  · obtain ⟨i, hi0, hi, hfree⟩ := hex
    exact absurd hfree (hall i hi0 hi)
  · exact ⟨i, hnear⟩

/-- From behind a place that is nearer. -/
theorem ahead_after {k : Int} (hk0 : 0 ≤ k) (hk : k < size) (hj0 : 0 ≤ j) (hj : j < size)
    (h : ahead size place k < ahead size place j) :
    ahead size (next size k) j = ahead size place j - ahead size place k - 1 := by
  have hne : j ≠ k := fun heq => absurd (heq ▸ h) (lt_irrefl _)
  have hnonneg : 0 ≤ ahead size place k := ahead_nonneg (by omega)
  have hlt : ahead size place j < size := ahead_lt (by omega)
  have hdiff : ahead size k j = ahead size place j - ahead size place k := by
    have hmod : ahead size k j = (ahead size place j - ahead size place k) % size := by
      unfold ahead
      rw [← Int.sub_emod, show j - place - (k - place) = j - k by ring]
    rw [hmod]
    exact Int.emod_eq_of_lt (by omega) (by omega)
  rw [ahead_next hk0 hk hj0 hj hne, hdiff]

omit [DecidablePred free] in
theorem Nearest.unique (h : Nearest size free place i) (h' : Nearest size free place j) :
    i = j := by
  have hle := h.least j h'.nonneg h'.lt h'.found
  have hge := h'.least i h.nonneg h.lt h.found
  exact ahead_injective h.nonneg h.lt h'.nonneg h'.lt (le_antisymm hle hge)

omit [DecidablePred free] in
/-- The search goes on behind the place that it found, and finds the second. -/
theorem Nearest.second (h : Nearest size free place i)
    (h' : Nearest size (fun k => k ≠ i ∧ free k) (next size i) j) :
    Nearest size (fun k => k ≠ i ∧ free k) place j where
  nonneg := h'.nonneg
  lt := h'.lt
  found := h'.found
  least := by
    have hafter : ∀ k, 0 ≤ k → k < size → (k ≠ i ∧ free k) →
        ahead size (next size i) k = ahead size place k - ahead size place i - 1 := by
      intro k hk0 hk hfree
      apply ahead_after h.nonneg h.lt hk0 hk
      apply lt_of_le_of_ne (h.least k hk0 hk hfree.2)
      exact fun heq => hfree.1 (ahead_injective h.nonneg h.lt hk0 hk heq).symm
    intro k hk0 hk hfree
    have hle := h'.least k hk0 hk hfree
    rw [hafter k hk0 hk hfree, hafter j h'.nonneg h'.lt h'.found] at hle
    omega

end

end Searches
end BbbXinu

/-!
## Searching for the best element

A search looks at the elements of a list one by one and keeps a candidate: the
element that passes a test and comes first, in some order of preference, among
those seen so far.

Nothing here depends on a particular program.
-/

namespace BbbXinu
namespace Choices

variable {α : Type} {P : α → Prop} {r : α → α → Prop} {l l' : List α} {b c : α} {o : Option α}

/-- An element that passes, preferred to every element that passes. -/
structure Choice (P : α → Prop) (r : α → α → Prop) (l : List α) (b : α) : Prop where
  mem : b ∈ l
  pass : P b
  first : ∀ c ∈ l, P c → r b c

/-- The candidate after the elements of a list were seen. -/
def Sought (P : α → Prop) (r : α → α → Prop) (l : List α) : Option α → Prop
  | none => ∀ c ∈ l, ¬ P c
  | some b => Choice P r l b

theorem Sought.nil : Sought P r [] none := by
  intro c hc
  cases hc

/-- Which elements were seen matters, and not in which order. -/
theorem Sought.congr (h : Sought P r l o) (hl : ∀ c, c ∈ l ↔ c ∈ l') : Sought P r l' o := by
  cases o with
  | none => exact fun c hc => h c ((hl c).mpr hc)
  | some b => exact ⟨(hl b).mp h.mem, h.pass, fun c hc => h.first c ((hl c).mpr hc)⟩

/-- The next element does not pass. -/
theorem Sought.skip (h : Sought P r l o) (hb : ¬ P b) : Sought P r (b :: l) o := by
  cases o with
  | none =>
      intro c hc
      cases List.mem_cons.mp hc with
      | inl hc => exact hc ▸ hb
      | inr hc => exact h c hc
  | some d =>
      refine ⟨List.mem_cons_of_mem b h.mem, h.pass, ?_⟩
      intro c hc hpass
      cases List.mem_cons.mp hc with
      | inl hc => exact absurd (hc ▸ hpass) hb
      | inr hc => exact h.first c hc hpass

/-- The candidate is preferred to the next element. -/
theorem Sought.keep (h : Sought P r l (some c)) (hcb : r c b) :
    Sought P r (b :: l) (some c) := by
  refine ⟨List.mem_cons_of_mem b h.mem, h.pass, ?_⟩
  intro d hd hpass
  cases List.mem_cons.mp hd with
  | inl hd => exact hd ▸ hcb
  | inr hd => exact h.first d hd hpass

/-- The next element is preferred to the candidate. -/
theorem Sought.replace [IsPreorder α r] (h : Sought P r l o) (hb : P b)
    (hbc : ∀ c, o = some c → r b c) : Sought P r (b :: l) (some b) := by
  refine ⟨List.mem_cons_self, hb, ?_⟩
  intro d hd hpass
  cases List.mem_cons.mp hd with
  | inl hd => exact hd ▸ refl_of r d
  | inr hd =>
      cases o with
      | none => exact absurd hpass (h d hd)
      | some c => exact trans_of r (hbc c rfl) (h.first d hd hpass)

end Choices
end BbbXinu

/-!
## Rules with prefixes

Each rule has a key, and applies to the words that begin with it.  The first rule that applies
is one with a longest key if no rule comes before one whose key is longer.

Nothing here depends on a particular program.
-/

namespace BbbXinu
namespace Prefixes

variable {α ρ : Type} [DecidableEq α]

/-- The first rule that applies. -/
def firstMatch (key : ρ → List α) (rules : List ρ) (s : List α) : Option ρ :=
  rules.find? fun r => key r <+: s

/-- A rule applies, and none with a longer key. -/
def Longest (key : ρ → List α) (rules : List ρ) (s : List α) (r : ρ) : Prop :=
  r ∈ rules ∧ key r <+: s ∧ ∀ r' ∈ rules, key r' <+: s → (key r').length ≤ (key r).length

/-- No rule comes before one whose key goes on behind its own. -/
def Graded (key : ρ → List α) (rules : List ρ) : Prop :=
  rules.Pairwise fun r r' => key r <+: key r' → (key r').length ≤ (key r).length

section

variable {key : ρ → List α} {rules rules' : List ρ} {s : List α} {r r' : ρ}

theorem firstMatch_spec (h : firstMatch key rules s = some r) : r ∈ rules ∧ key r <+: s :=
  ⟨List.mem_of_find?_eq_some h, of_decide_eq_true (List.find?_some (p := fun r => key r <+: s) h)⟩

theorem firstMatch_eq_none : firstMatch key rules s = none ↔ ∀ r ∈ rules, ¬key r <+: s := by
  unfold firstMatch
  rw [List.find?_eq_none]
  simp only [decide_eq_true_eq]

theorem firstMatch_append : firstMatch key (rules ++ rules') s =
    (firstMatch key rules s).or (firstMatch key rules' s) := List.find?_append

omit [DecidableEq α] in
theorem Longest.length_eq (h : Longest key rules s r) (h' : Longest key rules s r') :
    (key r).length = (key r').length :=
  Nat.le_antisymm (h'.2.2 r h.1 h.2.1) (h.2.2 r' h'.1 h'.2.1)

/-- The first rule that applies is still the first one of those that are left. -/
theorem firstMatch_filter {f : ρ → Bool} (h : firstMatch key rules s = some r) (hr : f r) :
    firstMatch key (rules.filter f) s = some r := by
  rcases List.find?_eq_some_iff_append.mp h with ⟨hmatch, before, after, hrules, hbefore⟩
  unfold firstMatch
  rw [List.find?_filter]
  refine List.find?_eq_some_iff_append.mpr ⟨?_, before, after, hrules, fun r' hr' => ?_⟩
  · rw [hmatch, hr]
    rfl
  · have hno := hbefore r' hr'
    rw [Bool.not_eq_true'] at hno ⊢
    rw [hno]
    exact decide_eq_false fun h => Bool.noConfusion h.2

/-- Of graded rules the first one that applies has a longest key. -/
theorem Graded.longest (hg : Graded key rules) (h : firstMatch key rules s = some r) :
    Longest key rules s r := by
  rcases firstMatch_spec h with ⟨hmem, hmatch⟩
  refine ⟨hmem, hmatch, fun r' hr' hmatch' => ?_⟩
  rcases List.find?_eq_some_iff_append.mp h with ⟨_, before, after, rfl, hbefore⟩
  rcases List.mem_append.mp hr' with hb | hb
  · have hno := hbefore r' hb
    rw [decide_eq_true hmatch'] at hno
    cases hno
  · rcases List.mem_cons.mp hb with rfl | ha
    · exact Nat.le_refl _
    · by_contra hlt
      have hkeys := List.prefix_of_prefix_length_le hmatch hmatch' (by omega)
      exact hlt (List.rel_of_pairwise_cons (List.pairwise_append.mp hg).2.1 ha hkeys)

omit [DecidableEq α] in
end

end Prefixes
end BbbXinu

/-!
# Symbol tables

Words are entered into a table in the order in which they are met, and each of them once.  The
place of a word never changes afterwards, and it stands for the word.

Nothing here depends on a particular program.
-/

namespace BbbXinu
namespace SymbolTable

section

variable {α : Type} [DecidableEq α] {x y : α} {tab xs ys : List α}

/-- A word is entered unless it is there. -/
def enter (tab : List α) (x : α) : List α := if x ∈ tab then tab else tab ++ [x]

/-- The table when some words were met. -/
def symbols (xs : List α) : List α := xs.foldl enter []

/-- The place of a word in the table. -/
def position (xs : List α) (x : α) : Nat := (symbols xs).idxOf x

theorem enter_of_mem (h : x ∈ tab) : enter tab x = tab := if_pos h

theorem enter_of_not_mem (h : x ∉ tab) : enter tab x = tab ++ [x] := if_neg h

theorem mem_enter : y ∈ enter tab x ↔ y ∈ tab ∨ y = x := by
  by_cases h : x ∈ tab
  · rw [enter_of_mem h]
    constructor
    · exact Or.inl
    · intro hy
      cases hy with
      | inl hmem => exact hmem
      | inr heq => exact heq ▸ h
  · simp [enter_of_not_mem h]

theorem prefix_enter (tab : List α) (x : α) : tab <+: enter tab x := by
  by_cases h : x ∈ tab
  · rw [enter_of_mem h]
  · rw [enter_of_not_mem h]
    exact List.prefix_append _ _

theorem nodup_enter (h : tab.Nodup) (x : α) : (enter tab x).Nodup := by
  by_cases hx : x ∈ tab
  · rw [enter_of_mem hx]
    exact h
  · rw [enter_of_not_mem hx]
    rw [← List.concat_eq_append]
    exact h.concat hx

@[simp]
theorem symbols_nil : symbols ([] : List α) = [] := rfl

theorem symbols_concat (xs : List α) (x : α) : symbols (xs ++ [x]) = enter (symbols xs) x := by
  simp [symbols]

theorem mem_symbols : x ∈ symbols xs ↔ x ∈ xs := by
  induction xs using List.reverseRecOn with
  | nil => simp
  | append_singleton xs y ih => simp [symbols_concat, mem_enter, ih]

theorem nodup_symbols (xs : List α) : (symbols xs).Nodup := by
  induction xs using List.reverseRecOn with
  | nil => exact List.nodup_nil
  | append_singleton xs x ih =>
      rw [symbols_concat]
      exact nodup_enter ih x

/-- There is an entry for each word. -/
theorem length_symbols (xs : List α) : (symbols xs).length = xs.dedup.length := by
  apply List.Perm.length_eq
  rw [List.perm_ext_iff_of_nodup (nodup_symbols xs) (List.nodup_dedup xs)]
  intro x
  rw [mem_symbols, List.mem_dedup]

/-- A table grows at its end only. -/
theorem symbols_mono (h : xs <+: ys) : symbols xs <+: symbols ys := by
  obtain ⟨zs, rfl⟩ := h
  induction zs using List.reverseRecOn with
  | nil => rw [List.append_nil]
  | append_singleton zs z ih =>
      rw [← List.append_assoc, symbols_concat]
      exact ih.trans (prefix_enter _ _)

/-- The place of a word never changes. -/
theorem position_mono (h : xs <+: ys) (hx : x ∈ xs) : position xs x = position ys x :=
  (symbols_mono h).idxOf_eq_of_mem (mem_symbols.mpr hx)

/-- The place of a word stands for it. -/
theorem position_inj (hx : x ∈ xs) : position xs x = position xs y ↔ x = y :=
  List.idxOf_inj (mem_symbols.mpr hx)

theorem getElem?_position (hx : x ∈ xs) : (symbols xs)[position xs x]? = some x :=
  List.getElem?_idxOf (mem_symbols.mpr hx)

theorem position_lt (hx : x ∈ xs) : position xs x < (symbols xs).length :=
  List.idxOf_lt_length_of_mem (mem_symbols.mpr hx)

/-- What stands at a place is the word that the place is for. -/
theorem position_of_getElem? {i : Nat} (h : (symbols xs)[i]? = some x) : position xs x = i := by
  obtain ⟨hlt, rfl⟩ := List.getElem?_eq_some_iff.mp h
  exact (nodup_symbols xs).idxOf_getElem i hlt

/-- The word that was met first is the first entry. -/
theorem position_head (x : α) (xs : List α) : position (x :: xs) x = 0 := by
  have hpre : [x] <+: x :: xs := List.prefix_append [x] xs
  rw [← position_mono hpre (List.mem_singleton_self x)]
  simp [position, symbols, enter]

/-- A word that is not in the table gets the next place. -/
theorem position_concat (hx : x ∉ xs) : position (xs ++ [x]) x = (symbols xs).length := by
  have hnot : x ∉ symbols xs := fun hmem => hx (mem_symbols.mp hmem)
  rw [position, symbols_concat, enter_of_not_mem hnot, List.idxOf_append, if_neg hnot]
  simp

/-- A search for a word in the table. -/
theorem findIdx?_symbols_of_mem (hx : x ∈ xs) :
    (symbols xs).findIdx? (fun y => decide (y = x)) = some (position xs x) := by
  have hget := getElem?_position hx
  obtain ⟨hlt, heq⟩ := List.getElem?_eq_some_iff.mp hget
  rw [List.findIdx?_eq_some_iff_getElem]
  exists hlt
  constructor
  · exact decide_eq_true heq
  · intro j hj hfound
    have hlt' : j < (symbols xs).length := hj.trans hlt
    have hsame : (symbols xs)[j] = (symbols xs)[position xs x] := by
      rw [heq]
      exact of_decide_eq_true hfound
    exact hj.ne ((nodup_symbols xs).getElem_inj_iff.mp hsame)

theorem findIdx?_symbols_of_not_mem (hx : x ∉ xs) :
    (symbols xs).findIdx? (fun y => decide (y = x)) = none := by
  rw [List.findIdx?_eq_none_iff]
  intro y hy
  apply decide_eq_false
  intro heq
  exact hx (mem_symbols.mp (heq ▸ hy))

end

end SymbolTable
end BbbXinu
