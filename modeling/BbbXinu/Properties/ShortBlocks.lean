import BbbXinu.Invariant.FreeList
import BbbXinu.Properties.Calm

/-!
# Short allocations

{lit}`roundmb` adds 15 in 32 bits before it rounds down.  The largest requests
become zero bytes, and {lit}`getmem` and {lit}`getstk` then hand out a block
that stays free.
-/

namespace BbbXinu

/-- The bytes come out of one block that was free and touch none that is free
now. -/
structure Obtained (before after : List Span) (a : Span) : Prop where
  within : ∃ b ∈ before, a.bytes ⊆ b.bytes
  apart : ∀ b ∈ after, Disjoint a.bytes b.bytes

/-- What {lit}`getmem` hands out has the size of the request. -/
def Mem.GetmemFull (m : Mem) (alloc nbytes : Nat) : Prop :=
  ∀ a m', m.getmem alloc nbytes = (some a, m') →
    Obtained m.freeList m'.freeList { start := a, size := nbytes }

/-- What {lit}`getstk` hands out, up to the returned word, has the size of the
request. -/
def Mem.GetstkFull (m : Mem) (alloc nbytes : Nat) : Prop :=
  ∀ a m', m.getstk alloc nbytes = (some a, m') →
    ∃ start, start + nbytes = a + 4 ∧
      Obtained m.freeList m'.freeList { start := start, size := nbytes }

section

variable {gap nbytes : Nat} {m m' : Mem} {L L' : List Span} {a c : Span}

theorem le_roundmb (h : nbytes ≤ 4294967280) : nbytes ≤ roundmb nbytes := by
  unfold roundmb uint32 MIN_BLOCKSIZE
  omega

theorem roundmb_eq_zero (h : 4294967280 < nbytes) (hlt : nbytes < 4294967296) :
    roundmb nbytes = 0 := by
  unfold roundmb uint32 MIN_BLOCKSIZE
  omega

theorem roundmb_units (h : nbytes % 16 = 0) (hle : nbytes ≤ 4294967280) :
    roundmb nbytes = nbytes := by
  unfold roundmb uint32 MIN_BLOCKSIZE
  omega

theorem roundmb_roundmb (h : nbytes ≤ 4294967280) :
    roundmb (roundmb nbytes) = roundmb nbytes := by
  unfold roundmb uint32 MIN_BLOCKSIZE
  omega

theorem roundmb_pos (hpos : 0 < nbytes) (h : nbytes ≤ 4294967280) : 0 < roundmb nbytes := by
  unfold roundmb uint32 MIN_BLOCKSIZE
  omega

/-- A part of what was taken. -/
theorem Mem.Takes.obtained (h : m.Takes gap L a m' L') (hL : m.freeList = L)
    (hc : c.bytes ⊆ a.bytes) : Obtained m.freeList m'.freeList c := by
  rw [hL, h.free.freeList_eq]
  constructor
  · rcases h.within with ⟨b, hb, hlow, hhigh⟩
    refine ⟨b, hb, hc.trans ?_⟩
    exact Set.Ico_subset_Ico hlow hhigh
  · intro b hb
    exact (disjoint_spanBytes.mp h.disjoint b hb).mono_left hc

theorem Mem.Takes.ne_nil (h : m.Takes gap L a m' L') : L ≠ [] := by
  rcases h.within with ⟨b, hb, _⟩
  exact List.ne_nil_of_mem hb

theorem getmem_full_iff (h : m.FreeList gap m.freeList) (alloc : Nat)
    (hlt : nbytes < 4294967296) :
    m.GetmemFull alloc nbytes ↔ nbytes ≤ 4294967280 ∨ m.freeList = [] := by
  constructor
  · intro hfull
    by_contra hnot
    rcases not_or.mp hnot with ⟨hlarge, hne⟩
    have hround := roundmb_eq_zero (Nat.lt_of_not_le hlarge) hlt
    rcases getmem_nothing h alloc (by omega) hround hne with ⟨b, hb, m', hget, hfree⟩
    have hob := hfull _ _ hget
    have hapart := hob.apart b (hfree.freeList_eq.symm ▸ hb)
    have hstart : b.start ∈ ({ start := b.start, size := nbytes } : Span).bytes :=
      start_mem_bytes (by dsimp only; omega)
    exact Set.disjoint_left.mp hapart hstart (start_mem_bytes (h.spaced.size_pos b hb))
  · intro hcond a m' hget
    by_cases hz : nbytes = 0
    · unfold Mem.getmem at hget
      rw [if_pos hz] at hget
      cases hget
    have hpos : 0 < roundmb nbytes ∨ m.freeList = [] :=
      hcond.imp_left fun hle => Nat.lt_of_lt_of_le (Nat.pos_of_ne_zero hz) (le_roundmb hle)
    rcases getmem_ok h alloc hpos with ⟨a', m₁, L', heq, htakes⟩ | ⟨heq, _⟩
    · rw [heq] at hget
      cases hget
      have hle := le_roundmb (hcond.resolve_right htakes.ne_nil)
      apply htakes.obtained rfl
      exact Set.Ico_subset_Ico_right (Nat.add_le_add_left hle _)
    · rw [heq] at hget
      cases hget

theorem getstk_full_iff (h : m.FreeList gap m.freeList) (alloc : Nat)
    (hlt : nbytes < 4294967296) :
    m.GetstkFull alloc nbytes ↔ nbytes ≤ 4294967280 ∨ m.freeList = [] := by
  constructor
  · intro hfull
    by_contra hnot
    rcases not_or.mp hnot with ⟨hlarge, hne⟩
    have hround := roundmb_eq_zero (Nat.lt_of_not_le hlarge) hlt
    rcases getstk_nothing h alloc (by omega) hround hne with ⟨b, hb, m', hget, hfree⟩
    rcases hfull _ _ hget with ⟨start, hend, hob⟩
    have hapart := hob.apart b (hfree.freeList_eq.symm ▸ hb)
    have hpos := h.spaced.size_pos b hb
    have hstop := h.stop_le b hb
    have hlow := h.pos b hb
    rcases hob.within with ⟨c, hc, hin⟩
    have hcstop := h.stop_le c hc
    have hlast : start + nbytes - 1 ∈ ({ start := start, size := nbytes } : Span).bytes :=
      ⟨by dsimp only; omega, by unfold Span.stop; dsimp only; omega⟩
    have hclast := (hin hlast).2
    apply Set.disjoint_left.mp hapart hlast
    have hne : b.start < b.stop := Nat.lt_add_of_pos_right hpos
    have hword : start + nbytes = b.stop := by
      unfold uint32 at hend
      omega
    rw [hword]
    exact ⟨by omega, by omega⟩
  · intro hcond a m' hget
    by_cases hz : nbytes = 0
    · unfold Mem.getstk at hget
      rw [if_pos hz] at hget
      cases hget
    have hpos : 0 < roundmb nbytes ∨ m.freeList = [] :=
      hcond.imp_left fun hle => Nat.lt_of_lt_of_le (Nat.pos_of_ne_zero hz) (le_roundmb hle)
    rcases getstk_ok h alloc hpos with ⟨a', m₁, L', heq, htakes⟩ | ⟨heq, _⟩
    · rw [heq] at hget
      cases hget
      have hle := le_roundmb (hcond.resolve_right htakes.ne_nil)
      rcases htakes.within with ⟨b, hb, _, hhigh⟩
      have hstop := h.stop_le b hb
      have hround : 16 ≤ roundmb nbytes := by
        unfold roundmb uint32 MIN_BLOCKSIZE at *
        omega
      unfold Span.stop at hhigh
      dsimp only at hhigh
      refine ⟨a' + roundmb nbytes - nbytes, ?_, ?_⟩
      · unfold uint32
        unfold Span.stop at hstop
        omega
      · apply htakes.obtained rfl
        apply Set.Ico_subset_Ico
        · show a' ≤ a' + roundmb nbytes - nbytes
          omega
        · show a' + roundmb nbytes - nbytes + nbytes ≤ a' + roundmb nbytes
          omega
    · rw [heq] at hget
      cases hget

/-- Both routines hand out what was asked for if and only if rounding does not
overflow or there is nothing to hand out. -/
theorem no_short_allocation_iff (h : m.FreeList 0 m.freeList) (alloc : Nat)
    (hlt : nbytes < 4294967296) :
    (m.GetmemFull alloc nbytes ∧ m.GetstkFull alloc nbytes) ↔
      nbytes ≤ 4294967280 ∨ m.freeList = [] := by
  have hmem := getmem_full_iff h alloc hlt
  have hstk := getstk_full_iff h alloc hlt
  constructor
  · exact fun hfull => hmem.mp hfull.1
  · exact fun hcond => ⟨hmem.mpr hcond, hstk.mpr hcond⟩

end

/-!
## One free block
-/

theorem sampleMem_free (gap : Nat) :
    sampleMem.FreeList gap [{ start := 0x2000, size := 0x20000000 }] where
  ring := ⟨rfl, rfl, rfl, rfl⟩
  size := fun b hb => by
    cases List.mem_singleton.mp hb
    rfl
  spaced := spaced_singleton (by decide)
  pos := fun b hb => by
    cases List.mem_singleton.mp hb
    decide
  stop_le := fun b hb => by
    cases List.mem_singleton.mp hb
    decide
  head := fun b hb hin => by
    cases List.mem_singleton.mp hb
    exact absurd hin.1 (by decide)

theorem no_short_allocation_small :
    sampleMem.GetmemFull 0 40 ∧ sampleMem.GetstkFull 0 40 := by
  have hfree := sampleMem_free 0
  rw [← hfree.freeList_eq] at hfree
  exact (no_short_allocation_iff hfree 0 (by decide)).mpr (Or.inl (by decide))

/-- A request for all but 15 of the addresses is met. -/
theorem short_allocation :
    ¬ ∀ (m : Mem) (alloc nbytes : Nat), m.FreeList 0 m.freeList → nbytes < 4294967296 →
      m.GetmemFull alloc nbytes ∧ m.GetstkFull alloc nbytes := by
  intro hall
  have hfree := sampleMem_free 0
  have hlist := hfree.freeList_eq
  rw [← hlist] at hfree
  have hfull := (hall sampleMem 0 4294967281 hfree (by decide)).1
  cases (getmem_full_iff hfree 0 (by decide)).mp hfull with
  | inl hle => exact absurd hle (by decide)
  | inr hempty =>
      rw [hlist] at hempty
      cases hempty

end BbbXinu
