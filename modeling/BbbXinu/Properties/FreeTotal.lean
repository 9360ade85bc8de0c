import BbbXinu.Properties.FreedBlocks

/-!
# The total of free memory

Every call that succeeds moves {lit}`memlist.mlength` by the rounded size of the
block, as it moves the lengths on the list.  {lit}`meminit` puts the whole heap on
the list and leaves {lit}`memlist.mlength` alone.
-/

namespace BbbXinu

open Runs

def Mem.call (m : Mem) : HeapCall → Option Mem
  | .getmem alloc nbytes => some (m.getmem alloc nbytes).2
  | .getstk alloc nbytes => some (m.getstk alloc nbytes).2
  | .freemem blkaddr nbytes => some (m.freemem blkaddr nbytes).2
  | .freestk stkaddr nbytes => some (m.freestk stkaddr nbytes)
  | .write addr header => some (m.setBlock addr fun _ => header)

/-- The block does not run over the end of the addresses. -/
def Addressable (base nbytes : Nat) : Prop :=
  nbytes ≤ 4294967280 ∧ base + roundmb nbytes < 4294967296

/-- Any calls, with blocks that were handed out or not, and writes outside free
memory and the head of the list. -/
def Unspoilt (m : Mem) : HeapCall → Prop
  | .getmem _ nbytes | .getstk _ nbytes => nbytes < 4294967296
  | .freemem blkaddr nbytes => Addressable blkaddr nbytes
  | .freestk stkaddr nbytes => Addressable (uint32 (stkaddr - nbytes + 4)) nbytes
  | .write addr _ => addr ≠ m.memlist ∧ ∀ b ∈ m.freeList, addr < b.start ∨ b.stop ≤ addr

instance (base nbytes : Nat) : Decidable (Addressable base nbytes) := by
  unfold Addressable
  infer_instance

instance (m : Mem) (l : HeapCall) : Decidable (Unspoilt m l) := by
  induction l using HeapCall.casesOn <;> unfold Unspoilt <;> infer_instance

/-- {lit}`memlist.mlength` is the sum of the lengths of the free blocks. -/
def Mem.FreeTotal (m : Mem) : Prop := m.total = totalSize m.freeList

/-!
## The invariant
-/

/-- What {lit}`memlist.mlength` holds more than the free blocks, in 32 bits, has
not changed since it was {lit}`kept` beside {lit}`heap` free bytes. -/
structure Tallied (kept heap : Nat) (m : Mem) (L : List Span) : Prop where
  free : m.FreeList 1 L
  head : m.memlist < m.minheap
  above : ∀ b ∈ L, m.minheap ≤ b.start
  stop_lt : ∀ b ∈ L, b.stop < 4294967296
  total_lt : m.total < 4294967296
  tally : (m.total + heap) % 4294967296 = (kept + totalSize L) % 4294967296

section

variable {kept heap n gap : Nat} {m m' : Mem} {L L' : List Span} {a c : Span}

theorem getmem_bounds (alloc nbytes : Nat) : m.SameBounds (m.getmem alloc nbytes).2 := by
  have hrefl := Mem.SameBounds.refl m
  unfold Mem.getmem
  split
  · exact hrefl
  · dsimp only
    split
    · dsimp only
      exact ((hrefl.setBlock _ _).setBlock _ _).setBlock _ _
    · split
      · dsimp only
        exact (((((hrefl.setBlock _ _).setBlock _ _).setBlock _ _).setBlock _ _).setBlock
          _ _).setBlock _ _
      · exact hrefl

theorem getstk_bounds (alloc nbytes : Nat) : m.SameBounds (m.getstk alloc nbytes).2 := by
  have hrefl := Mem.SameBounds.refl m
  unfold Mem.getstk
  split
  · exact hrefl
  · dsimp only
    split
    · exact hrefl
    · split
      · dsimp only
        exact ((hrefl.setBlock _ _).setBlock _ _).setBlock _ _
      · dsimp only
        exact (hrefl.setBlock _ _).setBlock _ _

theorem Tallied.inside (h : Tallied kept heap m L) :
    spanBytes L ⊆ Set.Ico m.minheap 4294967295 := by
  apply (bytes_inside_iff h.free.spaced.size_pos).mp
  intro b hb
  have hlt := h.stop_lt b hb
  exact ⟨h.above b hb, by omega⟩

/-- The list changes to one with its blocks inside the same bounds. -/
theorem Tallied.next (h : Tallied kept heap m L) (hfree : m'.FreeList 1 L')
    (hbounds : m.SameBounds m') (hin : spanBytes L' ⊆ Set.Ico m.minheap 4294967295)
    (hlt : m'.total < 4294967296)
    (htally : (m'.total + totalSize L) % 4294967296 = (m.total + totalSize L') % 4294967296) :
    Tallied kept heap m' L' := by
  have hall := (bytes_inside_iff hfree.spaced.size_pos).mpr hin
  have htotal := h.tally
  constructor
  · exact hfree
  · rw [hbounds.memlist, hbounds.minheap]
    exact h.head
  · intro b hb
    rw [hbounds.minheap]
    exact (hall b hb).1
  · intro b hb
    have hle := (hall b hb).2
    omega
  · exact hlt
  · omega

theorem uint32_lt (x : Int) : uint32 x < 4294967296 := by
  unfold uint32
  omega

/-- A part of the free memory is taken. -/
theorem Tallied.take (h : Tallied kept heap m L) (htakes : m.Takes 1 L a m' L')
    (htotal : m'.total = uint32 (m.total - a.size)) : Tallied kept heap m' L' := by
  have hsub : spanBytes L' ⊆ spanBytes L := htakes.bytes ▸ Set.subset_union_right
  have hsize := h.free.spaced.totalSize_eq htakes.free.spaced htakes.bytes htakes.disjoint
  apply h.next htakes.free htakes.bounds (hsub.trans h.inside)
  · exact htotal ▸ uint32_lt _
  · rw [htotal, hsize]
    unfold uint32
    omega

/-- A request that is rounded to nothing takes nothing. -/
theorem Tallied.nothing (h : Tallied kept heap m L) (hfree : m'.FreeList 1 L)
    (hbounds : m.SameBounds m') (htotal : m'.total = uint32 (m.total - (0 : Nat))) :
    Tallied kept heap m' L := by
  have hlt := h.total_lt
  apply h.next hfree hbounds h.inside
  · exact htotal ▸ uint32_lt _
  · rw [htotal]
    unfold uint32
    omega

/-- Memory that was not free is put on the list. -/
theorem Tallied.give (h : Tallied kept heap m L) (hgives : m.Gives L c m' L')
    (hpos : 0 < c.size) (hlow : m.minheap ≤ c.start) (hstop : c.stop < 4294967296)
    (hapart : Disjoint c.bytes (spanBytes L)) (htotal : m'.total = uint32 (m.total + c.size)) :
    Tallied kept heap m' L' := by
  have hbytes : spanBytes L' = c.bytes ∪ spanBytes L := by
    rw [hgives.bytes, Set.union_comm]
  have hsize := hgives.free.spaced.totalSize_eq h.free.spaced hbytes hapart
  apply h.next hgives.free hgives.bounds
  · rw [hbytes]
    exact Set.union_subset ((bytes_subset_Ico hpos).mpr ⟨hlow, by omega⟩) h.inside
  · exact htotal ▸ uint32_lt _
  · rw [htotal, hsize]
    unfold uint32
    omega

/-!
## One call
-/

theorem Tallied.getmem (h : Tallied kept heap m L) (alloc n : Nat) :
    ∃ L', Tallied kept heap (m.getmem alloc n).2 L' := by
  by_cases hz : n = 0
  · rw [show m.getmem alloc n = (none, m) from if_pos hz]
    exact ⟨L, h⟩
  by_cases hround : 0 < roundmb n ∨ L = []
  · rcases getmem_ok h.free alloc hround with ⟨a, m', L', heq, htakes⟩ | ⟨heq, _⟩
    · have htotal := getmem_total h.free alloc heq
      rw [heq]
      exact ⟨L', h.take htakes htotal⟩
    · rw [heq]
      exact ⟨L, h⟩
  · rcases not_or.mp hround with ⟨hround, hL⟩
    have hzero := Nat.eq_zero_of_not_pos hround
    rcases getmem_nothing h.free alloc hz hzero hL with ⟨b, _, m', heq, hfree⟩
    have htotal := getmem_total h.free alloc heq
    have hbounds := getmem_bounds (m := m) alloc n
    rw [hzero] at htotal
    rw [heq] at hbounds ⊢
    exact ⟨L, h.nothing hfree hbounds htotal⟩

theorem Tallied.getstk (h : Tallied kept heap m L) (alloc n : Nat) :
    ∃ L', Tallied kept heap (m.getstk alloc n).2 L' := by
  by_cases hz : n = 0
  · rw [show m.getstk alloc n = (none, m) from if_pos hz]
    exact ⟨L, h⟩
  by_cases hround : 0 < roundmb n ∨ L = []
  · rcases getstk_ok h.free alloc hround with ⟨a, m', L', heq, htakes⟩ | ⟨heq, _⟩
    · have htotal := getstk_total h.free alloc heq
      rw [heq]
      exact ⟨L', h.take htakes htotal⟩
    · rw [heq]
      exact ⟨L, h⟩
  · rcases not_or.mp hround with ⟨hround, hL⟩
    have hzero := Nat.eq_zero_of_not_pos hround
    rcases getstk_nothing h.free alloc hz hzero hL with ⟨b, _, m', heq, hfree⟩
    have htotal := getstk_total h.free alloc heq
    have hbounds := getstk_bounds (m := m) alloc n
    rw [hzero] at htotal
    rw [heq] at hbounds ⊢
    exact ⟨L, h.nothing hfree hbounds htotal⟩

theorem Tallied.freemem (h : Tallied kept heap m L) {base : Nat} (henv : Addressable base n) :
    ∃ L', Tallied kept heap (m.freemem base n).2 L' := by
  by_cases hout : n = 0 ∨ base < m.minheap ∨ m.maxheap < base
  · rw [show m.freemem base n = (SYSERR, m) from if_pos hout]
    exact ⟨L, h⟩
  rcases not_or.mp hout with ⟨hz, hin⟩
  have hlow : m.minheap ≤ base := by omega
  have hhead : m.memlist < base := Nat.lt_of_lt_of_le h.head hlow
  have hpos := roundmb_pos (Nat.pos_of_ne_zero hz) henv.1
  rcases freemem_cases (c := { start := base, size := roundmb n }) h.free hz rfl hpos hhead
    henv.2 (fun b hb _ => h.stop_lt b hb) with heq | ⟨m', L', heq, hapart, hgives, htotal⟩
  · rw [show m.freemem base n = _ from heq]
    exact ⟨L, h⟩
  · rw [show m.freemem base n = _ from heq]
    exact ⟨L', h.give hgives hpos hlow henv.2 hapart htotal⟩

theorem Tallied.freestk (h : Tallied kept heap m L) {stkaddr : Nat}
    (henv : Addressable (uint32 (stkaddr - n + 4)) n) :
    ∃ L', Tallied kept heap (m.freestk stkaddr n) L' := by
  by_cases hout : n = 0 ∨ uint32 (stkaddr - n + 4) < m.minheap ∨
      m.maxheap < uint32 (stkaddr - n + 4)
  · rw [show m.freestk stkaddr n = m from if_pos hout]
    exact ⟨L, h⟩
  rcases not_or.mp hout with ⟨hz, hin⟩
  have hlow : m.minheap ≤ uint32 (stkaddr - n + 4) := by omega
  have hhead := Nat.lt_of_lt_of_le h.head hlow
  have hpos := roundmb_pos (Nat.pos_of_ne_zero hz) henv.1
  rcases freestk_cases (c := { start := uint32 (stkaddr - n + 4), size := roundmb n }) h.free hz
    rfl rfl hpos hhead henv.2 (fun b hb _ => h.stop_lt b hb) with
    ⟨heq, _⟩ | ⟨L', hapart, hgives, htotal⟩
  · rw [heq]
    exact ⟨L, h⟩
  · exact ⟨L', h.give hgives hpos hlow henv.2 hapart htotal⟩

/-- A write elsewhere changes no header that the allocator reads. -/
theorem Mem.FreeList.write (h : m.FreeList gap L) {addr : Nat} (header : Memblk)
    (hhead : addr ≠ m.memlist) (hout : ∀ b ∈ L, addr ∉ b.bytes) :
    (m.setBlock addr fun _ => header).FreeList gap L := by
  have hother : ∀ y ∈ m.memlist :: L.map Span.start,
      (m.setBlock addr fun _ => header).block y = m.block y := by
    intro y hy
    apply if_neg
    rintro rfl
    cases List.mem_cons.mp hy with
    | inl hy => exact hhead hy
    | inr hy =>
        rcases List.mem_map.mp hy with ⟨b, hb, rfl⟩
        exact hout b hb (start_mem_bytes (h.spaced.size_pos b hb))
  refine { h with ring := ?_, size := ?_ }
  · apply h.ring.congr
    · intro y hy
      unfold Mem.nexts
      rw [hother y hy]
    · intro y hy
      unfold Mem.prevs
      rw [hother y (by simpa [or_comm] using hy)]
  · intro b hb
    rw [hother b.start (List.mem_cons_of_mem _ (List.mem_map_of_mem hb))]
    exact h.size b hb

theorem Tallied.step (h : Tallied kept heap m L) {l : HeapCall} (henv : Unspoilt m l)
    (hstep : m.call l = some m') : ∃ L', Tallied kept heap m' L' := by
  cases l with
  | getmem alloc nbytes =>
      cases hstep
      exact h.getmem alloc nbytes
  | getstk alloc nbytes =>
      cases hstep
      exact h.getstk alloc nbytes
  | freemem blkaddr nbytes =>
      cases hstep
      exact h.freemem henv
  | freestk stkaddr nbytes =>
      cases hstep
      exact h.freestk henv
  | write addr header =>
      cases hstep
      rcases henv with ⟨hhead, hout⟩
      rw [h.free.freeList_eq] at hout
      have hfree := h.free.write header hhead fun b hb hin => by
        have hlt := hin.1
        have hle := hin.2
        have hcase := hout b hb
        omega
      have htotal : (m.setBlock addr fun _ => header).total = m.total := by
        unfold Mem.total Mem.setBlock
        dsimp only
        rw [upd_apply, if_neg hhead.symm]
      apply Exists.intro L
      apply h.next hfree ⟨rfl, rfl, rfl⟩ h.inside
      · exact htotal ▸ h.total_lt
      · rw [htotal]

/-!
## Runs
-/

theorem tallied_meminit (hm : m.Placed) (hlen : m.total < 4294967296) :
    Tallied m.total (m.maxheap - m.minheap) m.meminit
      [{ start := m.minheap, size := m.maxheap - m.minheap }] := by
  have hhead := hm.head
  have hlt := hm.nonempty
  have hmax := hm.max
  have hok := heapOk_meminit (m := m) (by omega) hlt (by omega)
  have hne : m.memlist ≠ m.minheap := by omega
  have htotal : m.meminit.total = m.total := by
    simp [Mem.meminit, Mem.total, Mem.setBlock, upd_apply, hne]
  constructor
  · exact hok.free
  · exact hok.head
  · intro b hb
    cases List.mem_singleton.mp hb
    exact Nat.le_refl _
  · intro b hb
    cases List.mem_singleton.mp hb
    unfold Span.stop
    dsimp only
    omega
  · exact htotal ▸ hlen
  · rw [htotal]
    rfl

/-- {lit}`memlist.mlength` is right in any state, and then in all states, if and
only if it held the size of the heap before {lit}`meminit`. -/
theorem free_total_iff (hm : m.Placed) (hlen : m.total < 4294967296)
    (h : Reach Mem.call Unspoilt (Eq m.meminit) m') :
    m'.FreeTotal ↔ m.total = m.maxheap - m.minheap := by
  have hok : ∃ L, Tallied m.total (m.maxheap - m.minheap) m' L := by
    apply h.invariant
    · rintro t rfl
      exact ⟨_, tallied_meminit hm hlen⟩
    · intro t l t' _ hok henv hstep
      rcases hok with ⟨L, hok⟩
      exact hok.step henv hstep
  rcases hok with ⟨L, hok⟩
  have hmax := hm.max
  have hsum := hok.free.spaced.totalSize_le hok.inside
  have hlt := hok.total_lt
  have htally := hok.tally
  unfold Mem.FreeTotal
  rw [hok.free.freeList_eq]
  constructor
  · intro heq
    omega
  · intro heq
    omega

end

/-- A kernel whose {lit}`memlist` was set up beforehand. -/
def presetMem : Mem := sampleMem.setBlock sampleMem.memlist fun b => { b with mlength := 0x20000000 }

theorem free_total_preset :
    ∃ m : Mem, m.freeList = [{ start := 0x2000, size := 0x20000000 - 112 }] ∧ m.FreeTotal := by
  have hplaced : presetMem.Placed := ⟨by decide, by decide, by decide, by decide⟩
  rcases exists_reach_of_follow Mem.call Unspoilt
    (show Eq presetMem.meminit presetMem.meminit from rfl)
    [.getmem 0 40, .getstk 0 100, .freemem 0x2000 40, .freemem 0x3000 8]
    (fun m => m.freeList = [{ start := 0x2000, size := 0x20000000 - 112 }])
    (by decide +kernel) with ⟨m, hm, hlist⟩
  exact ⟨m, hlist, (free_total_iff hplaced (by decide) hm).mpr (by decide)⟩

/-- The memory that the kernel starts with holds zero there. -/
theorem free_total_wrong :
    ¬ ∀ m m' : Mem, m.Placed → m.total = 0 → Reach Mem.call Unspoilt (Eq m.meminit) m' →
      m'.FreeTotal := by
  intro hall
  have htotal := hall sampleMem sampleMem.meminit sampleMem_placed rfl (Reach.init rfl)
  have hwrong : sampleMem.meminit.total ≠ totalSize sampleMem.meminit.freeList := by decide +kernel
  exact hwrong htotal

end BbbXinu
