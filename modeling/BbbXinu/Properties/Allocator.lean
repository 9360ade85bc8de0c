import BbbXinu.Invariant.Coalesce
import BbbXinu.Properties.ShortBlocks
import Mathlib.Order.Interval.Set.LinearOrder

/-!
# The allocator

Runs of {lit}`getmem`, {lit}`getstk`, {lit}`freemem` and {lit}`freestk`, with the
blocks that are allocated kept beside the memory.  Whoever holds a block may
write anything into it.
-/

namespace BbbXinu

open LinkedLists Runs

/-!
## The machine
-/

structure Heap where
  mem : Mem
  allocated : List Span

/-- The calls of the allocator, with the value of {lit}`EV_MEMALLOC` where it
matters, and a write into memory. -/
inductive HeapCall where
  | getmem (alloc nbytes : Nat)
  | getstk (alloc nbytes : Nat)
  | freemem (blkaddr nbytes : Nat)
  | freestk (stkaddr nbytes : Nat)
  | write (addr : Nat) (header : Memblk)

/-- The block that a stack address and a size stand for. -/
def stackSpan (stkaddr nbytes : Nat) : Span :=
  { start := stkaddr + 4 - nbytes, size := nbytes }

def Heap.step (t : Heap) : HeapCall → Option Heap
  | .getmem alloc nbytes =>
      match t.mem.getmem alloc nbytes with
      | (some a, m) => some ⟨m, { start := a, size := nbytes } :: t.allocated⟩
      | (none, m) => some ⟨m, t.allocated⟩
  | .getstk alloc nbytes =>
      match t.mem.getstk alloc nbytes with
      | (some a, m) => some ⟨m, stackSpan a nbytes :: t.allocated⟩
      | (none, m) => some ⟨m, t.allocated⟩
  | .freemem blkaddr nbytes =>
      let r := t.mem.freemem blkaddr nbytes
      if r.1 = OK then some ⟨r.2, t.allocated.erase { start := blkaddr, size := nbytes }⟩
      else some ⟨r.2, t.allocated⟩
  | .freestk stkaddr nbytes =>
      some ⟨t.mem.freestk stkaddr nbytes, t.allocated.erase (stackSpan stkaddr nbytes)⟩
  | .write addr header => some ⟨t.mem.setBlock addr fun _ => header, t.allocated⟩

/-- Sizes are multiples of 16 below 2^31, and only allocated blocks are freed or
written to. -/
def HeapCalls (t : Heap) : HeapCall → Prop
  | .getmem _ nbytes | .getstk _ nbytes => nbytes % 16 = 0 ∧ nbytes < 2147483648
  | .freemem blkaddr nbytes => { start := blkaddr, size := nbytes } ∈ t.allocated
  | .freestk stkaddr nbytes => nbytes ≤ stkaddr + 4 ∧ stackSpan stkaddr nbytes ∈ t.allocated
  | .write addr _ => ∃ a ∈ t.allocated, a.start ≤ addr ∧ addr < a.stop

instance (t : Heap) (l : HeapCall) : Decidable (HeapCalls t l) := by
  induction l using HeapCall.casesOn <;> unfold HeapCalls <;> infer_instance

/-- One free heap, aligned to 16 bytes, as {lit}`meminit` leaves it. -/
def FreshHeap (t : Heap) : Prop :=
  ∃ m : Mem, m.memlist < m.minheap ∧ m.minheap < m.maxheap ∧ m.maxheap < 4294967296 ∧
    m.minheap % 16 = 0 ∧ m.maxheap % 16 = 0 ∧ t = ⟨m.meminit, []⟩

/-- The free list is linked both ways in order of addresses, joined wherever
blocks touch, and apart from the allocated blocks, which are apart from each
other. -/
structure HeapSound (t : Heap) : Prop where
  ring : Seg t.mem.nexts t.mem.prevs t.mem.memlist (t.mem.freeList.map Span.start) t.mem.memlist
  size_pos : ∀ b ∈ t.mem.freeList, 0 < b.size
  sorted : (t.mem.freeList.map Span.start).Pairwise (· < ·)
  coalesced : t.mem.freeList.Pairwise fun a b => a.stop < b.start
  inverse : ∀ x ∈ t.mem.memlist :: t.mem.freeList.map Span.start,
    t.mem.prevs (t.mem.nexts x) = x ∧ t.mem.nexts (t.mem.prevs x) = x
  allocated : t.allocated.Pairwise fun a b => Disjoint a.bytes b.bytes
  apart : ∀ a ∈ t.allocated, ∀ b ∈ t.mem.freeList, Disjoint a.bytes b.bytes

/-!
## The invariant
-/

/-- The free list and the allocated blocks share out the heap. -/
structure HeapOk (t : Heap) (L : List Span) : Prop where
  free : t.mem.FreeList 1 L
  head : t.mem.memlist < t.mem.minheap
  max : t.mem.maxheap < 4294967296
  inside : spanBytes L ⊆ Set.Ico t.mem.minheap t.mem.maxheap
  size : ∀ a ∈ t.allocated, 0 < a.size ∧ roundmb a.size = a.size
  held : ∀ a ∈ t.allocated, a.bytes ⊆ Set.Ico t.mem.minheap t.mem.maxheap
  apart : t.allocated.Pairwise fun a b => Disjoint a.bytes b.bytes
  taken : ∀ a ∈ t.allocated, Disjoint a.bytes (spanBytes L)

/-- Every byte of the heap is free or allocated. -/
structure HeapFull (t : Heap) (L : List Span) : Prop where
  lt : t.mem.minheap < t.mem.maxheap
  bytes : spanBytes t.allocated ∪ spanBytes L = Set.Ico t.mem.minheap t.mem.maxheap

section

variable {t t' : Heap} {m : Mem} {L L' : List Span} {a : Span} {n : Nat}

theorem roundmb_eq (h : n % 16 = 0) (hlt : n < 2147483648) : roundmb n = n :=
  roundmb_units h (by omega)

theorem heapOk_meminit (hhead : m.memlist < m.minheap) (hmin : m.minheap < m.maxheap)
    (hmax : m.maxheap < 4294967296) :
    HeapOk ⟨m.meminit, []⟩ [{ start := m.minheap, size := m.maxheap - m.minheap }] := by
  have hne : m.minheap ≠ m.memlist := Nat.ne_of_gt hhead
  have hstop : ({ start := m.minheap, size := m.maxheap - m.minheap } : Span).stop =
      m.maxheap := Nat.add_sub_cancel' (Nat.le_of_lt hmin)
  have hlen : uint32 (m.maxheap - m.minheap) = m.maxheap - m.minheap := by
    unfold uint32
    omega
  constructor
  · constructor
    · refine ⟨?_, ?_, ?_, ?_⟩ <;>
        simp [Mem.meminit, Mem.nexts, Mem.prevs, Mem.setBlock, upd_apply, hne, hne.symm]
    · intro b hb
      cases List.mem_singleton.mp hb
      simp [Mem.meminit, Mem.setBlock, upd_apply, hlen]
    · apply spaced_singleton
      dsimp only
      omega
    · intro b hb
      cases List.mem_singleton.mp hb
      dsimp only
      omega
    · intro b hb
      cases List.mem_singleton.mp hb
      rw [hstop]
      omega
    · intro b hb hin
      cases List.mem_singleton.mp hb
      exact absurd hin.1 (Nat.not_le_of_lt hhead)
  · exact hhead
  · exact hmax
  · rw [spanBytes_singleton]
    exact Set.Ico_subset_Ico_right (Nat.le_of_eq hstop)
  · intro a ha
    cases ha
  · intro a ha
    cases ha
  · exact List.Pairwise.nil
  · intro a ha
    cases ha

theorem heapOk_fresh (h : FreshHeap t) : ∃ L, HeapOk t L := by
  rcases h with ⟨m, hhead, hmin, hmax, _, _, rfl⟩
  exact ⟨_, heapOk_meminit hhead hmin hmax⟩

theorem bytes_subset_Ico {lo hi : Nat} (h : 0 < a.size) :
    a.bytes ⊆ Set.Ico lo hi ↔ lo ≤ a.start ∧ a.stop ≤ hi :=
  Set.Ico_subset_Ico_iff (Nat.lt_add_of_pos_right h)

/-- Where the ranges lie, as a set of addresses. -/
theorem bytes_inside_iff {lo hi : Nat} (hs : ∀ b ∈ L, 0 < b.size) :
    (∀ b ∈ L, lo ≤ b.start ∧ b.stop ≤ hi) ↔ spanBytes L ⊆ Set.Ico lo hi := by
  constructor
  · intro hall x hx
    rcases hx with ⟨b, hb, hx⟩
    exact ⟨Nat.le_trans (hall b hb).1 hx.1, Nat.lt_of_lt_of_le hx.2 (hall b hb).2⟩
  · intro hsub b hb
    apply (bytes_subset_Ico (hs b hb)).mp
    exact fun x hx => hsub ⟨b, hb, hx⟩

/-- A block in the hands of a process can be freed. -/
theorem HeapOk.freeable (h : HeapOk t L) (ha : a ∈ t.allocated) : t.mem.Freeable L a where
  size_pos := (h.size a ha).1
  round := (h.size a ha).2
  low := ((bytes_subset_Ico (h.size a ha).1).mp (h.held a ha)).1
  high := ((bytes_subset_Ico (h.size a ha).1).mp (h.held a ha)).2
  apart := h.taken a ha
  head := h.head
  max := h.max

/-- The order of the allocated blocks does not matter. -/
theorem HeapOk.perm {A A' : List Span} (h : HeapOk ⟨m, A⟩ L) (hp : A.Perm A') :
    HeapOk ⟨m, A'⟩ L where
  free := h.free
  head := h.head
  max := h.max
  inside := h.inside
  size := fun a ha => h.size a (hp.mem_iff.mpr ha)
  held := fun a ha => h.held a (hp.mem_iff.mpr ha)
  apart := (hp.pairwise_iff fun {_ _} hab => hab.symm).mp h.apart
  taken := fun a ha => h.taken a (hp.mem_iff.mpr ha)

/-- A part of a free block is handed out. -/
theorem HeapOk.take (h : HeapOk t L) (htakes : t.mem.Takes 1 L a m L') (hpos : 0 < a.size)
    (hround : roundmb a.size = a.size) : HeapOk ⟨m, a :: t.allocated⟩ L' := by
  have hb := htakes.bounds
  have hsub : spanBytes L' ⊆ spanBytes L := htakes.bytes ▸ Set.subset_union_right
  have haL : a.bytes ⊆ spanBytes L := htakes.bytes ▸ Set.subset_union_left
  constructor
  · exact htakes.free
  · rw [hb.memlist, hb.minheap]
    exact h.head
  · rw [hb.maxheap]
    exact h.max
  · rw [hb.minheap, hb.maxheap]
    exact hsub.trans h.inside
  · intro c hc
    cases List.mem_cons.mp hc with
    | inl hc => exact hc ▸ ⟨hpos, hround⟩
    | inr hc => exact h.size c hc
  · intro c hc
    rw [hb.minheap, hb.maxheap]
    cases List.mem_cons.mp hc with
    | inl hc => exact hc ▸ haL.trans h.inside
    | inr hc => exact h.held c hc
  · apply List.pairwise_cons.mpr
    refine ⟨?_, h.apart⟩
    intro c hc
    exact ((h.taken c hc).mono_right haL).symm
  · intro c hc
    cases List.mem_cons.mp hc with
    | inl hc => exact hc ▸ htakes.disjoint
    | inr hc => exact (h.taken c hc).mono_right hsub

/-- An allocated block is put back. -/
theorem HeapOk.give {rest : List Span} (h : HeapOk t L) (hperm : t.allocated.Perm (a :: rest))
    (hgives : t.mem.Gives L a m L') : HeapOk ⟨m, rest⟩ L' := by
  have hb := hgives.bounds
  have ha : a ∈ t.allocated := hperm.mem_iff.mpr List.mem_cons_self
  have hmem : ∀ c ∈ rest, c ∈ t.allocated := fun c hc =>
    hperm.mem_iff.mpr (List.mem_cons_of_mem a hc)
  have hsymm : ∀ {b c : Span}, Disjoint b.bytes c.bytes → Disjoint c.bytes b.bytes :=
    fun hbc => hbc.symm
  have hpair := (hperm.pairwise_iff hsymm).mp h.apart
  rcases List.pairwise_cons.mp hpair with ⟨hfirst, hrest⟩
  constructor
  · exact hgives.free
  · rw [hb.memlist, hb.minheap]
    exact h.head
  · rw [hb.maxheap]
    exact h.max
  · rw [hb.minheap, hb.maxheap, hgives.bytes]
    exact Set.union_subset h.inside (h.held a ha)
  · exact fun c hc => h.size c (hmem c hc)
  · intro c hc
    rw [hb.minheap, hb.maxheap]
    exact h.held c (hmem c hc)
  · exact hrest
  · intro c hc
    rw [hgives.bytes]
    exact Set.disjoint_union_right.mpr ⟨h.taken c (hmem c hc), (hfirst c hc).symm⟩

/-- Writing into an allocated block changes no header of a free block. -/
theorem HeapOk.write (h : HeapOk t L) {addr : Nat} {header : Memblk} (ha : a ∈ t.allocated)
    (hin : addr ∈ a.bytes) : HeapOk ⟨t.mem.setBlock addr fun _ => header, t.allocated⟩ L := by
  have hhead : t.mem.memlist ≠ addr := by
    have hlow := (h.held a ha hin).1
    have hmin := h.head
    omega
  have hother : ∀ y ∈ t.mem.memlist :: L.map Span.start,
      (t.mem.setBlock addr fun _ => header).block y = t.mem.block y := by
    intro y hy
    apply if_neg
    cases List.mem_cons.mp hy with
    | inl hy => exact hy ▸ hhead
    | inr hy =>
        rcases List.mem_map.mp hy with ⟨b, hb, rfl⟩
        intro he
        apply Set.disjoint_left.mp (h.taken a ha) hin
        exact ⟨b, hb, he ▸ start_mem_bytes (h.free.spaced.size_pos b hb)⟩
  have hfree : (t.mem.setBlock addr fun _ => header).FreeList 1 L := by
    refine { h.free with ring := ?_, size := ?_ }
    · apply h.free.ring.congr
      · intro y hy
        unfold Mem.nexts
        rw [hother y hy]
      · intro y hy
        unfold Mem.prevs
        rw [hother y (by simpa [or_comm] using hy)]
    · intro b hb
      rw [hother b.start (List.mem_cons_of_mem _ (List.mem_map_of_mem hb))]
      exact h.free.size b hb
  exact { h with free := hfree }

theorem HeapFull.take (h : HeapFull t L) (htakes : t.mem.Takes 1 L a m L') :
    HeapFull ⟨m, a :: t.allocated⟩ L' := by
  have hb := htakes.bounds
  constructor
  · rw [hb.minheap, hb.maxheap]
    exact h.lt
  · rw [hb.minheap, hb.maxheap, ← h.bytes, htakes.bytes, spanBytes_cons, Set.union_assoc]
    exact Set.union_left_comm _ _ _

theorem HeapFull.give (h : HeapFull t L) (hperm : t.allocated.Perm (a :: rest))
    (hgives : t.mem.Gives L a m L') : HeapFull ⟨m, rest⟩ L' := by
  have hb := hgives.bounds
  have hall : spanBytes t.allocated = a.bytes ∪ spanBytes rest := by
    rw [← spanBytes_cons]
    unfold spanBytes
    simp only [hperm.mem_iff]
  constructor
  · rw [hb.minheap, hb.maxheap]
    exact h.lt
  · rw [hb.minheap, hb.maxheap, ← h.bytes, hall, hgives.bytes, ← Set.union_assoc,
      Set.union_comm _ a.bytes, Set.union_assoc]

theorem HeapOk.step_full (h : HeapOk t L) {l : HeapCall} (henv : HeapCalls t l)
    (hstep : t.step l = some t') : ∃ L', HeapOk t' L' ∧ (HeapFull t L → HeapFull t' L') := by
  cases l with
  | getmem alloc nbytes =>
      have hround := roundmb_eq henv.1 henv.2
      unfold Heap.step at hstep
      dsimp only at hstep
      by_cases hz : nbytes = 0
      · have hnone : t.mem.getmem alloc nbytes = (none, t.mem) := if_pos hz
        rw [hnone] at hstep
        cases hstep
        exact ⟨L, h, id⟩
      have hpos := Nat.pos_of_ne_zero hz
      rcases getmem_ok h.free alloc (Or.inl (hround.symm ▸ hpos)) with
        ⟨a, m, L', heq, htakes⟩ | ⟨heq, _⟩
      · rw [heq] at hstep
        cases hstep
        rw [hround] at htakes
        exact ⟨L', h.take htakes hpos hround, fun hf => hf.take htakes⟩
      · rw [heq] at hstep
        cases hstep
        exact ⟨L, h, id⟩
  | getstk alloc nbytes =>
      have hround := roundmb_eq henv.1 henv.2
      unfold Heap.step at hstep
      dsimp only at hstep
      by_cases hz : nbytes = 0
      · have hnone : t.mem.getstk alloc nbytes = (none, t.mem) := if_pos hz
        rw [hnone] at hstep
        cases hstep
        exact ⟨L, h, id⟩
      have hpos := Nat.pos_of_ne_zero hz
      rcases getstk_ok h.free alloc (Or.inl (hround.symm ▸ hpos)) with
        ⟨a, m, L', heq, htakes⟩ | ⟨heq, _⟩
      · rw [heq] at hstep
        cases hstep
        rw [hround] at htakes ⊢
        have hspan : stackSpan (uint32 (a + nbytes - 4)) nbytes =
            { start := a, size := nbytes } := by
          have haL : ({ start := a, size := nbytes } : Span).bytes ⊆ spanBytes L :=
            htakes.bytes ▸ Set.subset_union_left
          have hin := (bytes_subset_Ico (a := { start := a, size := nbytes }) hpos).mp
            (haL.trans h.inside)
          have hmax := h.max
          have hmod := henv.1
          unfold Span.stop at hin
          unfold stackSpan uint32
          dsimp only at hin
          congr 1
          omega
        rw [hspan]
        exact ⟨L', h.take htakes hpos hround, fun hf => hf.take htakes⟩
      · rw [heq] at hstep
        cases hstep
        exact ⟨L, h, id⟩
  | freemem blkaddr nbytes =>
      unfold Heap.step at hstep
      dsimp only at hstep
      cases freemem_ok h.free (h.freeable henv) with
      | inl heq =>
          rw [heq] at hstep
          cases hstep
          exact ⟨L, h, id⟩
      | inr hok =>
          rcases hok with ⟨m, L', heq, hgives⟩
          rw [heq] at hstep
          cases hstep
          have hperm := List.perm_cons_erase henv
          exact ⟨L', h.give hperm hgives, fun hf => hf.give hperm hgives⟩
  | freestk stkaddr nbytes =>
      cases hstep
      have hstk : stkaddr + 4 = (stackSpan stkaddr nbytes).start + nbytes :=
        (Nat.sub_add_cancel henv.1).symm
      rcases freestk_ok h.free (h.size _ henv.2).2.symm (h.freeable henv.2) hstk with ⟨L', hgives⟩
      have hperm := List.perm_cons_erase henv.2
      exact ⟨L', h.give hperm hgives, fun hf => hf.give hperm hgives⟩
  | write addr header =>
      cases hstep
      rcases henv with ⟨a, ha, hin⟩
      exact ⟨L, h.write ha hin, fun hf => ⟨hf.lt, hf.bytes⟩⟩

theorem HeapOk.step (h : HeapOk t L) {l : HeapCall} (henv : HeapCalls t l)
    (hstep : t.step l = some t') : ∃ L', HeapOk t' L' := by
  rcases h.step_full henv hstep with ⟨L', h', -⟩
  exact ⟨L', h'⟩

/-- Every reachable heap is in order, whatever the fit. -/
theorem heap_sound (h : Reach Heap.step HeapCalls FreshHeap t) : HeapSound t := by
  have hok : ∃ L, HeapOk t L := by
    apply h.invariant
    · exact fun t ht => heapOk_fresh ht
    · intro t l t' _ hok henv hstep
      rcases hok with ⟨L, hok⟩
      exact hok.step henv hstep
  rcases hok with ⟨L, hok⟩
  have hL := hok.free.freeList_eq
  constructor
  · rw [hL]
    exact hok.free.ring
  · rw [hL]
    exact hok.free.spaced.size_pos
  · rw [hL]
    exact hok.free.spaced.starts
  · rw [hL]
    exact hok.free.spaced.ascending
  · intro x hx
    rw [hL] at hx
    constructor
    · exact hok.free.ring.prev_next hx
    · apply hok.free.ring.next_prev
      simpa [or_comm] using hx
  · exact hok.apart
  · rw [hL]
    exact fun a ha => disjoint_spanBytes.mp (hok.taken a ha)

/-- No byte of a reachable heap is lost, and when nothing is allocated any more the free list is
one block again. -/
theorem heap_full (h : Reach Heap.step HeapCalls FreshHeap t) :
    spanBytes t.allocated ∪ spanBytes t.mem.freeList = Set.Ico t.mem.minheap t.mem.maxheap ∧
      (t.allocated = [] → t.mem.freeList =
        [{ start := t.mem.minheap, size := t.mem.maxheap - t.mem.minheap }]) := by
  have hok : ∃ L, HeapOk t L ∧ HeapFull t L := by
    apply h.invariant
    · rintro t ⟨m, hhead, hmin, hmax, -, -, rfl⟩
      refine ⟨_, heapOk_meminit hhead hmin hmax, hmin, ?_⟩
      rw [spanBytes_nil, Set.empty_union, spanBytes_singleton]
      exact congrArg (Set.Ico m.minheap) (Nat.add_sub_cancel' (Nat.le_of_lt hmin))
    · rintro t l t' - ⟨L, hok, hfull⟩ henv hstep
      rcases hok.step_full henv hstep with ⟨L', hok', hkeeps⟩
      exact ⟨L', hok', hkeeps hfull⟩
  rcases hok with ⟨L, hok, hlt, hbytes⟩
  rw [hok.free.freeList_eq]
  refine ⟨hbytes, fun hnone => hok.free.spaced.eq_singleton hlt ?_⟩
  rwa [hnone, spanBytes_nil, Set.empty_union] at hbytes

end

/-- Three blocks are taken, and the middle one is freed and its place written
to before. -/
theorem heap_sound_run :
    ∃ t : Heap, (t.mem.freeList =
        [{ start := 0x2020, size := 64 }, { start := 0x2090, size := 0x20000000 - 0xD0 }] ∧
      t.allocated = [{ start := 0x20001FC0, size := 64 }, { start := 0x2060, size := 48 },
        { start := 0x2000, size := 32 }]) ∧ HeapSound t := by
  have hfresh : FreshHeap ⟨sampleMem.meminit, []⟩ :=
    ⟨sampleMem, by decide, by decide, by decide, by decide, by decide, rfl⟩
  rcases exists_reach_of_follow Heap.step HeapCalls hfresh
    [.getmem 0 32, .getmem 1 64, .getmem 0 48, .getstk 1 64,
      .write 0x2020 { mnext := 1, mlength := 2, mprev := 3 }, .freemem 0x2020 64]
    (fun t => t.mem.freeList =
        [{ start := 0x2020, size := 64 }, { start := 0x2090, size := 0x20000000 - 0xD0 }] ∧
      t.allocated = [{ start := 0x20001FC0, size := 64 }, { start := 0x2060, size := 48 },
        { start := 0x2000, size := 32 }])
    (by decide +kernel) with ⟨t, ht, hp⟩
  exact ⟨t, hp, heap_sound ht⟩

/-- Two blocks are taken, and both are freed. -/
theorem heap_full_run : ∃ t : Heap, t.allocated = [] ∧
    t.mem.freeList = [{ start := t.mem.minheap, size := t.mem.maxheap - t.mem.minheap }] := by
  have hfresh : FreshHeap ⟨sampleMem.meminit, []⟩ :=
    ⟨sampleMem, by decide, by decide, by decide, by decide, by decide, rfl⟩
  rcases exists_reach_of_follow Heap.step HeapCalls hfresh
    [.getmem 0 32, .getmem 1 64, .freemem 0x2000 32, .freemem 0x2020 64]
    (fun t => t.allocated = []) (by decide +kernel) with ⟨t, ht, hnone⟩
  exact ⟨t, hnone, (heap_full ht).2 hnone⟩

end BbbXinu
