import BbbXinu.Properties.Allocator

/-!
# Freeing what was handed out

{lit}`freemem` rounds the size it is given as {lit}`getmem` does, and compares the
end of the block with the free block behind it.  At the end of the list that is
{lit}`memlist`, which lies below the heap and is not {lit}`NULL`.
-/

namespace BbbXinu

open Runs

/-- Where the linker and the board put the heap. -/
structure Mem.Placed (m : Mem) : Prop where
  head_pos : 0 < m.memlist
  head : m.memlist + 16 ≤ m.minheap
  nonempty : m.minheap < m.maxheap
  max : m.maxheap + 16 ≤ 4294967296

/-- The memory with the blocks and the stacks that are handed out, each under the
size that was asked for. -/
structure Tenants where
  mem : Mem
  blocks : List Span
  stkblocks : List (Nat × Nat)

/-- What is taken for a block. -/
def blockRoom (a : Span) : Span := { start := a.start, size := roundmb a.size }

/-- What is taken for a stack. -/
def stackRoom (s : Nat × Nat) : Span := stackSpan s.1 (roundmb s.2)

def Tenants.rooms (t : Tenants) : List Span :=
  t.blocks.map blockRoom ++ t.stkblocks.map stackRoom

def Tenants.step (t : Tenants) : HeapCall → Option Tenants
  | .getmem alloc nbytes =>
      match t.mem.getmem alloc nbytes with
      | (some a, m) => some { t with mem := m, blocks := { start := a, size := nbytes } :: t.blocks }
      | (none, m) => some { t with mem := m }
  | .getstk alloc nbytes =>
      match t.mem.getstk alloc nbytes with
      | (some a, m) => some { t with mem := m, stkblocks := (a, nbytes) :: t.stkblocks }
      | (none, m) => some { t with mem := m }
  | .freemem blkaddr nbytes =>
      let r := t.mem.freemem blkaddr nbytes
      if r.1 = OK then
        some { t with mem := r.2, blocks := t.blocks.erase { start := blkaddr, size := nbytes } }
      else some { t with mem := r.2 }
  | .freestk stkaddr nbytes =>
      some { t with
        mem := t.mem.freestk stkaddr nbytes
        stkblocks := t.stkblocks.erase (stkaddr, nbytes) }
  | .write addr header => some { t with mem := t.mem.setBlock addr fun _ => header }

/-- Requests that can be rounded up are made, what was handed out is freed under
its size, stacks only where the size is in whole units, and nothing else is
written to. -/
def TenantCalls (t : Tenants) : HeapCall → Prop
  | .getmem _ nbytes | .getstk _ nbytes => nbytes ≤ 4294967280
  | .freemem blkaddr nbytes => { start := blkaddr, size := nbytes } ∈ t.blocks
  | .freestk stkaddr nbytes => (stkaddr, nbytes) ∈ t.stkblocks ∧ nbytes % 16 = 0
  | .write addr _ => ∃ a ∈ t.rooms, a.start ≤ addr ∧ addr < a.stop

instance (t : Tenants) (l : HeapCall) : Decidable (TenantCalls t l) := by
  induction l using HeapCall.casesOn <;> unfold TenantCalls <;> infer_instance

/-- The memory after {lit}`meminit`. -/
def Vacant (t : Tenants) : Prop := ∃ m : Mem, m.Placed ∧ t = ⟨m.meminit, [], []⟩

/-- {lit}`freemem` returns {lit}`OK`, and all of the block is free. -/
def Tenants.CanFree (t : Tenants) (a : Span) : Prop :=
  (t.mem.freemem a.start a.size).1 = OK ∧
    (blockRoom a).bytes ⊆ spanBytes (t.mem.freemem a.start a.size).2.freeList

/-!
## The invariant
-/

structure TenantsOk (t : Tenants) (L : List Span) : Prop where
  heap : HeapOk ⟨t.mem, t.rooms⟩ L
  head_pos : 0 < t.mem.memlist
  blocks : ∀ a ∈ t.blocks, 0 < a.size ∧ a.size ≤ 4294967280
  stkblocks : ∀ s ∈ t.stkblocks, s.2 ≤ 4294967280 ∧ roundmb s.2 ≤ s.1 + 4

section

variable {t t' : Tenants} {L L' : List Span} {a : Span} {m : Mem}

theorem tenantsOk_vacant (h : Vacant t) : ∃ L, TenantsOk t L := by
  rcases h with ⟨m, hm, rfl⟩
  have hhead := hm.head
  have hmax := hm.max
  refine ⟨_, heapOk_meminit (by omega) hm.nonempty (by omega), hm.head_pos, ?_, ?_⟩
  · intro a ha
    cases ha
  · intro s hs
    cases hs

/-- What {lit}`getstk` returns is the last word of what it takes. -/
theorem HeapOk.stackSpan_eq {u : Heap} {start n : Nat} (h : HeapOk u L)
    (htakes : u.mem.Takes 1 L { start := start, size := n } m L') (hn : 16 ≤ n) :
    stackSpan (uint32 (start + n - 4)) n = { start := start, size := n } ∧
      n ≤ uint32 (start + n - 4) + 4 := by
  have haL : ({ start := start, size := n } : Span).bytes ⊆ spanBytes L :=
    htakes.bytes ▸ Set.subset_union_left
  have hin := (bytes_subset_Ico (a := { start := start, size := n }) (by dsimp only; omega)).mp
    (haL.trans h.inside)
  have hmax := h.max
  unfold Span.stop at hin
  dsimp only at hin
  have hword : uint32 (start + n - 4) = start + n - 4 := by
    unfold uint32
    omega
  rw [hword]
  constructor
  · unfold stackSpan
    congr 1
    omega
  · omega

theorem TenantsOk.step (h : TenantsOk t L) {l : HeapCall} (henv : TenantCalls t l)
    (hstep : t.step l = some t') : ∃ L', TenantsOk t' L' := by
  cases l with
  | getmem alloc nbytes =>
      unfold Tenants.step at hstep
      dsimp only at hstep
      by_cases hz : nbytes = 0
      · rw [show t.mem.getmem alloc nbytes = (none, t.mem) from if_pos hz] at hstep
        cases hstep
        exact ⟨L, h⟩
      have hpos := Nat.pos_of_ne_zero hz
      have hround := roundmb_pos hpos henv
      rcases getmem_ok h.heap.free alloc (Or.inl hround) with ⟨a, m, L', heq, htakes⟩ | ⟨heq, _⟩
      · rw [heq] at hstep
        cases hstep
        refine ⟨L', h.heap.take htakes hround (roundmb_roundmb henv), ?_, ?_, h.stkblocks⟩
        · exact htakes.bounds.memlist.symm ▸ h.head_pos
        · intro b hb
          cases List.mem_cons.mp hb with
          | inl hb => exact hb ▸ ⟨hpos, henv⟩
          | inr hb => exact h.blocks b hb
      · rw [heq] at hstep
        cases hstep
        exact ⟨L, h⟩
  | getstk alloc nbytes =>
      unfold Tenants.step at hstep
      dsimp only at hstep
      by_cases hz : nbytes = 0
      · rw [show t.mem.getstk alloc nbytes = (none, t.mem) from if_pos hz] at hstep
        cases hstep
        exact ⟨L, h⟩
      have hround := roundmb_pos (Nat.pos_of_ne_zero hz) henv
      rcases getstk_ok h.heap.free alloc (Or.inl hround) with ⟨a, m, L', heq, htakes⟩ | ⟨heq, _⟩
      · rw [heq] at hstep
        cases hstep
        have hunit : 16 ≤ roundmb nbytes := by
          unfold roundmb uint32 MIN_BLOCKSIZE at *
          omega
        rcases h.heap.stackSpan_eq htakes hunit with ⟨hspan, hword⟩
        refine ⟨L', ?_, htakes.bounds.memlist.symm ▸ h.head_pos, h.blocks, ?_⟩
        · apply (h.heap.take htakes hround (roundmb_roundmb henv)).perm
          unfold Tenants.rooms
          rw [← hspan]
          exact List.perm_middle.symm
        · intro s hs
          cases List.mem_cons.mp hs with
          | inl hs => exact hs ▸ ⟨henv, hword⟩
          | inr hs => exact h.stkblocks s hs
      · rw [heq] at hstep
        cases hstep
        exact ⟨L, h⟩
  | freemem blkaddr nbytes =>
      unfold Tenants.step at hstep
      dsimp only at hstep
      have hmem : blockRoom { start := blkaddr, size := nbytes } ∈ t.rooms :=
        List.mem_append_left _ (List.mem_map_of_mem henv)
      have ha := h.heap.freeable hmem
      rcases freemem_cases h.heap.free (Nat.ne_of_gt (h.blocks _ henv).1) rfl ha.size_pos
        (Nat.lt_of_lt_of_le ha.head ha.low) (Nat.lt_of_le_of_lt ha.high ha.max) ha.stops with
        heq | ⟨m, L', heq, _, hgives, _⟩
      · rw [show t.mem.freemem blkaddr nbytes = _ from heq] at hstep
        cases hstep
        exact ⟨L, h⟩
      · rw [show t.mem.freemem blkaddr nbytes = _ from heq] at hstep
        cases hstep
        have hperm : t.rooms.Perm (blockRoom { start := blkaddr, size := nbytes } ::
            ((t.blocks.erase { start := blkaddr, size := nbytes }).map blockRoom ++
              t.stkblocks.map stackRoom)) :=
          ((List.perm_cons_erase henv).map blockRoom).append_right _
        refine ⟨L', h.heap.give hperm hgives, ?_, ?_, h.stkblocks⟩
        · exact hgives.bounds.memlist.symm ▸ h.head_pos
        · exact fun b hb => h.blocks b (List.mem_of_mem_erase hb)
  | freestk stkaddr nbytes =>
      cases hstep
      rcases henv with ⟨henv, hunit⟩
      have hmem : stackRoom (stkaddr, nbytes) ∈ t.rooms :=
        List.mem_append_right _ (List.mem_map_of_mem henv)
      have ha := h.heap.freeable hmem
      rcases h.stkblocks _ henv with ⟨hle, hword⟩
      have hstk : stkaddr + 4 = (stackRoom (stkaddr, nbytes)).start + nbytes := by
        unfold stackRoom stackSpan
        rw [roundmb_units hunit hle] at hword ⊢
        exact (Nat.sub_add_cancel hword).symm
      rcases freestk_ok h.heap.free rfl ha hstk with ⟨L', hgives⟩
      have hperm : t.rooms.Perm (stackRoom (stkaddr, nbytes) ::
          (t.blocks.map blockRoom ++ (t.stkblocks.erase (stkaddr, nbytes)).map stackRoom)) :=
        (((List.perm_cons_erase henv).map stackRoom).append_left _).trans List.perm_middle
      refine ⟨L', h.heap.give hperm hgives, ?_, h.blocks, ?_⟩
      · exact hgives.bounds.memlist.symm ▸ h.head_pos
      · exact fun s hs => h.stkblocks s (List.mem_of_mem_erase hs)
  | write addr header =>
      cases hstep
      rcases henv with ⟨a, ha, hin⟩
      exact ⟨L, h.heap.write ha hin, h.head_pos, h.blocks, h.stkblocks⟩

theorem tenantsOk_of_reach (h : Reach Tenants.step TenantCalls Vacant t) :
    ∃ L, TenantsOk t L := by
  apply h.invariant
  · exact fun t ht => tenantsOk_vacant ht
  · intro t l t' _ hok henv hstep
    rcases hok with ⟨L, hok⟩
    exact hok.step henv hstep

/-- A block can be freed if and only if some free block lies above it. -/
theorem can_free_iff (h : Reach Tenants.step TenantCalls Vacant t) (ha : a ∈ t.blocks) :
    t.CanFree a ↔ ∃ b ∈ t.mem.freeList, a.start < b.start := by
  rcases tenantsOk_of_reach h with ⟨L, hok⟩
  have hfree := hok.heap.free
  have hmem : blockRoom a ∈ t.rooms := List.mem_append_left _ (List.mem_map_of_mem ha)
  have hroom := hok.heap.freeable hmem
  have hz : a.size ≠ 0 := Nat.ne_of_gt (hok.blocks a ha).1
  have habove : (∃ b ∈ L, (blockRoom a).stop ≤ b.start) ↔
      ∃ b ∈ t.mem.freeList, a.start < b.start := by
    rw [show t.mem.freeList = L from hfree.freeList_eq]
    constructor
    · intro hex
      rcases hex with ⟨b, hb, hle⟩
      exact ⟨b, hb, Nat.lt_of_lt_of_le (Nat.lt_add_of_pos_right hroom.size_pos) hle⟩
    · intro hex
      rcases hex with ⟨b, hb, hlt⟩
      exact ⟨b, hb, le_of_disjoint (hfree.spaced.size_pos b hb)
        (disjoint_spanBytes.mp hroom.apart b hb) (Nat.le_of_lt hlt)⟩
  have hiff : (t.mem.freemem a.start a.size).1 = OK ↔ _ :=
    freemem_ok_iff (c := blockRoom a) hfree rfl hroom (Nat.ne_of_gt hok.head_pos)
  rw [← habove, ← hiff]
  constructor
  · exact fun hcan => hcan.1
  · intro hret
    refine ⟨hret, ?_⟩
    rcases freemem_cases (c := blockRoom a) hfree hz rfl hroom.size_pos
      (Nat.lt_of_lt_of_le hroom.head hroom.low) (Nat.lt_of_le_of_lt hroom.high hroom.max)
      hroom.stops with heq | ⟨m, L', heq, _, hgives, _⟩
    · rw [show t.mem.freemem a.start a.size = _ from heq] at hret
      exact absurd hret (show SYSERR ≠ OK by decide)
    · rw [show t.mem.freemem a.start a.size = _ from heq]
      dsimp only
      rw [hgives.free.freeList_eq, hgives.bytes]
      exact Set.subset_union_right

end

theorem sampleMem_placed : sampleMem.Placed := ⟨by decide, by decide, by decide, by decide⟩

theorem vacant_sample : Vacant ⟨sampleMem.meminit, [], []⟩ := ⟨sampleMem, sampleMem_placed, rfl⟩

/-- Two blocks, of which the lower one is below all free memory. -/
theorem can_free_first :
    ∃ t : Tenants, { start := 0x2000, size := 40 } ∈ t.blocks ∧
      t.CanFree { start := 0x2000, size := 40 } := by
  rcases exists_reach_of_follow Tenants.step TenantCalls vacant_sample
    [.getmem 0 40, .getmem 1 100]
    (fun t => { start := 0x2000, size := 40 } ∈ t.blocks ∧
      ∃ b ∈ t.mem.freeList, 0x2000 < b.start)
    (by decide +kernel) with ⟨t, ht, hmem, habove⟩
  exact ⟨t, hmem, (can_free_iff ht hmem).mpr habove⟩

/-- The last free memory is handed out and cannot be freed. -/
theorem cannot_free_last :
    ¬ ∀ (t : Tenants) (a : Span), Reach Tenants.step TenantCalls Vacant t → a ∈ t.blocks →
      t.CanFree a := by
  intro hall
  rcases exists_reach_of_follow Tenants.step TenantCalls vacant_sample
    [.getmem 0 0x20000000]
    (fun t => { start := 0x2000, size := 0x20000000 } ∈ t.blocks ∧
      ¬ (t.mem.freemem 0x2000 0x20000000).1 = OK)
    (by decide +kernel) with ⟨t, ht, hmem, hret⟩
  exact hret (hall t _ ht hmem).1

end BbbXinu

/-!
## Freeing a stack

{lit}`getstk` takes the rounded size from the end of a free block and returns the
last word of it.  {lit}`freestk` finds the start from that word and the size as it
was given, and rounds the size afterwards.
-/

namespace BbbXinu

/-- The free list is in order, joined wherever blocks touch, and inside the
heap. -/
structure Mem.InOrder (m : Mem) : Prop where
  placed : m.Placed
  free : m.FreeList 1 m.freeList
  inside : ∀ b ∈ m.freeList, m.minheap ≤ b.start ∧ b.stop ≤ m.maxheap

/-- A stack is handed out and freed under the same size, and the same bytes are
free as before. -/
def Mem.StackRestored (m : Mem) (alloc nbytes : Nat) : Prop :=
  ∃ stkaddr m', m.getstk alloc nbytes = (some stkaddr, m') ∧
    spanBytes (m'.freestk stkaddr nbytes).freeList = spanBytes m.freeList

section

variable {m m' : Mem} {L' : List Span} {alloc n s : Nat}

theorem roundmb_bounds (h : n ≤ 4294967280) :
    n ≤ roundmb n ∧ roundmb n < n + 16 ∧ (roundmb n = n ↔ n % 16 = 0) := by
  unfold roundmb uint32 MIN_BLOCKSIZE
  omega

/-- The block that {lit}`getstk` cuts off, with the bounds that the heap gives it. -/
theorem Mem.InOrder.taken (h : m.InOrder)
    (htakes : m.Takes 1 m.freeList { start := s, size := n } m' L') :
    m.minheap ≤ s ∧ s + n ≤ m.maxheap ∧ ∀ b ∈ L', b.stop ≤ m.maxheap := by
  rcases htakes.within with ⟨b, hb, hlow, hhigh⟩
  rcases h.inside b hb with ⟨hmin, hmax⟩
  refine ⟨Nat.le_trans hmin hlow, Nat.le_trans hhigh hmax, ?_⟩
  have hall := (bytes_inside_iff h.free.spaced.size_pos).mp h.inside
  have hsub : spanBytes L' ⊆ spanBytes m.freeList := htakes.bytes ▸ Set.subset_union_right
  exact fun c hc => ((bytes_inside_iff htakes.free.spaced.size_pos).mpr (hsub.trans hall) c hc).2

/-- A size in whole units. -/
theorem Mem.InOrder.restored (h : m.InOrder) (hpos : 0 < n)
    (hfit : ∃ b ∈ m.freeList, n ≤ b.size) (hround : roundmb n = n) : m.StackRestored alloc n := by
  have hmax := h.placed.max
  have hhead := h.placed.head
  rcases getstk_ok h.free alloc (Or.inl (hround.symm ▸ hpos)) with
    ⟨s, m', L', heq, htakes⟩ | ⟨_, hsmall⟩
  · rw [hround] at heq htakes
    have hb := htakes.bounds
    rcases h.taken htakes with ⟨hlow, hhigh, _⟩
    have hfree : m'.Freeable L' { start := s, size := n } := by
      constructor
      · exact hpos
      · exact hround
      · exact hb.minheap.symm ▸ hlow
      · exact hb.maxheap.symm ▸ hhigh
      · exact htakes.disjoint
      · rw [hb.memlist, hb.minheap]
        omega
      · rw [hb.maxheap]
        omega
    have hstk : uint32 (s + n - 4) + 4 = s + n := by
      have hunit : n % 16 = 0 := (roundmb_bounds (by omega)).2.2.mp hround
      unfold uint32
      omega
    rcases freestk_ok htakes.free hround.symm hfree hstk with ⟨L'', hgives⟩
    refine ⟨_, m', heq, ?_⟩
    rw [hgives.free.freeList_eq, hgives.bytes, htakes.bytes, Set.union_comm]
  · rcases hfit with ⟨b, hb, hle⟩
    cases hsmall with
    | inl hz => omega
    | inr hsmall =>
        have hlt := hsmall b hb
        omega

/-- Any other size.  What is put back starts behind the first byte of the
stack. -/
theorem Mem.InOrder.not_restored (h : m.InOrder) (hpos : 0 < n) (hle : n ≤ 4294967280)
    (hround : roundmb n ≠ n) : ¬ m.StackRestored alloc n := by
  intro hrestored
  have hmax := h.placed.max
  have hhead := h.placed.head
  rcases roundmb_bounds hle with ⟨hge, hlt, _⟩
  rcases hrestored with ⟨stkaddr, m₁, heq, hbytes⟩
  rcases getstk_ok h.free alloc (Or.inl (Nat.lt_of_lt_of_le hpos hge)) with
    ⟨s, m', L', heq', htakes⟩ | ⟨heq', _⟩
  · rw [heq'] at heq
    cases heq
    have hb := htakes.bounds
    rcases h.taken htakes with ⟨hlow, hhigh, hstops⟩
    have hbase : uint32 (uint32 (s + roundmb n - 4) - n + 4) = s + (roundmb n - n) := by
      unfold uint32
      omega
    have hsbytes : s ∈ ({ start := s, size := roundmb n } : Span).bytes :=
      start_mem_bytes (by dsimp only; omega)
    have hsfree : s ∈ spanBytes m.freeList := htakes.bytes ▸ Or.inl hsbytes
    have hsgone : s ∉ spanBytes L' := Set.disjoint_left.mp htakes.disjoint hsbytes
    rcases freestk_cases (c := { start := s + (roundmb n - n), size := roundmb n }) htakes.free
      (Nat.ne_of_gt hpos) hbase rfl (by dsimp only; omega) (by rw [hb.memlist]; dsimp only; omega)
      (by unfold Span.stop; dsimp only; omega)
      (fun c hc _ => by have hstop := hstops c hc; omega) with
      ⟨hsame, _⟩ | ⟨L'', _, hgives, _⟩
    · apply hsgone
      rw [← htakes.free.freeList_eq, ← hsame, hbytes]
      exact hsfree
    · rw [hgives.free.freeList_eq, hgives.bytes] at hbytes
      rw [← hbytes] at hsfree
      cases hsfree with
      | inl hin => exact hsgone hin
      | inr hin =>
          have hlow := hin.1
          dsimp only at hlow
          omega
  · rw [heq'] at heq
    cases heq

/-- Exactly the sizes in whole units come back. -/
theorem stack_round_trip_iff (h : m.InOrder) (hpos : 0 < n)
    (hfit : ∃ b ∈ m.freeList, n ≤ b.size) : m.StackRestored alloc n ↔ n % 16 = 0 := by
  have hle : n ≤ 4294967280 := by
    rcases hfit with ⟨b, hb, hle⟩
    have hmax := h.placed.max
    have hhead := h.placed.head
    have hin := h.inside b hb
    unfold Span.stop at hin
    omega
  rw [← (roundmb_bounds hle).2.2]
  constructor
  · intro hrestored
    by_contra hround
    exact h.not_restored hpos hle hround hrestored
  · exact h.restored hpos hfit

end

theorem sampleMem_inOrder : sampleMem.InOrder := by
  have hfree := sampleMem_free 1
  refine ⟨sampleMem_placed, hfree.freeList_eq.symm ▸ hfree, ?_⟩
  intro b hb
  rw [hfree.freeList_eq] at hb
  cases List.mem_singleton.mp hb
  exact ⟨by decide, by decide⟩

theorem sampleMem_fits {n : Nat} (h : n ≤ 0x20000000) : ∃ b ∈ sampleMem.freeList, n ≤ b.size := by
  rw [(sampleMem_free 1).freeList_eq]
  exact ⟨_, List.mem_singleton_self _, h⟩

/-- A stack of 64 kilobytes. -/
theorem stack_restored : sampleMem.StackRestored 0 65536 :=
  (stack_round_trip_iff sampleMem_inOrder (by decide) (sampleMem_fits (by decide))).mpr (by decide)

/-- {lit}`create` passes 404 on as it is. -/
theorem stack_not_restored :
    ¬ ∀ (m : Mem) (alloc n : Nat), m.InOrder → 0 < n → (∃ b ∈ m.freeList, n ≤ b.size) →
      roundew n = n → m.StackRestored alloc n := by
  intro hall
  have hrestored := hall sampleMem 0 404 sampleMem_inOrder (by decide)
    (sampleMem_fits (by decide)) (by decide)
  exact sampleMem_inOrder.not_restored (by decide) (by decide) (by decide) hrestored

end BbbXinu
