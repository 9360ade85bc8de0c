import BbbXinu.Kernel.Memory
import BbbXinu.Lib.LinkedLists
import BbbXinu.Lib.Spans
import Mathlib.Data.List.Induction

/-!
# The free list

The headers of the free blocks are linked both ways into a ring through
{lit}`memlist`.  The routines of the allocator change the ring at one place, and
what they do to it is what the operations on lists of address ranges do.
-/

namespace BbbXinu

open LinkedLists

namespace Mem

variable (m : Mem)

def nexts (addr : Nat) : Nat := (m.block addr).mnext
def prevs (addr : Nat) : Nat := (m.block addr).mprev

/-- The blocks from {lit}`memlist` on. -/
def freeList : List Span :=
  (walk m.nexts (fun addr => addr ≠ m.memlist) listFuel (m.nexts m.memlist)).map
    fun addr => { start := addr, size := (m.block addr).mlength }

/-- The length that the allocator keeps for all free memory. -/
def total : Nat := (m.block m.memlist).mlength

/-- The ring of free blocks. -/
structure FreeList (gap : Nat) (L : List Span) : Prop where
  ring : Seg m.nexts m.prevs m.memlist (L.map Span.start) m.memlist
  size : ∀ b ∈ L, (m.block b.start).mlength = b.size
  spaced : Spaced gap L
  pos : ∀ b ∈ L, 0 < b.start
  stop_le : ∀ b ∈ L, b.stop ≤ 4294967296
  head : ∀ b ∈ L, m.memlist ∉ b.bytes

end Mem

section

variable {gap n : Nat} {m m' : Mem} {L l₁ l₂ k k' : List Span} {b : Span}

theorem start_mem_bytes (h : 0 < b.size) : b.start ∈ b.bytes :=
  ⟨Nat.le_refl _, Nat.lt_add_of_pos_right h⟩

theorem Mem.FreeList.start_ne_head (h : m.FreeList gap L) (hb : b ∈ L) : b.start ≠ m.memlist := by
  intro he
  apply h.head b hb
  rw [← he]
  exact start_mem_bytes (h.spaced.size_pos b hb)

theorem Mem.FreeList.head_not_mem (h : m.FreeList gap L) : m.memlist ∉ L.map Span.start := by
  intro hmem
  rcases List.mem_map.mp hmem with ⟨b, hb, he⟩
  exact h.start_ne_head hb he

theorem Mem.FreeList.nodup (h : m.FreeList gap L) : (m.memlist :: L.map Span.start).Nodup :=
  List.nodup_cons.mpr ⟨h.head_not_mem, h.spaced.starts_nodup⟩

theorem Mem.FreeList.length_le (h : m.FreeList gap L) : L.length ≤ listFuel := by
  have hle := h.spaced.length_le (fun b _ => Nat.zero_le b.start) h.stop_le
  exact hle

theorem Mem.FreeList.freeList_eq (h : m.FreeList gap L) : m.freeList = L := by
  have hwalk : walk m.nexts (fun addr => addr ≠ m.memlist) listFuel (m.nexts m.memlist) =
      L.map Span.start := by
    apply walk_eq_of_seg h.ring
    · intro a ha he
      exact h.head_not_mem (he ▸ ha)
    · exact fun hne => hne rfl
    · rw [List.length_map]
      exact h.length_le
  unfold Mem.freeList
  rw [hwalk, List.map_map]
  have hsame : L.map ((fun addr => ({ start := addr, size := (m.block addr).mlength } : Span)) ∘
      Span.start) = L.map id := by
    apply List.map_congr_left
    intro b hb
    show ({ start := b.start, size := (m.block b.start).mlength } : Span) = b
    rw [h.size b hb]
  rw [hsame, List.map_id]

/-- The links of a free block and its neighbours. -/
theorem Mem.FreeList.neighbours (h : m.FreeList gap (l₁ ++ b :: l₂)) :
    m.prevs b.start = lastOr m.memlist (l₁.map Span.start) ∧
      m.nexts b.start = headOr m.memlist (l₂.map Span.start) := by
  have hring := h.ring
  rw [List.map_append, List.map_cons] at hring
  rcases seg_append.mp hring with ⟨h1, h2⟩
  exact ⟨h1.prev_eq_lastOr, h2.next_eq_headOr⟩

/-- The links of its neighbours to a free block. -/
theorem Mem.FreeList.links (h : m.FreeList gap (l₁ ++ b :: l₂)) :
    m.nexts (lastOr m.memlist (l₁.map Span.start)) = b.start ∧
      m.prevs (headOr m.memlist (l₂.map Span.start)) = b.start := by
  have hring := h.ring
  rw [List.map_append, List.map_cons] at hring
  rcases seg_append.mp hring with ⟨h1, h2⟩
  rw [← List.append_nil (l₁.map Span.start)] at h1
  rw [← List.nil_append (l₂.map Span.start)] at h2
  have hlow := Seg.boundary h1
  have hhigh := Seg.boundary h2
  exact ⟨hlow.1, hhigh.2⟩

/-- What a search meets at a block. -/
theorem Mem.FreeList.at_block (h : m.FreeList gap (l₁ ++ b :: l₂)) :
    b ∈ l₁ ++ b :: l₂ ∧ (m.block b.start).mlength = b.size ∧ b.start ≠ m.memlist ∧
      (m.block b.start).mnext = headOr m.memlist (l₂.map Span.start) ∧
      lastOr m.memlist ((l₁ ++ [b]).map Span.start) = b.start := by
  have hmem : b ∈ l₁ ++ b :: l₂ := by simp
  refine ⟨hmem, h.size b hmem, h.start_ne_head hmem, h.neighbours.2, ?_⟩
  rw [List.map_append]
  exact lastOr_append_singleton _ _ _

/-- A change of the ring at one place. -/
theorem Mem.FreeList.splice (h : m.FreeList gap (l₁ ++ k ++ l₂))
    (hnew : Spaced gap (l₁ ++ k' ++ l₂)) (hhead : m'.memlist = m.memlist)
    (hk' : ∀ c ∈ k', 0 < c.start ∧ c.stop ≤ 4294967296 ∧ m.memlist ∉ c.bytes)
    (hmid : Seg m'.nexts m'.prevs (lastOr m.memlist (l₁.map Span.start)) (k'.map Span.start)
      (headOr m.memlist (l₂.map Span.start)))
    (hnx : ∀ y, y ≠ lastOr m.memlist (l₁.map Span.start) → y ∉ k.map Span.start →
      y ∉ k'.map Span.start → m'.nexts y = m.nexts y)
    (hpv : ∀ y, y ≠ headOr m.memlist (l₂.map Span.start) → y ∉ k.map Span.start →
      y ∉ k'.map Span.start → m'.prevs y = m.prevs y)
    (hsize : ∀ y, y ≠ m.memlist → y ∉ k.map Span.start → y ∉ k'.map Span.start →
      (m'.block y).mlength = (m.block y).mlength)
    (hsize' : ∀ c ∈ k', (m'.block c.start).mlength = c.size) :
    m'.FreeList gap (l₁ ++ k' ++ l₂) := by
  have hhead' : ∀ c ∈ l₁ ++ k' ++ l₂, m.memlist ∉ c.bytes := by
    intro c hc
    rcases List.mem_append.mp hc with hc | hc
    · rcases List.mem_append.mp hc with hc | hc
      · exact h.head c (by simp [hc])
      · exact (hk' c hc).2.2
    · exact h.head c (by simp [hc])
  have hnodup : (m.memlist :: (l₁ ++ k' ++ l₂).map Span.start).Nodup := by
    apply List.nodup_cons.mpr
    refine ⟨?_, hnew.starts_nodup⟩
    intro hmem
    rcases List.mem_map.mp hmem with ⟨c, hc, he⟩
    exact hhead' c hc (he ▸ start_mem_bytes (hnew.size_pos c hc))
  have hnodup₀ := h.nodup
  have hring := h.ring
  simp only [List.map_append] at hring hnodup₀ hnodup
  have hin : ∀ c ∈ l₁ ++ l₂, c ∈ l₁ ++ k ++ l₂ := by grind
  have hkept : ∀ c ∈ l₁ ++ l₂, (m'.block c.start).mlength = c.size := by
    intro c hc
    have hmem : c.start ∈ l₁.map Span.start ++ l₂.map Span.start := by
      rw [← List.map_append]
      exact List.mem_map_of_mem hc
    rw [hsize c.start (h.start_ne_head (hin c hc)) (by grind) (by grind)]
    exact h.size c (hin c hc)
  constructor
  · rw [hhead, List.map_append, List.map_append]
    exact hring.splice_ring hnodup₀ hnodup hnx hpv hmid
  · intro c hc
    by_cases hck : c ∈ k'
    · exact hsize' c hck
    · exact hkept c (by grind)
  · exact hnew
  · intro c hc
    by_cases hck : c ∈ k'
    · exact (hk' c hck).1
    · exact h.pos c (hin c (by grind))
  · intro c hc
    by_cases hck : c ∈ k'
    · exact (hk' c hck).2.1
    · exact h.stop_le c (hin c (by grind))
  · intro c hc
    rw [hhead]
    exact hhead' c hc

/-!
## Taking a part of a block
-/

namespace Mem

/-- Two states of the heap at the same place in memory. -/
structure SameBounds (m m' : Mem) : Prop where
  memlist : m'.memlist = m.memlist
  minheap : m'.minheap = m.minheap
  maxheap : m'.maxheap = m.maxheap

theorem SameBounds.refl (m : Mem) : m.SameBounds m := ⟨rfl, rfl, rfl⟩

/-- Blocks are not bounds. -/
theorem SameBounds.setBlock {m m' : Mem} (h : m.SameBounds m') (addr : Nat) (f : Memblk → Memblk) :
    m.SameBounds (m'.setBlock addr f) := ⟨h.memlist, h.minheap, h.maxheap⟩

theorem SameBounds.trans {m m' m'' : Mem} (h : m.SameBounds m') (h' : m'.SameBounds m'') :
    m.SameBounds m'' :=
  ⟨h'.memlist.trans h.memlist, h'.minheap.trans h.minheap, h'.maxheap.trans h.maxheap⟩

/-- The bytes of {lit}`a` are taken out of one free block. -/
structure Takes (gap : Nat) (m : Mem) (L : List Span) (a : Span) (m' : Mem) (L' : List Span) :
    Prop where
  free : m'.FreeList gap L'
  within : ∃ b ∈ L, b.start ≤ a.start ∧ a.stop ≤ b.stop
  bytes : spanBytes L = a.bytes ∪ spanBytes L'
  disjoint : Disjoint a.bytes (spanBytes L')
  bounds : m.SameBounds m'

section Links

variable (m : Mem) (addr v y : Nat)

theorem field_setBlock {α : Type} {m : Mem} {addr y : Nat} {f : Memblk → Memblk}
    (field : Memblk → α) (h : ∀ e, field (f e) = field e) :
    field ((m.setBlock addr f).block y) = field (m.block y) := by
  unfold setBlock
  dsimp only
  rw [upd_apply]
  split
  · rename_i hy
    rw [h, hy]
  · rfl

@[simp] theorem nexts_setNext : (m.setBlock addr fun e => { e with mnext := v }).nexts y =
    if y = addr then v else m.nexts y := by
  unfold nexts setBlock
  dsimp only
  rw [upd_apply]
  split <;> rfl

@[simp] theorem prevs_setNext :
    (m.setBlock addr fun e => { e with mnext := v }).prevs y = m.prevs y :=
  field_setBlock Memblk.mprev (fun _ => rfl)

@[simp] theorem mlength_setNext :
    ((m.setBlock addr fun e => { e with mnext := v }).block y).mlength =
      (m.block y).mlength :=
  field_setBlock Memblk.mlength (fun _ => rfl)

@[simp] theorem nexts_setPrev :
    (m.setBlock addr fun e => { e with mprev := v }).nexts y = m.nexts y :=
  field_setBlock Memblk.mnext (fun _ => rfl)

@[simp] theorem prevs_setPrev : (m.setBlock addr fun e => { e with mprev := v }).prevs y =
    if y = addr then v else m.prevs y := by
  unfold prevs setBlock
  dsimp only
  rw [upd_apply]
  split <;> rfl

@[simp] theorem mlength_setPrev :
    ((m.setBlock addr fun e => { e with mprev := v }).block y).mlength =
      (m.block y).mlength :=
  field_setBlock Memblk.mlength (fun _ => rfl)

@[simp] theorem nexts_setLength (f : Memblk → Nat) :
    (m.setBlock addr fun e => { e with mlength := f e }).nexts y = m.nexts y :=
  field_setBlock Memblk.mnext (fun _ => rfl)

@[simp] theorem prevs_setLength (f : Memblk → Nat) :
    (m.setBlock addr fun e => { e with mlength := f e }).prevs y = m.prevs y :=
  field_setBlock Memblk.mprev (fun _ => rfl)

@[simp] theorem mlength_setLength (f : Memblk → Nat) :
    ((m.setBlock addr fun e => { e with mlength := f e }).block y).mlength =
      if y = addr then f (m.block addr) else (m.block y).mlength := by
  unfold setBlock
  dsimp only
  rw [upd_apply]
  split <;> rfl

@[simp] theorem memlist_setBlock (f : Memblk → Memblk) :
    (m.setBlock addr f).memlist = m.memlist := rfl

end Links

end Mem

theorem spanBytes_middle : spanBytes (l₁ ++ k ++ l₂) = spanBytes k ∪ spanBytes (l₁ ++ l₂) := by
  rw [spanBytes_append, spanBytes_append, spanBytes_append, ← Set.union_assoc,
    Set.union_comm (spanBytes k)]

theorem takes_low (h : m.FreeList gap (l₁ ++ b :: l₂)) (hn : n ≤ b.size)
    (h' : m'.FreeList gap (l₁ ++ b.dropLow n ++ l₂)) (hbounds : m.SameBounds m') :
    m.Takes gap (l₁ ++ b :: l₂) { start := b.start, size := n } m'
      (l₁ ++ b.dropLow n ++ l₂) := by
  have hb := dropLow_bytes hn
  have hsplit : l₁ ++ b :: l₂ = l₁ ++ [b] ++ l₂ := by rw [List.append_assoc]; rfl
  refine ⟨h', ⟨b, by simp, Nat.le_refl _, Nat.add_le_add_left hn _⟩, ?_, ?_, hbounds⟩
  · rw [hsplit, spanBytes_middle, spanBytes_middle, spanBytes_singleton, ← Set.union_assoc, hb]
  · rw [spanBytes_middle]
    apply Set.disjoint_union_right.mpr
    constructor
    · exact dropLow_disjoint
    · exact h.spaced.disjoint.mono_left (hb ▸ Set.subset_union_left)

theorem takes_high (h : m.FreeList gap (l₁ ++ b :: l₂)) (hn : n ≤ b.size)
    (h' : m'.FreeList gap (l₁ ++ b.dropHigh n ++ l₂)) (hbounds : m.SameBounds m') :
    m.Takes gap (l₁ ++ b :: l₂) { start := b.stop - n, size := n } m'
      (l₁ ++ b.dropHigh n ++ l₂) := by
  have hb := dropHigh_bytes hn
  have hsplit : l₁ ++ b :: l₂ = l₁ ++ [b] ++ l₂ := by rw [List.append_assoc]; rfl
  refine ⟨h', ⟨b, by simp, ?_, ?_⟩, ?_, ?_, hbounds⟩
  · unfold Span.stop
    dsimp only
    omega
  · unfold Span.stop
    dsimp only
    omega
  · rw [hsplit, spanBytes_middle, spanBytes_middle, spanBytes_singleton, ← Set.union_assoc, hb]
  · rw [spanBytes_middle]
    apply Set.disjoint_union_right.mpr
    constructor
    · exact dropHigh_disjoint hn
    · exact h.spaced.disjoint.mono_left (hb ▸ Set.subset_union_left)

/-!
## The search of getmem
-/

/-- What the search knows of the best block so far. -/
def BestFit (L : List Span) (n best : Nat) : Prop :=
  best = 0 ∨ ∃ b ∈ L, b.start = best ∧ n < b.size

/-- A block of the exact size, with the block before it. -/
def ExactFit (m : Mem) (L : List Span) (n prev curr : Nat) : Prop :=
  ∃ l₁ b l₂, L = l₁ ++ b :: l₂ ∧ b.start = curr ∧ b.size = n ∧
    lastOr m.memlist (l₁.map Span.start) = prev

/-- The outcome of a search that still had the blocks {lit}`l` to look at. -/
def Searched (m : Mem) (L l : List Span) (n best : Nat) : Option (Nat × Nat) × Nat → Prop
  | (some (prev, curr), _) => ExactFit m L n prev curr
  | (none, best') => BestFit L n best' ∧ (best' = 0 → best = 0 ∧ ∀ b ∈ l, b.size < n)

theorem Searched.cons {best best' : Nat} {r : Option (Nat × Nat) × Nat}
    (h : Searched m L k n best' r) (hb : best' = 0 → best = 0 ∧ b.size < n) :
    Searched m L (b :: k) n best r := by
  cases hr : r.1 with
  | some p =>
      rcases r with ⟨r1, r2⟩
      cases hr
      exact h
  | none =>
      rcases r with ⟨r1, r2⟩
      cases hr
      rcases h with ⟨hfit, hnone⟩
      refine ⟨hfit, ?_⟩
      intro hz
      rcases hnone hz with ⟨hbest, hk⟩
      rcases hb hbest with ⟨h0, hlt⟩
      refine ⟨h0, ?_⟩
      intro c hc
      cases List.mem_cons.mp hc with
      | inl hc => exact hc ▸ hlt
      | inr hc => exact hk c hc

theorem getmemScan_ok (h : m.FreeList gap (l₁ ++ l₂)) (alloc n best fuel : Nat)
    (hfuel : l₂.length ≤ fuel) (hbest : BestFit (l₁ ++ l₂) n best) :
    Searched m (l₁ ++ l₂) l₂ n best
      (m.getmemScan alloc n fuel (lastOr m.memlist (l₁.map Span.start))
        (headOr m.memlist (l₂.map Span.start)) best) := by
  induction l₂ generalizing l₁ best fuel with
  | nil =>
      have hstop : Searched m (l₁ ++ []) [] n best (none, best) :=
        ⟨hbest, fun hz => ⟨hz, by simp⟩⟩
      cases fuel with
      | zero => exact hstop
      | succ fuel =>
          unfold Mem.getmemScan
          rw [if_neg (fun hne => hne rfl)]
          exact hstop
  | cons b l₂ ih =>
      cases fuel with
      | zero => exact absurd hfuel (Nat.not_succ_le_zero _)
      | succ fuel =>
          obtain ⟨hmem, hsize, hne, hnext, hprev⟩ := h.at_block
          have hpos := h.pos b hmem
          have hsplit := List.append_cons l₁ b l₂
          have hrest := fun best' (hbest' : BestFit (l₁ ++ b :: l₂) n best') =>
            ih (show m.FreeList gap ((l₁ ++ [b]) ++ l₂) from hsplit ▸ h) best' fuel
              (Nat.le_of_succ_le_succ hfuel) (hsplit ▸ hbest')
          rw [hprev, ← hsplit] at hrest
          show Searched _ _ _ _ _ (m.getmemScan alloc n (fuel + 1) _ b.start best)
          unfold Mem.getmemScan
          rw [if_pos hne, hnext, hsize]
          by_cases hexact : b.size = n
          · rw [if_pos hexact]
            exact ⟨l₁, b, l₂, rfl, rfl, hexact, rfl⟩
          rw [if_neg hexact]
          by_cases hlarger : n < b.size
          · rw [if_pos hlarger]
            dsimp only
            have hbest' : BestFit (l₁ ++ b :: l₂) n
                (if best = 0 ∨ b.size < (m.block best).mlength then b.start else best) := by
              split
              · exact Or.inr ⟨b, hmem, rfl, hlarger⟩
              · exact hbest
            have hset : (if best = 0 ∨ b.size < (m.block best).mlength then b.start else best) ≠
                0 := by
              split
              · omega
              · rename_i hnot
                exact fun hz => hnot (Or.inl hz)
            split
            · exact ⟨hbest', fun hz => absurd hz hset⟩
            · exact (hrest _ hbest').cons fun hz => absurd hz hset
          · rw [if_neg hlarger]
            exact (hrest best hbest).cons fun hz => ⟨hz, by omega⟩

/-- The search of {lit}`getmem` over the whole list. -/
theorem getmemScan_all (h : m.FreeList gap L) (alloc n : Nat) : Searched m L L n 0
    (m.getmemScan alloc n Mem.listFuel m.memlist (m.block m.memlist).mnext 0) := by
  have hfirst : headOr m.memlist (L.map Span.start) = (m.block m.memlist).mnext :=
    h.ring.next_eq_headOr.symm
  rw [← hfirst]
  exact getmemScan_ok (show m.FreeList gap ([] ++ L) from h) alloc n 0 Mem.listFuel h.length_le
    (Or.inl rfl)

/-!
## getmem
-/

/-- A block is linked out of the ring. -/
theorem Mem.FreeList.unlink (h : m.FreeList gap (l₁ ++ b :: l₂)) (hhead : m'.memlist = m.memlist)
    (hnx : ∀ y, m'.nexts y = if y = lastOr m.memlist (l₁.map Span.start) then
      headOr m.memlist (l₂.map Span.start) else m.nexts y)
    (hpv : ∀ y, m'.prevs y = if y = headOr m.memlist (l₂.map Span.start) then
      lastOr m.memlist (l₁.map Span.start) else m.prevs y)
    (hsize : ∀ y, y ≠ m.memlist → (m'.block y).mlength = (m.block y).mlength) :
    m'.FreeList gap (l₁ ++ [] ++ l₂) := by
  have hsplit : l₁ ++ b :: l₂ = l₁ ++ [b] ++ l₂ := by rw [List.append_assoc]; rfl
  have hnew : Spaced gap (l₁ ++ [] ++ l₂) :=
    h.spaced.replace spaced_nil fun c hc => by cases hc
  rw [hsplit] at h
  apply h.splice hnew hhead
  · intro c hc
    cases hc
  · constructor
    · rw [hnx, if_pos rfl]
    · rw [hpv, if_pos rfl]
  · intro y hy _ _
    rw [hnx, if_neg hy]
  · intro y hy _ _
    rw [hpv, if_neg hy]
  · exact fun y hy _ _ => hsize y hy
  · intro c hc
    cases hc

/-- The links that {lit}`getmem` sets for a block of the exact size. -/
theorem Mem.FreeList.unlinked (h : m.FreeList gap (l₁ ++ b :: l₂)) (f : Memblk → Nat) :
    (((m.setBlock (lastOr m.memlist (l₁.map Span.start)) fun e =>
        { e with mnext := (m.block b.start).mnext }).setBlock (m.block b.start).mnext fun e =>
        { e with mprev := lastOr m.memlist (l₁.map Span.start) }).setBlock m.memlist fun e =>
        { e with mlength := f e }).FreeList gap (l₁ ++ [] ++ l₂) := by
  have hnext : (m.block b.start).mnext = _ := h.neighbours.2
  rw [hnext]
  apply h.unlink
  · rfl
  · intro y
    simp
  · intro y
    simp
  · intro y hy
    simp [hy]

/-- No other index of the ring lies inside a free block. -/
theorem Mem.FreeList.outside (h : m.FreeList gap (l₁ ++ b :: l₂)) {y : Nat}
    (hy : y ∈ m.memlist :: (l₁ ++ l₂).map Span.start) : y ∉ b.bytes := by
  intro hin
  cases List.mem_cons.mp hy with
  | inl hy => exact h.head b (by simp) (hy ▸ hin)
  | inr hy =>
      rcases List.mem_map.mp hy with ⟨c, hc, rfl⟩
      have hpos := h.spaced.size_pos c (by
        cases List.mem_append.mp hc with
        | inl hc => simp [hc]
        | inr hc => simp [hc])
      exact Set.disjoint_left.mp h.spaced.disjoint hin ⟨c, hc, start_mem_bytes hpos⟩

theorem Mem.FreeList.last_not_mem (h : m.FreeList gap (l₁ ++ b :: l₂)) :
    lastOr m.memlist (l₁.map Span.start) ∉ b.bytes := by
  apply h.outside
  rw [List.map_append]
  exact List.mem_cons.mpr ((List.mem_cons.mp (lastOr_mem _ _)).imp_right
    (List.mem_append_left _))

theorem Mem.FreeList.first_not_mem (h : m.FreeList gap (l₁ ++ b :: l₂)) :
    headOr m.memlist (l₂.map Span.start) ∉ b.bytes := by
  apply h.outside
  rw [List.map_append]
  cases List.mem_append.mp (headOr_mem m.memlist (l₂.map Span.start)) with
  | inl hy => exact List.mem_cons_of_mem _ (List.mem_append_right _ hy)
  | inr hy =>
      rw [List.mem_singleton.mp hy]
      exact List.mem_cons_self

/-- A block keeps its place in the ring and loses its first bytes. -/
theorem Mem.FreeList.cutLow (h : m.FreeList gap (l₁ ++ b :: l₂)) (hpos : 0 < n) (hlt : n < b.size)
    (hhead : m'.memlist = m.memlist)
    (hnx : ∀ y, m'.nexts y = if y = b.start + n then headOr m.memlist (l₂.map Span.start) else
      if y = lastOr m.memlist (l₁.map Span.start) then b.start + n else m.nexts y)
    (hpv : ∀ y, m'.prevs y = if y = headOr m.memlist (l₂.map Span.start) then b.start + n else
      if y = b.start + n then lastOr m.memlist (l₁.map Span.start) else m.prevs y)
    (hsize : ∀ y, y ≠ m.memlist → (m'.block y).mlength =
      if y = b.start + n then b.size - n else (m.block y).mlength) :
    m'.FreeList gap (l₁ ++ b.dropLow n ++ l₂) := by
  have hmem : b ∈ l₁ ++ b :: l₂ := by simp
  have hstop := h.stop_le b hmem
  have hout := h.head b hmem
  have hsplit : l₁ ++ b :: l₂ = l₁ ++ [b] ++ l₂ := by rw [List.append_assoc]; rfl
  have hdrop : b.dropLow n = [{ start := b.start + n, size := b.size - n }] :=
    if_neg (Nat.ne_of_gt hlt)
  have hnew : Spaced gap (l₁ ++ b.dropLow n ++ l₂) :=
    h.spaced.replace (dropLow_spaced (Nat.le_of_lt hlt)) (dropLow_within (Nat.le_of_lt hlt))
  have hin : b.start + n ∈ b.bytes :=
    ⟨Nat.le_add_right _ _, Nat.add_lt_add_left hlt _⟩
  have hprev_ne : lastOr m.memlist (l₁.map Span.start) ≠ b.start + n :=
    fun he => h.last_not_mem (he ▸ hin)
  have hnext_ne : headOr m.memlist (l₂.map Span.start) ≠ b.start + n :=
    fun he => h.first_not_mem (he ▸ hin)
  rw [hsplit] at h
  rw [hdrop] at hnew ⊢
  apply h.splice hnew hhead
  · intro c hc
    cases List.mem_singleton.mp hc
    refine ⟨Nat.add_pos_right _ hpos, ?_, ?_⟩
    · unfold Span.stop at *
      dsimp only
      omega
    · intro hc
      apply hout
      have h1 := hc.1
      have h2 := hc.2
      unfold Span.stop at h2
      dsimp only at h1 h2
      exact ⟨by omega, by unfold Span.stop; omega⟩
  · refine ⟨?_, ?_, ?_, ?_⟩
    · rw [hnx, if_neg hprev_ne, if_pos rfl]
    · rw [hpv, if_neg hnext_ne.symm, if_pos rfl]
    · rw [hnx, if_pos rfl]
    · rw [hpv, if_pos rfl]
  · intro y hy _ hyk
    rw [hnx, if_neg (by simpa using hyk), if_neg hy]
  · intro y hy _ hyk
    rw [hpv, if_neg hy, if_neg (by simpa using hyk)]
  · intro y hy _ hyk
    rw [hsize y hy, if_neg (by simpa using hyk)]
  · intro c hc
    cases List.mem_singleton.mp hc
    rw [hsize, if_pos rfl]
    exact fun he => hout (he ▸ hin)

/-- The links that {lit}`getmem` sets for a larger block. -/
theorem Mem.FreeList.shortened (h : m.FreeList gap (l₁ ++ b :: l₂)) (hpos : 0 < n)
    (hlt : n < b.size) {p q x : Nat} (hp : p = lastOr m.memlist (l₁.map Span.start))
    (hq : q = headOr m.memlist (l₂.map Span.start)) (hx : x = b.start + n) (f : Memblk → Nat) :
    ((((((m.setBlock p fun e => { e with mnext := x }).setBlock x fun e =>
      { e with mprev := p }).setBlock x fun e => { e with mnext := q }).setBlock q fun e =>
      { e with mprev := x }).setBlock x fun e => { e with mlength := b.size - n }).setBlock
      m.memlist fun e => { e with mlength := f e }).FreeList gap (l₁ ++ b.dropLow n ++ l₂) := by
  subst hp hq hx
  apply h.cutLow hpos hlt
  · rfl
  · intro y
    simp
  · intro y
    simp
  · intro y hy
    simp [hy]

theorem getmem_ok (h : m.FreeList gap L) (alloc : Nat) {nbytes : Nat}
    (hpos : 0 < roundmb nbytes ∨ L = []) :
    (∃ a m' L', m.getmem alloc nbytes = (some a, m') ∧
      m.Takes gap L { start := a, size := roundmb nbytes } m' L') ∨
    (m.getmem alloc nbytes = (none, m) ∧ (nbytes = 0 ∨ ∀ b ∈ L, b.size < roundmb nbytes)) := by
  unfold Mem.getmem
  by_cases hz : nbytes = 0
  · rw [if_pos hz]
    exact Or.inr ⟨rfl, Or.inl hz⟩
  rw [if_neg hz]
  dsimp only
  have hsearch := getmemScan_all h alloc (roundmb nbytes)
  generalize m.getmemScan alloc (roundmb nbytes) Mem.listFuel m.memlist
    (m.block m.memlist).mnext 0 = r at hsearch ⊢
  rcases r with ⟨exact, best⟩
  cases exact with
  | some p =>
      rcases hsearch with ⟨l₁, b, l₂, rfl, hcurr, hsize, hprev⟩
      have hn : roundmb nbytes ≤ b.size := Nat.le_of_eq hsize.symm
      left
      refine ⟨_, _, l₁ ++ b.dropLow (roundmb nbytes) ++ l₂, rfl, ?_⟩
      rw [← hcurr, ← hprev]
      apply takes_low h hn
      · have hnone : b.dropLow (roundmb nbytes) = [] := if_pos hsize
        rw [hnone]
        exact h.unlinked _
      · exact ⟨rfl, rfl, rfl⟩
  | none =>
      rcases hsearch with ⟨hfit, hnone⟩
      dsimp only
      by_cases hbest : best = 0
      · rw [if_neg (not_not.mpr hbest)]
        exact Or.inr ⟨rfl, Or.inr (hnone hbest).2⟩
      · rw [if_pos hbest]
        rcases hfit.resolve_left hbest with ⟨b, hb, rfl, hlt⟩
        have hround := hpos.resolve_right (List.ne_nil_of_mem hb)
        rcases List.append_of_mem hb with ⟨l₁, l₂, rfl⟩
        left
        refine ⟨_, _, l₁ ++ b.dropLow (roundmb nbytes) ++ l₂, rfl, ?_⟩
        have hstop := h.stop_le b hb
        have hsize := h.size b hb
        have hprev : (m.block b.start).mprev = lastOr m.memlist (l₁.map Span.start) :=
          h.neighbours.1
        have hnext : m.nexts b.start = headOr m.memlist (l₂.map Span.start) := h.neighbours.2
        have hself : b.start ≠ lastOr m.memlist (l₁.map Span.start) := fun he =>
          h.last_not_mem (he ▸ start_mem_bytes (h.spaced.size_pos b hb))
        have hleft : uint32 (b.start + roundmb nbytes) = b.start + roundmb nbytes := by
          unfold uint32
          unfold Span.stop at hstop
          omega
        have hlen : uint32 (b.size - roundmb nbytes) = b.size - roundmb nbytes := by
          unfold uint32
          unfold Span.stop at hstop
          omega
        rw [hprev, hleft]
        -- the links that are read back were not changed before
        have hread₁ : (((m.setBlock (lastOr m.memlist (l₁.map Span.start)) fun e =>
            { e with mnext := b.start + roundmb nbytes }).setBlock (b.start + roundmb nbytes)
            fun e => { e with mprev := lastOr m.memlist (l₁.map Span.start) }).block
            b.start).mnext = headOr m.memlist (l₂.map Span.start) := by
          show Mem.nexts _ _ = _
          simp [hself, hnext]
        rw [hread₁]
        have hread₂ : ((((m.setBlock (lastOr m.memlist (l₁.map Span.start)) fun e =>
            { e with mnext := b.start + roundmb nbytes }).setBlock (b.start + roundmb nbytes)
            fun e => { e with mprev := lastOr m.memlist (l₁.map Span.start) }).setBlock
            (b.start + roundmb nbytes) fun e =>
            { e with mnext := headOr m.memlist (l₂.map Span.start) }).block
            b.start).mnext = headOr m.memlist (l₂.map Span.start) := by
          show Mem.nexts _ _ = _
          simp [hself, hnext]
        rw [hread₂]
        simp only [Mem.mlength_setPrev, Mem.mlength_setNext, Mem.memlist_setBlock, hsize, hlen]
        apply takes_low h (Nat.le_of_lt hlt)
        · exact h.shortened hround hlt rfl rfl rfl _
        · exact ((((((Mem.SameBounds.refl m).setBlock _ _).setBlock _ _).setBlock _ _).setBlock
            _ _).setBlock _ _).setBlock _ _

theorem Mem.FreeList.inside_ne_head (h : m.FreeList gap L) (hb : b ∈ L) (hn : n < b.size) :
    b.start + n ≠ m.memlist := fun he =>
  h.head b hb (he ▸ ⟨Nat.le_add_right _ _, Nat.add_lt_add_left hn _⟩)

/-- The length that is kept for all free memory goes down by what is taken. -/
theorem getmem_total (h : m.FreeList gap L) (alloc : Nat) {nbytes a : Nat}
    (heq : m.getmem alloc nbytes = (some a, m')) :
    m'.total = uint32 (m.total - roundmb nbytes) := by
  unfold Mem.getmem at heq
  by_cases hz : nbytes = 0
  · rw [if_pos hz] at heq
    cases heq
  rw [if_neg hz] at heq
  dsimp only at heq
  have hsearch := getmemScan_all h alloc (roundmb nbytes)
  generalize m.getmemScan alloc (roundmb nbytes) Mem.listFuel m.memlist
    (m.block m.memlist).mnext 0 = r at hsearch heq
  rcases r with ⟨exact, best⟩
  cases exact with
  | some p =>
      cases heq
      unfold Mem.total
      simp
  | none =>
      dsimp only at heq
      by_cases hbest : best = 0
      · rw [if_neg (not_not.mpr hbest)] at heq
        cases heq
      · rw [if_pos hbest] at heq
        rcases hsearch.1.resolve_left hbest with ⟨b, hb, rfl, hlt⟩
        have hstop := h.stop_le b hb
        have hne := (h.inside_ne_head hb hlt).symm
        have hleft : uint32 (b.start + roundmb nbytes) = b.start + roundmb nbytes := by
          unfold uint32
          unfold Span.stop at hstop
          omega
        rw [hleft] at heq
        cases heq
        unfold Mem.total
        simp [hne]

/-!
## getstk
-/

/-- What the search from the back knows of the best block so far and the block
after it. -/
def StackFit (m : Mem) (L : List Span) (n fits fitsprev : Nat) : Prop :=
  fits = 0 ∨ ∃ l₁ b l₂, L = l₁ ++ b :: l₂ ∧ b.start = fits ∧ n ≤ b.size ∧
    headOr m.memlist (l₂.map Span.start) = fitsprev

/-- The outcome of that search when it still had the blocks {lit}`l` to look at. -/
def StackSearched (m : Mem) (L l : List Span) (n fits : Nat) (r : Nat × Nat) : Prop :=
  StackFit m L n r.1 r.2 ∧ (r.1 = 0 → fits = 0 ∧ ∀ b ∈ l, b.size < n)

theorem StackSearched.concat {fits fits' : Nat} {r : Nat × Nat}
    (h : StackSearched m L k n fits' r) (hb : fits' = 0 → fits = 0 ∧ b.size < n) :
    StackSearched m L (k ++ [b]) n fits r := by
  refine ⟨h.1, ?_⟩
  intro hz
  rcases h.2 hz with ⟨hfits, hk⟩
  rcases hb hfits with ⟨h0, hlt⟩
  refine ⟨h0, ?_⟩
  intro c hc
  cases List.mem_append.mp hc with
  | inl hc => exact hk c hc
  | inr hc => exact List.mem_singleton.mp hc ▸ hlt

theorem getstkScan_ok (h : m.FreeList gap (l₁ ++ l₂)) (alloc n fits fitsprev fuel : Nat)
    (hfuel : l₁.length ≤ fuel) (hfits : StackFit m (l₁ ++ l₂) n fits fitsprev) :
    StackSearched m (l₁ ++ l₂) l₁ n fits
      (m.getstkScan alloc n fuel (headOr m.memlist (l₂.map Span.start))
        (lastOr m.memlist (l₁.map Span.start)) fits fitsprev) := by
  induction l₁ using List.reverseRecOn generalizing l₂ fits fitsprev fuel with
  | nil =>
      have hstop : StackSearched m ([] ++ l₂) [] n fits (fits, fitsprev) :=
        ⟨hfits, fun hz => ⟨hz, by simp⟩⟩
      cases fuel with
      | zero => exact hstop
      | succ fuel =>
          unfold Mem.getstkScan
          rw [if_neg fun hne => hne rfl]
          exact hstop
  | append_singleton l₁ b ih =>
      cases fuel with
      | zero => simp at hfuel
      | succ fuel =>
          have hlength : l₁.length ≤ fuel := by simpa using hfuel
          rw [← List.append_cons] at h hfits ⊢
          obtain ⟨hmem, hsize, hne, -, hcurr⟩ := h.at_block
          have hpos := h.pos b hmem
          have hprev : (m.block b.start).mprev = _ := h.neighbours.1
          rw [hcurr]
          unfold Mem.getstkScan
          rw [if_pos hne, hprev, hsize]
          dsimp only
          by_cases htake : n ≤ b.size ∧ (alloc = MEMALLOC_FIRSTFIT ∨ fits = 0 ∨ b.size = n ∨
              b.size < (m.block fits).mlength)
          · rw [if_pos htake, if_pos htake]
            have hfit : StackFit m (l₁ ++ b :: l₂) n b.start
                (headOr m.memlist (l₂.map Span.start)) :=
              Or.inr ⟨l₁, b, l₂, rfl, rfl, htake.1, rfl⟩
            exact (ih h b.start _ fuel hlength hfit).concat fun hz => absurd hz (by omega)
          · rw [if_neg htake, if_neg htake]
            apply (ih h fits fitsprev fuel hlength hfits).concat
            intro hz
            refine ⟨hz, ?_⟩
            by_contra hle
            exact htake ⟨Nat.le_of_not_lt hle, Or.inr (Or.inl hz)⟩

/-- The search of {lit}`getstk` over the whole list. -/
theorem getstkScan_all (h : m.FreeList gap L) (alloc n : Nat) : StackSearched m L L n 0
    (m.getstkScan alloc n Mem.listFuel m.memlist (m.block m.memlist).mprev 0 0) := by
  have hlast : lastOr m.memlist (L.map Span.start) = (m.block m.memlist).mprev :=
    h.ring.prev_eq_lastOr.symm
  have hscan := getstkScan_ok (show m.FreeList gap (L ++ []) by rwa [List.append_nil]) alloc n 0 0
    Mem.listFuel h.length_le (Or.inl rfl)
  rwa [List.append_nil, hlast] at hscan

/-- The length of a block is changed, and its links are not. -/
theorem Mem.FreeList.resize (h : m.FreeList gap (l₁ ++ b :: l₂))
    (hnew : Spaced gap (l₁ ++ d :: l₂)) (hstart : d.start = b.start)
    (hd : d.stop ≤ 4294967296) (hout : m.memlist ∉ d.bytes)
    (hhead : m'.memlist = m.memlist) (hnx : ∀ y, m'.nexts y = m.nexts y)
    (hpv : ∀ y, m'.prevs y = m.prevs y)
    (hsize : ∀ y, y ≠ m.memlist →
      (m'.block y).mlength = if y = d.start then d.size else (m.block y).mlength) :
    m'.FreeList gap (l₁ ++ d :: l₂) := by
  have hlinks := h.links
  have hends := h.neighbours
  have hpos := h.pos b (by simp)
  have hne := h.start_ne_head (b := b) (by simp)
  have hsplit : l₁ ++ b :: l₂ = l₁ ++ [b] ++ l₂ := by rw [List.append_assoc]; rfl
  have hsplit' : l₁ ++ d :: l₂ = l₁ ++ [d] ++ l₂ := by rw [List.append_assoc]; rfl
  rw [hsplit] at h
  rw [hsplit'] at hnew ⊢
  apply h.splice hnew hhead
  · intro c hc
    cases List.mem_singleton.mp hc
    exact ⟨hstart ▸ hpos, hd, hout⟩
  · refine ⟨?_, ?_, ?_, ?_⟩
    · rw [hnx, hlinks.1, hstart]
    · rw [hpv, hstart, hends.1]
    · rw [hnx, hstart, hends.2]
    · rw [hpv, hlinks.2, hstart]
  · exact fun y _ _ _ => hnx y
  · exact fun y _ _ _ => hpv y
  · intro y hy _ hyd
    rw [hsize y hy, if_neg (by simpa using hyd)]
  · intro c hc
    cases List.mem_singleton.mp hc
    rw [hsize, if_pos rfl]
    exact hstart ▸ hne

/-- A block keeps its place in the ring and loses its last bytes. -/
theorem Mem.FreeList.cutHigh (h : m.FreeList gap (l₁ ++ b :: l₂)) (hlt : n < b.size)
    (f : Memblk → Nat) :
    ((m.setBlock b.start fun e => { e with mlength := b.size - n }).setBlock m.memlist fun e =>
      { e with mlength := f e }).FreeList gap (l₁ ++ b.dropHigh n ++ l₂) := by
  have hmem : b ∈ l₁ ++ b :: l₂ := by simp
  have hdrop : b.dropHigh n = [{ start := b.start, size := b.size - n }] :=
    if_neg (Nat.ne_of_gt hlt)
  have hnew : Spaced gap (l₁ ++ b.dropHigh n ++ l₂) :=
    h.spaced.replace (dropHigh_spaced (Nat.le_of_lt hlt)) dropHigh_within
  have hwithin := dropHigh_within { start := b.start, size := b.size - n }
    (hdrop ▸ List.mem_singleton_self _)
  have hout : m.memlist ∉ ({ start := b.start, size := b.size - n } : Span).bytes :=
    fun hin => h.head b hmem ⟨hin.1, Nat.lt_of_lt_of_le hin.2 hwithin.2⟩
  rw [hdrop, List.append_assoc] at hnew ⊢
  apply h.resize hnew rfl (Nat.le_trans hwithin.2 (h.stop_le b hmem)) hout
  · rfl
  · intro y
    simp
  · intro y
    simp
  · intro y hy
    simp [hy]

/-- The links that {lit}`getstk` sets for a block of the exact size. -/
theorem Mem.FreeList.unlinkedBack (h : m.FreeList gap (l₁ ++ b :: l₂)) (f : Memblk → Nat) :
    (((m.setBlock (headOr m.memlist (l₂.map Span.start)) fun e =>
        { e with mprev := lastOr m.memlist (l₁.map Span.start) }).setBlock
        (lastOr m.memlist (l₁.map Span.start)) fun e =>
        { e with mnext := headOr m.memlist (l₂.map Span.start) }).setBlock m.memlist fun e =>
        { e with mlength := f e }).FreeList gap (l₁ ++ [] ++ l₂) := by
  apply h.unlink
  · rfl
  · intro y
    simp
  · intro y
    simp
  · intro y hy
    simp [hy]

theorem getstk_ok (h : m.FreeList gap L) (alloc : Nat) {nbytes : Nat}
    (hpos : 0 < roundmb nbytes ∨ L = []) :
    (∃ (a : Nat) (m' : Mem) (L' : List Span),
      m.getstk alloc nbytes = (some (uint32 (a + roundmb nbytes - 4)), m') ∧
      m.Takes gap L { start := a, size := roundmb nbytes } m' L') ∨
    (m.getstk alloc nbytes = (none, m) ∧ (nbytes = 0 ∨ ∀ b ∈ L, b.size < roundmb nbytes)) := by
  unfold Mem.getstk
  by_cases hz : nbytes = 0
  · rw [if_pos hz]
    exact Or.inr ⟨rfl, Or.inl hz⟩
  rw [if_neg hz]
  dsimp only
  have hsearch := getstkScan_all h alloc (roundmb nbytes)
  generalize m.getstkScan alloc (roundmb nbytes) Mem.listFuel m.memlist
    (m.block m.memlist).mprev 0 0 = r at hsearch ⊢
  rcases hsearch with ⟨hfit, hnone⟩
  by_cases hfits : r.1 = 0
  · rw [if_pos hfits]
    exact Or.inr ⟨rfl, Or.inr (hnone hfits).2⟩
  · rw [if_neg hfits]
    rcases hfit.resolve_left hfits with ⟨l₁, b, l₂, rfl, hstart, hn, hprev⟩
    have hmem : b ∈ l₁ ++ b :: l₂ := by simp
    have hsize := h.size b hmem
    have hround := hpos.resolve_right (List.ne_nil_of_mem hmem)
    left
    rw [← hstart, ← hprev, hsize]
    by_cases hexact : roundmb nbytes = b.size
    · rw [if_pos hexact]
      have hbefore : (m.block b.start).mprev = lastOr m.memlist (l₁.map Span.start) :=
        h.neighbours.1
      have hall : b.dropHigh (roundmb nbytes) = [] := if_pos hexact.symm
      have hwhole : b.stop - roundmb nbytes = b.start := by
        unfold Span.stop
        omega
      refine ⟨b.start, _, l₁ ++ b.dropHigh (roundmb nbytes) ++ l₂, rfl, ?_⟩
      rw [hbefore]
      have hfree := h.unlinkedBack fun e => uint32 (e.mlength - roundmb nbytes)
      rw [← hall] at hfree
      have htakes := takes_high h hn hfree ⟨rfl, rfl, rfl⟩
      rw [hwhole] at htakes
      exact htakes
    · rw [if_neg hexact]
      have hlt : roundmb nbytes < b.size := Nat.lt_of_le_of_ne hn hexact
      have hstop := h.stop_le b hmem
      have hleft : uint32 (b.size - roundmb nbytes) = b.size - roundmb nbytes := by
        unfold uint32
        unfold Span.stop at hstop
        omega
      have htop : uint32 (b.start + (b.size - roundmb nbytes : Nat)) =
          b.stop - roundmb nbytes := by
        unfold uint32
        unfold Span.stop at hstop ⊢
        omega
      have hset : m.setBlock b.start (fun e =>
            { e with mlength := uint32 (e.mlength - roundmb nbytes) }) =
          m.setBlock b.start fun e => { e with mlength := b.size - roundmb nbytes } := by
        unfold Mem.setBlock
        dsimp only
        rw [hsize, hleft]
      have hread : ((m.setBlock b.start fun e =>
          { e with mlength := b.size - roundmb nbytes }).block b.start).mlength =
          b.size - roundmb nbytes := by
        simp
      have hfree := h.cutHigh hlt fun e => uint32 (e.mlength - roundmb nbytes)
      rw [hset, hread, htop]
      exact ⟨_, _, _, rfl, takes_high h hn hfree ⟨rfl, rfl, rfl⟩⟩

theorem getstk_total (h : m.FreeList gap L) (alloc : Nat) {nbytes a : Nat}
    (heq : m.getstk alloc nbytes = (some a, m')) :
    m'.total = uint32 (m.total - roundmb nbytes) := by
  unfold Mem.getstk at heq
  by_cases hz : nbytes = 0
  · rw [if_pos hz] at heq
    cases heq
  rw [if_neg hz] at heq
  dsimp only at heq
  have hsearch := getstkScan_all h alloc (roundmb nbytes)
  generalize m.getstkScan alloc (roundmb nbytes) Mem.listFuel m.memlist
    (m.block m.memlist).mprev 0 0 = r at hsearch heq
  by_cases hfits : r.1 = 0
  · rw [if_pos hfits] at heq
    cases heq
  · rw [if_neg hfits] at heq
    rcases hsearch.1.resolve_left hfits with ⟨l₁, b, l₂, rfl, hstart, _, _⟩
    have hne := (h.start_ne_head (b := b) (by simp)).symm
    rw [← hstart] at heq
    split at heq
    · cases heq
      unfold Mem.total
      simp
    · cases heq
      unfold Mem.total
      simp [hne]

/-!
## Requests that are rounded to nothing
-/

/-- Lengths aside from the head's and all links are the same. -/
theorem Mem.FreeList.same (h : m.FreeList gap L) (hhead : m'.memlist = m.memlist)
    (hnx : ∀ y, m'.nexts y = m.nexts y) (hpv : ∀ y, m'.prevs y = m.prevs y)
    (hsize : ∀ y, y ≠ m.memlist → (m'.block y).mlength = (m.block y).mlength) :
    m'.FreeList gap L where
  ring := hhead ▸ h.ring.congr (fun y _ => hnx y) (fun y _ => hpv y)
  size := fun b hb => (hsize _ (h.start_ne_head hb)).trans (h.size b hb)
  spaced := h.spaced
  pos := h.pos
  stop_le := h.stop_le
  head := hhead ▸ h.head

/-- {lit}`getmem` then hands out a block that stays on the list. -/
theorem getmem_nothing (h : m.FreeList gap L) (alloc : Nat) {nbytes : Nat} (hz : nbytes ≠ 0)
    (hround : roundmb nbytes = 0) (hL : L ≠ []) :
    ∃ b ∈ L, ∃ m', m.getmem alloc nbytes = (some b.start, m') ∧ m'.FreeList gap L := by
  unfold Mem.getmem
  rw [if_neg hz, hround]
  dsimp only
  have hsearch := getmemScan_all h alloc 0
  generalize m.getmemScan alloc 0 Mem.listFuel m.memlist (m.block m.memlist).mnext 0 = r
    at hsearch ⊢
  rcases r with ⟨exact, best⟩
  cases exact with
  | some p =>
      rcases hsearch with ⟨l₁, b, l₂, rfl, _, hsize, _⟩
      exact absurd hsize (Nat.ne_of_gt (h.spaced.size_pos b (by simp)))
  | none =>
      rcases hsearch with ⟨hfit, hnone⟩
      have hbest : best ≠ 0 := by
        intro hbest
        rcases List.exists_mem_of_ne_nil L hL with ⟨b, hb⟩
        exact Nat.not_lt_zero _ ((hnone hbest).2 b hb)
      rw [if_pos hbest]
      rcases hfit.resolve_left hbest with ⟨b, hb, rfl, _⟩
      rcases List.append_of_mem hb with ⟨l₁, l₂, rfl⟩
      refine ⟨b, hb, _, rfl, ?_⟩
      have hstop := h.stop_le b hb
      have hpos := h.spaced.size_pos b hb
      have hsize := h.size b hb
      have hprev : (m.block b.start).mprev = lastOr m.memlist (l₁.map Span.start) :=
        h.neighbours.1
      have hnext : m.nexts b.start = headOr m.memlist (l₂.map Span.start) := h.neighbours.2
      have hlinks := h.links
      have hself : b.start ≠ lastOr m.memlist (l₁.map Span.start) := fun he =>
        h.last_not_mem (he ▸ start_mem_bytes hpos)
      have hstart : uint32 (b.start + (0 : Nat)) = b.start := by
        unfold uint32
        unfold Span.stop at hstop
        omega
      have hlen : uint32 (b.size - (0 : Nat)) = b.size := by
        unfold uint32
        unfold Span.stop at hstop
        omega
      rw [hprev, hstart]
      have hread₁ : (((m.setBlock (lastOr m.memlist (l₁.map Span.start)) fun e =>
          { e with mnext := b.start }).setBlock b.start fun e =>
          { e with mprev := lastOr m.memlist (l₁.map Span.start) }).block b.start).mnext =
          headOr m.memlist (l₂.map Span.start) := by
        show Mem.nexts _ _ = _
        simp [hself, hnext]
      rw [hread₁]
      have hread₂ : ((((m.setBlock (lastOr m.memlist (l₁.map Span.start)) fun e =>
          { e with mnext := b.start }).setBlock b.start fun e =>
          { e with mprev := lastOr m.memlist (l₁.map Span.start) }).setBlock b.start fun e =>
          { e with mnext := headOr m.memlist (l₂.map Span.start) }).block b.start).mnext =
          headOr m.memlist (l₂.map Span.start) := by
        show Mem.nexts _ _ = _
        simp
      rw [hread₂]
      simp only [Mem.mlength_setPrev, Mem.mlength_setNext, Mem.memlist_setBlock, hsize, hlen]
      apply h.same
      · rfl
      · intro y
        simp only [Mem.nexts_setLength, Mem.nexts_setPrev, Mem.nexts_setNext]
        split
        · rename_i hy
          rw [hy, hnext]
        · split
          · rename_i hy
            rw [hy, hlinks.1]
          · rfl
      · intro y
        simp only [Mem.prevs_setLength, Mem.prevs_setPrev, Mem.prevs_setNext]
        split
        · rename_i hy
          rw [hy, hlinks.2]
        · split
          · rename_i hy
            rw [hy]
            exact hprev.symm
          · rfl
      · intro y hy
        simp only [Mem.mlength_setLength, Mem.mlength_setPrev, Mem.mlength_setNext, if_neg hy]
        split
        · rename_i hb
          rw [hb, hsize]
        · rfl

/-- {lit}`getstk` then hands out the end of a block that stays on the list. -/
theorem getstk_nothing (h : m.FreeList gap L) (alloc : Nat) {nbytes : Nat} (hz : nbytes ≠ 0)
    (hround : roundmb nbytes = 0) (hL : L ≠ []) :
    ∃ b ∈ L, ∃ m', m.getstk alloc nbytes = (some (uint32 (b.stop - 4)), m') ∧
      m'.FreeList gap L := by
  unfold Mem.getstk
  rw [if_neg hz, hround]
  dsimp only
  have hsearch := getstkScan_all h alloc 0
  generalize m.getstkScan alloc 0 Mem.listFuel m.memlist (m.block m.memlist).mprev 0 0 = r
    at hsearch ⊢
  rcases hsearch with ⟨hfit, hnone⟩
  have hfits : r.1 ≠ 0 := by
    intro hfits
    rcases List.exists_mem_of_ne_nil L hL with ⟨b, hb⟩
    exact Nat.not_lt_zero _ ((hnone hfits).2 b hb)
  rw [if_neg hfits]
  rcases hfit.resolve_left hfits with ⟨l₁, b, l₂, rfl, hstart, _, _⟩
  have hmem : b ∈ l₁ ++ b :: l₂ := by simp
  have hsize := h.size b hmem
  have hstop := h.stop_le b hmem
  have hpos := h.spaced.size_pos b hmem
  rw [← hstart, hsize, if_neg (Nat.ne_of_lt hpos)]
  have hlen : uint32 (b.size - (0 : Nat)) = b.size := by
    unfold uint32
    unfold Span.stop at hstop
    omega
  have hread : ((m.setBlock b.start fun e =>
      { e with mlength := uint32 (e.mlength - (0 : Nat)) }).block b.start).mlength = b.size := by
    simp only [Mem.mlength_setLength, if_true, hsize, hlen]
  have haddr : uint32 ((uint32 (b.start + b.size) : Nat) + (0 : Nat) - 4) =
      uint32 (b.stop - 4) := by
    unfold uint32 Span.stop
    omega
  rw [hread, haddr]
  refine ⟨b, hmem, _, rfl, ?_⟩
  apply h.same
  · rfl
  · intro y
    simp only [Mem.nexts_setLength]
  · intro y
    simp only [Mem.prevs_setLength]
  · intro y hy
    simp only [Mem.mlength_setLength, Mem.memlist_setBlock, if_neg hy]
    split
    · rename_i hb
      rw [hb, hsize, hlen]
    · rfl

end

end BbbXinu
