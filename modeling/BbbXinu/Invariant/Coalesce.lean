import BbbXinu.Invariant.FreeList

/-!
# Freeing blocks

{lit}`freemem` and {lit}`freestk` look for the place of a block from the front
and from the back, and then do the same: link it in or join it with the block
before, and join it with the block after.
-/

namespace BbbXinu

open LinkedLists

namespace Mem

/-- Link a block in, or join it with the block before it. -/
def linkLow (m : Mem) (prev next top block nbytes : Nat) : Nat × Mem :=
  if top = block then
    (prev, m.setBlock prev fun b => { b with mlength := uint32 (b.mlength + nbytes) })
  else
    let m := m.setBlock block fun b => { b with mnext := next }
    let m := m.setBlock next fun b => { b with mprev := block }
    let m := m.setBlock block fun b => { b with mlength := nbytes, mprev := prev }
    (block, m.setBlock prev fun b => { b with mnext := block })

/-- Join a block with the block after it. -/
def linkHigh (m : Mem) (block next : Nat) : Mem :=
  if uint32 (block + (m.block block).mlength) = next then
    let after := (m.block next).mnext
    let m := m.setBlock block fun b =>
      { b with mlength := uint32 (b.mlength + (m.block next).mlength), mnext := after }
    m.setBlock after fun b => { b with mprev := block }
  else m

/-- The part of {lit}`freemem` and {lit}`freestk` after the search. -/
def linkIn (m : Mem) (prev next top block nbytes : Nat) : Mem :=
  let m := m.setBlock m.memlist fun b => { b with mlength := uint32 (b.mlength + nbytes) }
  let r := m.linkLow prev next top block nbytes
  r.2.linkHigh r.1 next

/-- The end of the block before a place. -/
def topOf (m : Mem) (prev : Nat) : Nat :=
  if prev = m.memlist then 0 else uint32 (prev + (m.block prev).mlength)

theorem freemem_eq (m : Mem) (blkaddr nbytes : Nat) : m.freemem blkaddr nbytes =
    if nbytes = 0 ∨ blkaddr < m.minheap ∨ m.maxheap < blkaddr then (SYSERR, m)
    else
      let found := m.freememScan blkaddr listFuel m.memlist (m.block m.memlist).mnext
      if (found.1 ≠ m.memlist ∧ blkaddr < m.topOf found.1) ∨
          (found.2 ≠ 0 ∧ found.2 < uint32 (blkaddr + roundmb nbytes)) then
        (SYSERR, m)
      else (OK, m.linkIn found.1 found.2 (m.topOf found.1) blkaddr (roundmb nbytes)) := rfl

theorem freestk_eq (m : Mem) (stkaddr nbytes : Nat) : m.freestk stkaddr nbytes =
    let block := uint32 (stkaddr - nbytes + 4)
    if nbytes = 0 ∨ block < m.minheap ∨ m.maxheap < block then m
    else
      let found := m.freestkScan block listFuel m.memlist (m.block m.memlist).mprev
      if (found.2 ≠ m.memlist ∧ block < m.topOf found.2) ∨
          (found.1 ≠ m.memlist ∧ found.1 < uint32 (block + roundmb nbytes)) then m
      else m.linkIn found.2 found.1 (m.topOf found.2) block (roundmb nbytes) := rfl

end Mem

section

variable {gap gap' n : Nat} {m m' : Mem} {L l₁ l₂ : List Span} {a b c d : Span}

theorem Mem.FreeList.respace (h : m.FreeList gap L) (hs : Spaced gap' L) : m.FreeList gap' L :=
  { h with spaced := hs }

/-- A block is joined with the block before it. -/
theorem Mem.FreeList.joinBefore (h : m.FreeList gap (l₁ ++ b :: l₂))
    (hnew : Spaced gap (l₁ ++ b.join c :: l₂)) (htouch : b.stop = c.start)
    (hc : c.stop ≤ 4294967296) (hout : m.memlist ∉ c.bytes) :
    (m.setBlock b.start fun e => { e with mlength := uint32 (e.mlength + c.size) }).FreeList gap
      (l₁ ++ b.join c :: l₂) := by
  have hmem : b ∈ l₁ ++ b :: l₂ := by simp
  have hsize := h.size b hmem
  have hpos := h.pos b hmem
  have hlen : uint32 (b.size + c.size) = b.size + c.size := by
    unfold uint32
    unfold Span.stop at *
    omega
  apply h.resize hnew rfl
  · rw [join_stop htouch]
    exact hc
  · rw [join_bytes htouch]
    exact fun hin => hin.elim (h.head b hmem) hout
  · rfl
  · intro y
    simp only [Mem.nexts_setLength]
  · intro y
    simp only [Mem.prevs_setLength]
  · intro y _
    simp only [Mem.mlength_setLength, hsize, hlen]
    rfl

theorem nexts_setLengthPrev (addr y v n : Nat) :
    (m.setBlock addr fun e => { e with mlength := n, mprev := v }).nexts y = m.nexts y :=
  Mem.field_setBlock Memblk.mnext fun _ => rfl

theorem prevs_setLengthPrev (addr y v n : Nat) :
    (m.setBlock addr fun e => { e with mlength := n, mprev := v }).prevs y =
      if y = addr then v else m.prevs y := by
  unfold Mem.prevs Mem.setBlock
  dsimp only
  rw [upd_apply]
  split <;> rfl

theorem mlength_setLengthPrev (addr y v n : Nat) :
    ((m.setBlock addr fun e => { e with mlength := n, mprev := v }).block y).mlength =
      if y = addr then n else (m.block y).mlength := by
  unfold Mem.setBlock
  dsimp only
  rw [upd_apply]
  split <;> rfl

/-- A block is linked in as a node of its own. -/
theorem Mem.FreeList.linkNew (h : m.FreeList gap (l₁ ++ l₂))
    (hnew : Spaced gap (l₁ ++ c :: l₂)) (hpos : 0 < c.start)
    (hc : c.stop ≤ 4294967296) (hout : m.memlist ∉ c.bytes) {p q : Nat}
    (hp : p = lastOr m.memlist (l₁.map Span.start))
    (hq : q = headOr m.memlist (l₂.map Span.start)) :
    ((((m.setBlock c.start fun e => { e with mnext := q }).setBlock q fun e =>
      { e with mprev := c.start }).setBlock c.start fun e =>
      { e with mlength := c.size, mprev := p }).setBlock p fun e =>
      { e with mnext := c.start }).FreeList gap (l₁ ++ c :: l₂) := by
  have hsplit : l₁ ++ l₂ = l₁ ++ [] ++ l₂ := by rw [List.append_nil]
  have hsplit' : l₁ ++ c :: l₂ = l₁ ++ [c] ++ l₂ := by rw [List.append_assoc]; rfl
  have hin : c.start ∈ c.bytes := start_mem_bytes (hnew.size_pos c (by simp))
  have hself : c.start ≠ m.memlist := fun he => hout (he ▸ hin)
  have hnd : (m.memlist :: (l₁ ++ c :: l₂).map Span.start).Nodup := by
    apply List.nodup_cons.mpr
    refine ⟨?_, hnew.starts_nodup⟩
    intro hmem
    rcases List.mem_map.mp hmem with ⟨b, hb, he⟩
    rcases List.mem_append.mp hb with hb | hb
    · exact h.start_ne_head (List.mem_append_left _ hb) he
    · cases List.mem_cons.mp hb with
      | inl hb => exact hself (hb ▸ he)
      | inr hb => exact h.start_ne_head (List.mem_append_right _ hb) he
  have hcp : c.start ≠ p := by
    have hmem := lastOr_mem m.memlist (l₁.map Span.start)
    rw [hp]
    grind
  have hcq : c.start ≠ q := by
    have hmem := headOr_mem m.memlist (l₂.map Span.start)
    rw [hq]
    grind
  rw [hsplit] at h
  rw [hsplit'] at hnew ⊢
  apply h.splice hnew
  · rfl
  · intro d hd
    cases List.mem_singleton.mp hd
    exact ⟨hpos, hc, hout⟩
  · rw [← hp, ← hq]
    refine ⟨?_, ?_, ?_, ?_⟩
    · simp
    · simp [prevs_setLengthPrev]
    · simp [nexts_setLengthPrev, hcp]
    · simp [prevs_setLengthPrev, hcq.symm]
  · intro y hy _ hyc
    rw [← hp] at hy
    simp [nexts_setLengthPrev, hy, show y ≠ c.start by simpa using hyc]
  · intro y hy _ hyc
    rw [← hq] at hy
    simp [prevs_setLengthPrev, hy, show y ≠ c.start by simpa using hyc]
  · intro y _ _ hyc
    simp [mlength_setLengthPrev, show y ≠ c.start by simpa using hyc]
  · intro d hd
    cases List.mem_singleton.mp hd
    simp [mlength_setLengthPrev]

theorem nexts_setLengthNext (addr y v : Nat) (f : Memblk → Nat) :
    (m.setBlock addr fun e => { e with mlength := f e, mnext := v }).nexts y =
      if y = addr then v else m.nexts y := by
  unfold Mem.nexts Mem.setBlock
  dsimp only
  rw [upd_apply]
  split <;> rfl

theorem prevs_setLengthNext (addr y v : Nat) (f : Memblk → Nat) :
    (m.setBlock addr fun e => { e with mlength := f e, mnext := v }).prevs y = m.prevs y :=
  Mem.field_setBlock Memblk.mprev fun _ => rfl

theorem mlength_setLengthNext (addr y v : Nat) (f : Memblk → Nat) :
    ((m.setBlock addr fun e => { e with mlength := f e, mnext := v }).block y).mlength =
      if y = addr then f (m.block addr) else (m.block y).mlength := by
  unfold Mem.setBlock
  dsimp only
  rw [upd_apply]
  split <;> rfl

/-- A block is joined with the block after it. -/
theorem Mem.FreeList.joinAfter (h : m.FreeList gap (l₁ ++ b :: c :: l₂))
    (hnew : Spaced gap (l₁ ++ b.join c :: l₂)) (htouch : b.stop = c.start) :
    ((m.setBlock b.start fun e =>
      { e with mlength := uint32 (e.mlength + (m.block c.start).mlength),
               mnext := (m.block c.start).mnext }).setBlock (m.block c.start).mnext fun e =>
      { e with mprev := b.start }).FreeList gap (l₁ ++ b.join c :: l₂) := by
  have hsplit : l₁ ++ b :: c :: l₂ = l₁ ++ [b, c] ++ l₂ := by rw [List.append_assoc]; rfl
  have hsplit₂ : l₁ ++ b :: c :: l₂ = (l₁ ++ [b]) ++ c :: l₂ := by rw [List.append_assoc]; rfl
  have hsplit' : l₁ ++ b.join c :: l₂ = l₁ ++ [b.join c] ++ l₂ := by
    rw [List.append_assoc]
    rfl
  have hbmem : b ∈ l₁ ++ b :: c :: l₂ := by simp
  have hcmem : c ∈ l₁ ++ b :: c :: l₂ := by simp
  have hbsize := h.size b hbmem
  have hcsize := h.size c hcmem
  have hbpos := h.pos b hbmem
  have hcstop := h.stop_le c hcmem
  have hbhead := h.head b hbmem
  have hchead := h.head c hcmem
  have hlow := h.links.1
  have hprev := h.neighbours.1
  have hnd := h.nodup
  rw [hsplit₂] at h
  have hnext : (m.block c.start).mnext = headOr m.memlist (l₂.map Span.start) := h.neighbours.2
  rw [← hsplit₂, hsplit] at h
  have hlen : uint32 (b.size + c.size) = b.size + c.size := by
    unfold uint32
    unfold Span.stop at *
    omega
  have hbq : b.start ≠ headOr m.memlist (l₂.map Span.start) := by
    have hmem := headOr_mem m.memlist (l₂.map Span.start)
    grind
  have hbp : b.start ≠ lastOr m.memlist (l₁.map Span.start) := by
    have hmem := lastOr_mem m.memlist (l₁.map Span.start)
    grind
  rw [hcsize, hnext]
  rw [hsplit'] at hnew ⊢
  apply h.splice hnew
  · rfl
  · intro d hd
    cases List.mem_singleton.mp hd
    refine ⟨hbpos, ?_, ?_⟩
    · rw [join_stop htouch]
      exact hcstop
    · rw [join_bytes htouch]
      exact fun hin => hin.elim hbhead hchead
  · show _ = b.start ∧ _ = _ ∧ _ = _ ∧ _ = b.start
    refine ⟨?_, ?_, ?_, ?_⟩
    · rw [Mem.nexts_setPrev, nexts_setLengthNext, if_neg hbp.symm, hlow]
    · show Mem.prevs _ b.start = _
      rw [Mem.prevs_setPrev, if_neg hbq, prevs_setLengthNext, hprev]
    · show Mem.nexts _ b.start = _
      rw [Mem.nexts_setPrev, nexts_setLengthNext, if_pos rfl]
    · rw [Mem.prevs_setPrev, if_pos rfl]
  · intro y _ hy _
    rw [Mem.nexts_setPrev, nexts_setLengthNext, if_neg (by grind)]
  · intro y hy _ _
    rw [Mem.prevs_setPrev, if_neg hy, prevs_setLengthNext]
  · intro y _ hy _
    rw [Mem.mlength_setPrev, mlength_setLengthNext, if_neg (by grind)]
  · intro d hd
    cases List.mem_singleton.mp hd
    show Memblk.mlength (Mem.block _ b.start) = b.size + c.size
    rw [Mem.mlength_setPrev, mlength_setLengthNext, if_pos rfl, hbsize, hlen]

/-!
## Linking a block in
-/

theorem linkLow_ok (h : m.FreeList 1 (l₁ ++ l₂)) (hc : 0 < c.size) (hpos : 0 < c.start)
    (hstop : c.stop ≤ 4294967296) (hout : m.memlist ∉ c.bytes)
    (hlow : ∀ a ∈ l₁, a.stop ≤ c.start) (hhigh : ∀ a ∈ l₂, c.stop ≤ a.start) {top : Nat}
    (htop : top = m.topOf (lastOr m.memlist (l₁.map Span.start))) :
    let r := m.linkLow (lastOr m.memlist (l₁.map Span.start))
      (headOr m.memlist (l₂.map Span.start)) top c.start c.size
    r.1 = (joinLow l₁ c).2.start ∧ r.2.memlist = m.memlist ∧
      r.2.FreeList 0 ((joinLow l₁ c).1 ++ (joinLow l₁ c).2 :: l₂) := by
  have hnew := joinLow_spaced_append h.spaced hc hlow hhigh
  have h0 := h.respace (h.spaced.mono (Nat.zero_le 1))
  unfold Mem.linkLow
  cases List.eq_nil_or_concat' l₁ with
  | inl hnil =>
      subst hnil
      have hzero : m.topOf m.memlist = 0 := if_pos rfl
      have hne : top ≠ c.start := fun he => Nat.ne_of_lt hpos (hzero.symm.trans (htop.symm.trans he))
      rw [if_neg hne]
      exact ⟨rfl, rfl, h0.linkNew hnew hpos hstop hout rfl rfl⟩
  | inr hk =>
      rcases hk with ⟨k, b, rfl⟩
      have hsplit : k ++ [b] ++ l₂ = k ++ b :: l₂ := by rw [List.append_assoc]; rfl
      have hmem : b ∈ k ++ [b] ++ l₂ := by simp
      have hlast : lastOr m.memlist ((k ++ [b]).map Span.start) = b.start := by
        rw [List.map_append]
        exact lastOr_append_singleton _ _ _
      have htopb : top = b.stop := by
        have hle := hlow b (by simp)
        rw [htop, hlast]
        unfold Mem.topOf
        rw [if_neg (h.start_ne_head hmem), h.size b hmem]
        unfold uint32
        unfold Span.stop at *
        omega
      rw [joinLow_concat] at hnew ⊢
      rw [htopb]
      by_cases htouch : b.stop = c.start
      · rw [if_pos htouch] at hnew ⊢
        rw [if_pos htouch, hlast]
        rw [hsplit] at h0
        exact ⟨rfl, rfl, h0.joinBefore hnew htouch hstop hout⟩
      · rw [if_neg htouch] at hnew ⊢
        rw [if_neg htouch]
        exact ⟨rfl, rfl, h0.linkNew hnew hpos hstop hout rfl rfl⟩

theorem linkHigh_ok (h : m.FreeList 0 (l₁ ++ b :: l₂)) (hstop : b.stop < 4294967296)
    (hhead : m.memlist < b.stop)
    (hnew : Spaced 1 (l₁ ++ (joinHigh b l₂).1 :: (joinHigh b l₂).2)) :
    (m.linkHigh b.start (headOr m.memlist (l₂.map Span.start))).FreeList 1
      (l₁ ++ (joinHigh b l₂).1 :: (joinHigh b l₂).2) := by
  have hmem : b ∈ l₁ ++ b :: l₂ := by simp
  have hend : uint32 (b.start + (m.block b.start).mlength) = b.stop := by
    rw [h.size b hmem]
    unfold uint32
    unfold Span.stop at *
    omega
  unfold Mem.linkHigh
  rw [hend]
  cases l₂ with
  | nil =>
      have hne : b.stop ≠ headOr m.memlist (([] : List Span).map Span.start) :=
        Nat.ne_of_gt hhead
      rw [if_neg hne]
      exact h.respace hnew
  | cons c l₂ =>
      have hnext : headOr m.memlist ((c :: l₂).map Span.start) = c.start := rfl
      rw [joinHigh_cons] at hnew ⊢
      rw [hnext]
      by_cases htouch : b.stop = c.start
      · rw [if_pos htouch] at hnew ⊢
        rw [if_pos htouch]
        exact (h.joinAfter (hnew.mono (Nat.zero_le 1)) htouch).respace hnew
      · rw [if_neg htouch] at hnew ⊢
        rw [if_neg htouch]
        exact h.respace hnew

/-- The block is back on the list, joined with its neighbours. -/
theorem linkIn_ok (h : m.FreeList 1 (l₁ ++ l₂)) (hc : 0 < c.size)
    (hstop : c.stop < 4294967296) (hhead : m.memlist < c.start)
    (hlow : ∀ a ∈ l₁, a.stop ≤ c.start) (hhigh : ∀ a ∈ l₂, c.stop ≤ a.start) :
    (m.linkIn (lastOr m.memlist (l₁.map Span.start)) (headOr m.memlist (l₂.map Span.start))
      (m.topOf (lastOr m.memlist (l₁.map Span.start))) c.start c.size).FreeList 1
      (putBack l₁ c l₂) := by
  have hpos : 0 < c.start := by omega
  have hout : m.memlist ∉ c.bytes := fun hin => absurd hin.1 (Nat.not_le_of_lt hhead)
  have hnew := putBack_spaced h.spaced hc hlow hhigh
  have hm : (m.setBlock m.memlist fun b =>
      { b with mlength := uint32 (b.mlength + c.size) }).FreeList 1 (l₁ ++ l₂) := by
    apply h.same
    · rfl
    · intro y
      simp
    · intro y
      simp
    · intro y hy
      simp [hy]
  have htop : m.topOf (lastOr m.memlist (l₁.map Span.start)) =
      (m.setBlock m.memlist fun b => { b with mlength := uint32 (b.mlength + c.size) }).topOf
        (lastOr m.memlist (l₁.map Span.start)) := by
    unfold Mem.topOf
    rw [Mem.memlist_setBlock]
    split
    · rfl
    · rename_i hne
      rw [Mem.mlength_setLength, if_neg hne]
  rcases linkLow_ok hm hc hpos (Nat.le_of_lt hstop) hout hlow hhigh htop with
    ⟨hstart, hlist, hfree⟩
  unfold putBack at hnew ⊢
  dsimp only at hnew ⊢
  rw [Mem.memlist_setBlock] at hstart hlist hfree
  have hspan : (joinLow l₁ c).2.stop = c.stop := joinLow_stop
  have hhigh' := linkHigh_ok hfree (by rw [hspan]; exact hstop)
    (by rw [hspan, hlist]; exact Nat.lt_of_lt_of_le hhead (Nat.le_add_right _ _)) hnew
  rw [hlist, ← hstart] at hhigh'
  exact hhigh'

/-!
## The searches
-/

theorem freememScan_ok (h : m.FreeList gap (l₁ ++ l₂)) (block fuel : Nat)
    (hfuel : l₂.length ≤ fuel) (hlow : ∀ a ∈ l₁, a.start < block) :
    ∃ k₁ k₂, l₁ ++ l₂ = k₁ ++ k₂ ∧ (∀ a ∈ k₁, a.start < block) ∧
      (∀ a ∈ k₂, block ≤ a.start) ∧
      m.freememScan block fuel (lastOr m.memlist (l₁.map Span.start))
          (headOr m.memlist (l₂.map Span.start)) =
        (lastOr m.memlist (k₁.map Span.start), headOr m.memlist (k₂.map Span.start)) := by
  induction l₂ generalizing l₁ fuel with
  | nil =>
      refine ⟨l₁, [], rfl, hlow, by simp, ?_⟩
      cases fuel with
      | zero => rfl
      | succ fuel =>
          unfold Mem.freememScan
          rw [if_neg fun hne => hne.1 rfl]
  | cons b l₂ ih =>
      cases fuel with
      | zero => exact absurd hfuel (Nat.not_succ_le_zero _)
      | succ fuel =>
          obtain ⟨-, -, hne, hnext, hprev⟩ := h.at_block
          have hsplit := List.append_cons l₁ b l₂
          show ∃ k₁ k₂, _ ∧ _ ∧ _ ∧ m.freememScan block (fuel + 1) _ b.start = _
          unfold Mem.freememScan
          by_cases hlt : b.start < block
          · rw [if_pos ⟨hne, hlt⟩, hnext]
            have hrest := ih (show m.FreeList gap ((l₁ ++ [b]) ++ l₂) from hsplit ▸ h) fuel
              (Nat.le_of_succ_le_succ hfuel) (by
                intro a ha
                cases List.mem_append.mp ha with
                | inl ha => exact hlow a ha
                | inr ha => exact List.mem_singleton.mp ha ▸ hlt)
            rw [hprev, ← hsplit] at hrest
            exact hrest
          · rw [if_neg fun hcond => hlt hcond.2]
            refine ⟨l₁, b :: l₂, rfl, hlow, ?_, rfl⟩
            intro a ha
            rcases spaced_cons.mp h.spaced.of_append_right with ⟨_, _, hab⟩
            cases List.mem_cons.mp ha with
            | inl ha =>
                rw [ha]
                exact Nat.le_of_not_lt hlt
            | inr ha =>
                have hle := hab a ha
                unfold Span.stop at hle
                omega

theorem freestkScan_ok (h : m.FreeList gap (l₁ ++ l₂)) (block fuel : Nat)
    (hfuel : l₁.length ≤ fuel) (hhigh : ∀ a ∈ l₂, block < a.start) :
    ∃ k₁ k₂, l₁ ++ l₂ = k₁ ++ k₂ ∧ (∀ a ∈ k₁, a.start ≤ block) ∧
      (∀ a ∈ k₂, block < a.start) ∧
      m.freestkScan block fuel (headOr m.memlist (l₂.map Span.start))
          (lastOr m.memlist (l₁.map Span.start)) =
        (headOr m.memlist (k₂.map Span.start), lastOr m.memlist (k₁.map Span.start)) := by
  induction l₁ using List.reverseRecOn generalizing l₂ fuel with
  | nil =>
      refine ⟨[], l₂, rfl, by simp, hhigh, ?_⟩
      cases fuel with
      | zero => rfl
      | succ fuel =>
          unfold Mem.freestkScan
          rw [if_neg fun hne => hne.1 rfl]
  | append_singleton l₁ b ih =>
      cases fuel with
      | zero => simp at hfuel
      | succ fuel =>
          have hlength : l₁.length ≤ fuel := by simpa using hfuel
          have hspaced := h.spaced
          rw [← List.append_cons] at h
          obtain ⟨-, -, hne, -, hcurr⟩ := h.at_block
          rw [hcurr]
          unfold Mem.freestkScan
          by_cases hlt : block < b.start
          · rw [← List.append_cons]
            have hprev : (m.block b.start).mprev = _ := h.neighbours.1
            rw [if_pos ⟨hne, hlt⟩, hprev]
            apply ih h fuel hlength
            intro a ha
            cases List.mem_cons.mp ha with
            | inl ha => exact ha ▸ hlt
            | inr ha => exact hhigh a ha
          · rw [if_neg fun hcond => hlt hcond.2]
            refine ⟨l₁ ++ [b], l₂, rfl, ?_, hhigh, by rw [hcurr]⟩
            intro a ha
            cases List.mem_append.mp ha with
            | inl ha =>
                have hab := (spaced_append.mp hspaced.of_append_left).2.2 a ha b (by simp)
                unfold Span.stop at hab
                omega
            | inr ha =>
                rw [List.mem_singleton.mp ha]
                exact Nat.le_of_not_lt hlt

/-!
## freemem and freestk
-/

/-- The bytes of {lit}`a` are put back. -/
structure Mem.Gives (m : Mem) (L : List Span) (a : Span) (m' : Mem) (L' : List Span) :
    Prop where
  free : m'.FreeList 1 L'
  bytes : spanBytes L' = spanBytes L ∪ a.bytes
  bounds : m.SameBounds m'

/-- A block that may be freed. -/
structure Mem.Freeable (m : Mem) (L : List Span) (a : Span) : Prop where
  size_pos : 0 < a.size
  round : roundmb a.size = a.size
  low : m.minheap ≤ a.start
  high : a.stop ≤ m.maxheap
  apart : Disjoint a.bytes (spanBytes L)
  head : m.memlist < m.minheap
  max : m.maxheap < 4294967296

theorem linkLow_bounds (prev next top block nbytes : Nat) :
    m.SameBounds (m.linkLow prev next top block nbytes).2 := by
  unfold Mem.linkLow
  split
  · exact ⟨rfl, rfl, rfl⟩
  · exact ⟨rfl, rfl, rfl⟩

theorem linkHigh_bounds (block next : Nat) : m.SameBounds (m.linkHigh block next) := by
  unfold Mem.linkHigh
  split
  · exact ⟨rfl, rfl, rfl⟩
  · exact ⟨rfl, rfl, rfl⟩

theorem linkIn_bounds (prev next top block nbytes : Nat) :
    m.SameBounds (m.linkIn prev next top block nbytes) := by
  have hfirst : m.SameBounds (m.setBlock m.memlist fun b =>
      { b with mlength := uint32 (b.mlength + nbytes) }) := ⟨rfl, rfl, rfl⟩
  exact (hfirst.trans (linkLow_bounds prev next top block nbytes)).trans (linkHigh_bounds _ _)

theorem linkLow_total (next nbytes : Nat) {prev top block : Nat} (hblock : block ≠ m.memlist)
    (htop : prev = m.memlist → top ≠ block) :
    (m.linkLow prev next top block nbytes).2.total = m.total ∧
      (m.linkLow prev next top block nbytes).1 ≠ m.memlist := by
  unfold Mem.linkLow Mem.total
  by_cases htouch : top = block
  · have hprev : prev ≠ m.memlist := fun he => htop he htouch
    rw [if_pos htouch]
    simp [hprev, hprev.symm]
  · rw [if_neg htouch]
    simp [mlength_setLengthPrev, hblock, hblock.symm]

theorem linkHigh_total {block next : Nat} (hblock : block ≠ m.memlist) :
    (m.linkHigh block next).total = m.total := by
  unfold Mem.linkHigh Mem.total
  split
  · simp [mlength_setLengthNext, hblock.symm]
  · rfl

theorem linkIn_total {prev next top block nbytes : Nat} (hblock : block ≠ m.memlist)
    (htop : prev = m.memlist → top ≠ block) :
    (m.linkIn prev next top block nbytes).total = uint32 (m.total + nbytes) := by
  have hfirst : (m.setBlock m.memlist fun b =>
      { b with mlength := uint32 (b.mlength + nbytes) }).total = uint32 (m.total + nbytes) := by
    unfold Mem.total
    simp
  have hlow := linkLow_total (m := m.setBlock m.memlist fun b =>
    { b with mlength := uint32 (b.mlength + nbytes) }) next nbytes hblock htop
  rcases hlow with ⟨htotal, hne⟩
  have hsame : ((m.setBlock m.memlist fun b =>
      { b with mlength := uint32 (b.mlength + nbytes) }).linkLow prev next top block
        nbytes).2.memlist = m.memlist := (linkLow_bounds _ _ _ _ _).memlist
  exact (linkHigh_total (hsame.symm ▸ hne)).trans (htotal.trans hfirst)

/-- The block before a place reaches over it. -/
theorem topOf_lt_iff (h : m.FreeList 1 (l₁ ++ l₂)) (hstop : ∀ b ∈ l₁, b.stop < 4294967296)
    (x : Nat) : (lastOr m.memlist (l₁.map Span.start) ≠ m.memlist ∧
      x < m.topOf (lastOr m.memlist (l₁.map Span.start))) ↔ ∃ b ∈ l₁, x < b.stop := by
  cases List.eq_nil_or_concat' l₁ with
  | inl hnil =>
      subst hnil
      constructor
      · exact fun hlt => absurd rfl hlt.1
      · intro hex
        rcases hex with ⟨b, hb, _⟩
        cases hb
  | inr hk =>
      rcases hk with ⟨k, b, rfl⟩
      have hmem : b ∈ k ++ [b] ++ l₂ := by simp
      have hne := h.start_ne_head hmem
      have htop : m.topOf b.start = b.stop := by
        have hlt := hstop b (by simp)
        unfold Mem.topOf
        rw [if_neg hne, h.size b hmem]
        unfold uint32
        unfold Span.stop at *
        omega
      rw [List.map_append, List.map_singleton, lastOr_append_singleton, htop, and_iff_right hne]
      constructor
      · exact fun hlt => ⟨b, by simp, hlt⟩
      · intro hex
        rcases hex with ⟨c, hc, hlt⟩
        cases List.mem_append.mp hc with
        | inl hc =>
            have hcb := (spaced_append.mp h.spaced.of_append_left).2.2 c hc b (by simp)
            unfold Span.stop at *
            omega
        | inr hc => exact List.mem_singleton.mp hc ▸ hlt

/-- The blocks around a place leave room for a block there. -/
theorem disjoint_of_place (hlow : ∀ b ∈ l₁, b.stop ≤ c.start)
    (hhigh : ∀ b ∈ l₂, c.stop ≤ b.start) : Disjoint c.bytes (spanBytes (l₁ ++ l₂)) := by
  apply disjoint_spanBytes.mpr
  intro b hb
  cases List.mem_append.mp hb with
  | inl hb => exact (disjoint_of_le (hlow b hb)).symm
  | inr hb => exact disjoint_of_le (hhigh b hb)

theorem gives_linkIn (h : m.FreeList 1 (l₁ ++ l₂)) (hc : 0 < c.size)
    (hstop : c.stop < 4294967296) (hhead : m.memlist < c.start)
    (hlow : ∀ b ∈ l₁, b.stop ≤ c.start) (hhigh : ∀ b ∈ l₂, c.stop ≤ b.start) :
    m.Gives (l₁ ++ l₂) c
      (m.linkIn (lastOr m.memlist (l₁.map Span.start)) (headOr m.memlist (l₂.map Span.start))
        (m.topOf (lastOr m.memlist (l₁.map Span.start))) c.start c.size)
      (putBack l₁ c l₂) :=
  ⟨linkIn_ok h hc hstop hhead hlow hhigh, putBack_bytes, linkIn_bounds _ _ _ _ _⟩

theorem linkIn_place_total (hhead : m.memlist < c.start) :
    (m.linkIn (lastOr m.memlist (l₁.map Span.start)) (headOr m.memlist (l₂.map Span.start))
      (m.topOf (lastOr m.memlist (l₁.map Span.start))) c.start c.size).total =
      uint32 (m.total + c.size) := by
  apply linkIn_total (Nat.ne_of_gt hhead)
  intro he htouch
  have hzero : m.topOf (lastOr m.memlist (l₁.map Span.start)) = 0 := if_pos he
  omega

/-- The first block behind a place is the nearest. -/
theorem first_lt_iff (h : Spaced gap l₂) (head x : Nat) :
    (∃ b ∈ l₂, b.start < x) ↔ l₂ ≠ [] ∧ headOr head (l₂.map Span.start) < x := by
  cases l₂ with
  | nil => simp
  | cons b l₂ =>
      show _ ↔ _ ∧ b.start < x
      constructor
      · intro hex
        rcases hex with ⟨c, hc, hlt⟩
        refine ⟨by simp, ?_⟩
        cases List.mem_cons.mp hc with
        | inl hc => exact hc ▸ hlt
        | inr hc =>
            have hbc := (spaced_cons.mp h).2.2 c hc
            unfold Span.stop at hbc
            omega
      · exact fun hlt => ⟨b, by simp, hlt.2⟩

/-- {lit}`freemem` compares the block with those before and behind its place, and
takes the head of the list for a block behind it. -/
theorem freemem_place (h : m.FreeList 1 L) {nbytes : Nat} (hz : nbytes ≠ 0)
    (hc : c.size = roundmb nbytes) (hstop : c.stop < 4294967296)
    (hstops : ∀ b ∈ L, b.start < c.start → b.stop < 4294967296) :
    ∃ l₁ l₂, L = l₁ ++ l₂ ∧ (∀ b ∈ l₁, b.start < c.start) ∧ (∀ b ∈ l₂, c.start ≤ b.start) ∧
      m.freemem c.start nbytes =
        if (c.start < m.minheap ∨ m.maxheap < c.start) ∨ (∃ b ∈ l₁, c.start < b.stop) ∨
            (headOr m.memlist (l₂.map Span.start) ≠ 0 ∧
              headOr m.memlist (l₂.map Span.start) < c.stop) then (SYSERR, m)
        else (OK, m.linkIn (lastOr m.memlist (l₁.map Span.start))
          (headOr m.memlist (l₂.map Span.start))
          (m.topOf (lastOr m.memlist (l₁.map Span.start))) c.start c.size) := by
  have hfirst : headOr m.memlist (L.map Span.start) = (m.block m.memlist).mnext :=
    h.ring.next_eq_headOr.symm
  rcases freememScan_ok (show m.FreeList 1 ([] ++ L) from h) c.start Mem.listFuel h.length_le
    (by simp) with
    ⟨l₁, l₂, hsplit, hbefore, hafter, hscan⟩
  rw [List.nil_append] at hsplit
  subst hsplit
  refine ⟨l₁, l₂, rfl, hbefore, hafter, ?_⟩
  have hlast := topOf_lt_iff h
    (fun b hb => hstops b (List.mem_append_left _ hb) (hbefore b hb)) c.start
  have hend : uint32 (c.start + roundmb nbytes) = c.stop := by
    unfold uint32
    unfold Span.stop at *
    omega
  rw [hfirst] at hscan
  rw [Mem.freemem_eq, show m.freememScan c.start Mem.listFuel m.memlist
    (m.block m.memlist).mnext = _ from hscan]
  dsimp only
  by_cases hout : c.start < m.minheap ∨ m.maxheap < c.start
  · rw [if_pos (Or.inr hout), if_pos (Or.inl hout)]
  · rw [if_neg (not_or.mpr ⟨hz, hout⟩)]
    simp only [hend, hlast, hc, hout, false_or]

/-- Whatever is put back was not free before. -/
theorem freemem_cases (h : m.FreeList 1 L) {nbytes : Nat} (hz : nbytes ≠ 0)
    (hc : c.size = roundmb nbytes) (hpos : 0 < c.size) (hhead : m.memlist < c.start)
    (hstop : c.stop < 4294967296) (hstops : ∀ b ∈ L, b.start < c.start → b.stop < 4294967296) :
    m.freemem c.start nbytes = (SYSERR, m) ∨
      ∃ m' L', m.freemem c.start nbytes = (OK, m') ∧ Disjoint c.bytes (spanBytes L) ∧
        m.Gives L c m' L' ∧ m'.total = uint32 (m.total + c.size) := by
  rcases freemem_place h hz hc hstop hstops with ⟨l₁, l₂, rfl, _, _, heq⟩
  rw [heq]
  split
  · exact Or.inl rfl
  · rename_i hover
    right
    have hlow : ∀ b ∈ l₁, b.stop ≤ c.start := fun b hb =>
      Nat.le_of_not_lt fun hlt => hover (Or.inr (Or.inl ⟨b, hb, hlt⟩))
    have hhigh : ∀ b ∈ l₂, c.stop ≤ b.start := by
      intro b hb
      by_contra hlt
      rcases (first_lt_iff h.spaced.of_append_right m.memlist _).mp
        ⟨b, hb, Nat.lt_of_not_le hlt⟩ with ⟨hne, hfirst⟩
      apply hover
      refine Or.inr (Or.inr ⟨?_, hfirst⟩)
      cases l₂ with
      | nil => exact absurd rfl hne
      | cons d l₂ => exact Nat.ne_of_gt (h.pos d (by simp))
    exact ⟨_, _, rfl, disjoint_of_place hlow hhigh,
      gives_linkIn h hpos hstop hhead hlow hhigh, linkIn_place_total hhead⟩

theorem Mem.Freeable.stops (ha : m.Freeable L a) (b : Span) (hb : b ∈ L) (hlt : b.start < a.start) :
    b.stop < 4294967296 := by
  have hle := le_of_disjoint ha.size_pos (disjoint_spanBytes.mp ha.apart b hb).symm
    (Nat.le_of_lt hlt)
  have hhigh := ha.high
  have hmax := ha.max
  unfold Span.stop at *
  omega

theorem freemem_ok (h : m.FreeList 1 L) (ha : m.Freeable L a) :
    m.freemem a.start a.size = (SYSERR, m) ∨
      ∃ m' L', m.freemem a.start a.size = (OK, m') ∧ m.Gives L a m' L' := by
  have hcases := freemem_cases h (Nat.ne_of_gt ha.size_pos) ha.round.symm ha.size_pos
    (Nat.lt_of_lt_of_le ha.head ha.low) (Nat.lt_of_le_of_lt ha.high ha.max) ha.stops
  rcases hcases with herr | ⟨m', L', heq, _, hgives, _⟩
  · exact Or.inl herr
  · exact Or.inr ⟨m', L', heq, hgives⟩

/-- A block that is held is put back if and only if some free block lies above
it. -/
theorem freemem_ok_iff (h : m.FreeList 1 L) {nbytes : Nat} (hc : c.size = roundmb nbytes)
    (ha : m.Freeable L c) (h0 : m.memlist ≠ 0) :
    (m.freemem c.start nbytes).1 = OK ↔ ∃ b ∈ L, c.stop ≤ b.start := by
  have hsize := ha.size_pos
  have hmin := ha.low
  have hmax := ha.high
  have hhead := ha.head
  have hz : nbytes ≠ 0 := by
    rintro rfl
    rw [hc] at hsize
    exact absurd hsize (by decide)
  rcases freemem_place h hz hc (Nat.lt_of_le_of_lt ha.high ha.max) ha.stops with
    ⟨l₁, l₂, rfl, hbefore, hafter, heq⟩
  have hlow : ¬ ∃ b ∈ l₁, c.start < b.stop := by
    intro hex
    rcases hex with ⟨b, hb, hlt⟩
    have hle := le_of_disjoint hsize
      (disjoint_spanBytes.mp ha.apart b (List.mem_append_left _ hb)).symm
      (Nat.le_of_lt (hbefore b hb))
    omega
  have hhigh : ∀ b ∈ l₂, c.stop ≤ b.start := fun b hb =>
    le_of_disjoint (h.spaced.size_pos b (List.mem_append_right _ hb))
      (disjoint_spanBytes.mp ha.apart b (List.mem_append_right _ hb)) (hafter b hb)
  have hin : ¬ (c.start < m.minheap ∨ m.maxheap < c.start) := by
    unfold Span.stop at hmax
    omega
  rw [heq]
  cases l₂ with
  | nil =>
      have hlt : m.memlist < c.stop := by
        unfold Span.stop
        omega
      have hover : headOr m.memlist (([] : List Span).map Span.start) ≠ 0 ∧
          headOr m.memlist (([] : List Span).map Span.start) < c.stop := ⟨h0, hlt⟩
      rw [if_pos (Or.inr (Or.inr hover))]
      constructor
      · exact fun hok => absurd hok (show SYSERR ≠ OK by decide)
      · intro habove
        rcases habove with ⟨b, hb, hle⟩
        have hlt := hbefore b (by simpa using hb)
        unfold Span.stop at hle
        omega
  | cons b l₂ =>
      have hnext : ¬ b.start < c.stop := Nat.not_lt_of_le (hhigh b (by simp))
      rw [if_neg (not_or.mpr ⟨hin, not_or.mpr ⟨hlow, fun hover => hnext hover.2⟩⟩)]
      exact ⟨fun _ => ⟨b, by simp, hhigh b (by simp)⟩, fun _ => rfl⟩

/-- {lit}`freestk` compares the block with those before and behind its place. -/
theorem freestk_place (h : m.FreeList 1 L) {stkaddr nbytes : Nat} (hz : nbytes ≠ 0)
    (hbase : uint32 (stkaddr - nbytes + 4) = c.start) (hc : c.size = roundmb nbytes)
    (hstop : c.stop < 4294967296) (hstops : ∀ b ∈ L, b.start ≤ c.start → b.stop < 4294967296) :
    ∃ l₁ l₂, L = l₁ ++ l₂ ∧ (∀ b ∈ l₁, b.start ≤ c.start) ∧ (∀ b ∈ l₂, c.start < b.start) ∧
      m.freestk stkaddr nbytes =
        if (c.start < m.minheap ∨ m.maxheap < c.start) ∨ (∃ b ∈ l₁, c.start < b.stop) ∨
            (∃ b ∈ l₂, b.start < c.stop) then m
        else m.linkIn (lastOr m.memlist (l₁.map Span.start))
          (headOr m.memlist (l₂.map Span.start))
          (m.topOf (lastOr m.memlist (l₁.map Span.start))) c.start c.size := by
  have hlast : lastOr m.memlist (L.map Span.start) = (m.block m.memlist).mprev :=
    h.ring.prev_eq_lastOr.symm
  rcases freestkScan_ok (show m.FreeList 1 (L ++ []) by rwa [List.append_nil]) c.start Mem.listFuel
    h.length_le (by simp) with ⟨l₁, l₂, hsplit, hbefore, hafter, hscan⟩
  rw [List.append_nil] at hsplit
  subst hsplit
  refine ⟨l₁, l₂, rfl, hbefore, hafter, ?_⟩
  have hbelow := topOf_lt_iff h
    (fun b hb => hstops b (List.mem_append_left _ hb) (hbefore b hb)) c.start
  have habove : (headOr m.memlist (l₂.map Span.start) ≠ m.memlist ∧
      headOr m.memlist (l₂.map Span.start) < c.stop) ↔ ∃ b ∈ l₂, b.start < c.stop := by
    rw [first_lt_iff h.spaced.of_append_right m.memlist]
    apply and_congr_left
    intro _
    cases l₂ with
    | nil => exact ⟨fun hne => absurd rfl hne, fun hne => absurd rfl hne⟩
    | cons b l₂ => exact ⟨fun _ => by simp, fun _ => h.start_ne_head (b := b) (by simp)⟩
  have hend : uint32 (c.start + roundmb nbytes) = c.stop := by
    unfold uint32
    unfold Span.stop at *
    omega
  rw [hlast] at hscan
  rw [Mem.freestk_eq]
  dsimp only
  rw [hbase, show m.freestkScan c.start Mem.listFuel m.memlist (m.block m.memlist).mprev = _ from
    hscan]
  dsimp only
  by_cases hout : c.start < m.minheap ∨ m.maxheap < c.start
  · rw [if_pos (Or.inr hout), if_pos (Or.inl hout)]
  · rw [if_neg (not_or.mpr ⟨hz, hout⟩)]
    simp only [hend, hbelow, habove, hc, hout, false_or]

theorem freestk_cases (h : m.FreeList 1 L) {stkaddr nbytes : Nat} (hz : nbytes ≠ 0)
    (hbase : uint32 (stkaddr - nbytes + 4) = c.start) (hc : c.size = roundmb nbytes)
    (hpos : 0 < c.size) (hhead : m.memlist < c.start) (hstop : c.stop < 4294967296)
    (hstops : ∀ b ∈ L, b.start ≤ c.start → b.stop < 4294967296) :
    (m.freestk stkaddr nbytes = m ∧ ((c.start < m.minheap ∨ m.maxheap < c.start) ∨
      ¬ Disjoint c.bytes (spanBytes L))) ∨
    ∃ L', Disjoint c.bytes (spanBytes L) ∧ m.Gives L c (m.freestk stkaddr nbytes) L' ∧
      (m.freestk stkaddr nbytes).total = uint32 (m.total + c.size) := by
  rcases freestk_place h hz hbase hc hstop hstops with ⟨l₁, l₂, rfl, hbefore, hafter, heq⟩
  rw [heq]
  split
  · rename_i hover
    refine Or.inl ⟨rfl, hover.imp_right ?_⟩
    intro hover hapart
    rcases hover with ⟨b, hb, hlt⟩ | ⟨b, hb, hlt⟩
    · have hle := le_of_disjoint hpos
        (disjoint_spanBytes.mp hapart b (List.mem_append_left _ hb)).symm (hbefore b hb)
      omega
    · have hle := le_of_disjoint (h.spaced.size_pos b (List.mem_append_right _ hb))
        (disjoint_spanBytes.mp hapart b (List.mem_append_right _ hb))
        (Nat.le_of_lt (hafter b hb))
      omega
  · rename_i hover
    rcases not_or.mp (not_or.mp hover).2 with ⟨hbelow, habove⟩
    have hlow : ∀ b ∈ l₁, b.stop ≤ c.start := fun b hb =>
      Nat.le_of_not_lt fun hlt => hbelow ⟨b, hb, hlt⟩
    have hhigh : ∀ b ∈ l₂, c.stop ≤ b.start := fun b hb =>
      Nat.le_of_not_lt fun hlt => habove ⟨b, hb, hlt⟩
    exact Or.inr ⟨_, disjoint_of_place hlow hhigh,
      gives_linkIn h hpos hstop hhead hlow hhigh, linkIn_place_total hhead⟩

/-- A block that is held is put back. -/
theorem freestk_ok (h : m.FreeList 1 L) {nbytes : Nat} (hc : a.size = roundmb nbytes)
    (ha : m.Freeable L a) {stkaddr : Nat} (hstk : stkaddr + 4 = a.start + nbytes) :
    ∃ L', m.Gives L a (m.freestk stkaddr nbytes) L' := by
  have hsize := ha.size_pos
  have hmin := ha.low
  have hmax := ha.high
  have hhigh := ha.max
  have hz : nbytes ≠ 0 := by
    rintro rfl
    rw [hc] at hsize
    exact absurd hsize (by decide)
  have hbase : uint32 (stkaddr - nbytes + 4) = a.start := by
    unfold uint32
    unfold Span.stop at hmax
    omega
  have hstops : ∀ b ∈ L, b.start ≤ a.start → b.stop < 4294967296 := by
    intro b hb hle
    have hstop := le_of_disjoint hsize (disjoint_spanBytes.mp ha.apart b hb).symm hle
    unfold Span.stop at *
    omega
  rcases freestk_cases h hz hbase hc hsize (Nat.lt_of_lt_of_le ha.head ha.low)
    (Nat.lt_of_le_of_lt ha.high ha.max) hstops with ⟨_, hout⟩ | ⟨L', _, hgives, _⟩
  · rcases hout with hout | hover
    · unfold Span.stop at hmax
      omega
    · exact absurd ha.apart hover
  · exact ⟨L', hgives⟩

end

end BbbXinu
