import BbbXinu.Rds.Machine

/-!
# The lists of the remote disk

The request queue, the cache and the free list of a device as lists, what the routines
do to them, and what a search finds.
-/

namespace BbbXinu
namespace Rds

open LinkedLists

/-!
## Shape
-/

def tailOf : Ptr → Ptr
  | .rhnext => .rtnext
  | .chnext => .ctnext
  | b => b

def IsHead (b : Ptr) : Prop := b = .rhnext ∨ b = .chnext

def IsBuffer (b : Ptr) : Prop := ∃ i < RD_BUFFS, b = .buf i

instance (b : Ptr) : Decidable (IsBuffer b) :=
  match b with
  | .buf i =>
      decidable_of_iff (i < RD_BUFFS)
        ⟨fun h => ⟨i, h, rfl⟩, fun ⟨_, hj, he⟩ => Ptr.buf.inj he ▸ hj⟩
  | .rhnext | .rtnext | .chnext | .ctnext | .null => isFalse fun ⟨_, _, he⟩ => by cases he

def buffers : List Ptr := (List.range RD_BUFFS).map Ptr.buf

/-- The two doubly linked lists, by their heads. -/
def lists (reqs cached : List Ptr) : Ptr → List Ptr
  | .rhnext => reqs
  | .chnext => cached
  | _ => []

theorem mem_buffers {b : Ptr} : b ∈ buffers ↔ IsBuffer b := by
  unfold buffers IsBuffer
  simp only [List.mem_map, List.mem_range]
  exact ⟨fun ⟨i, hi, h⟩ => ⟨i, hi, h.symm⟩, fun ⟨i, hi, h⟩ => ⟨i, hi, h.symm⟩⟩

theorem buffers_nodup : buffers.Nodup :=
  List.nodup_range.map fun _ _ h => Ptr.buf.inj h

theorem layout : Layout tailOf IsHead IsBuffer where
  head_not_node := by rintro q (rfl | rfl) ⟨i, -, h⟩ <;> cases h
  tail_not_node := by rintro q (rfl | rfl) ⟨i, -, h⟩ <;> cases h
  tail_not_head := by rintro q r (rfl | rfl) (rfl | rfl) h <;> cases h
  tail_inj := by rintro q r (rfl | rfl) (rfl | rfl) h <;> first | rfl | cases h

/-- The links of a device, with its lists, and the buffers that are on none of them.  Every
buffer has one place. -/
structure Shape (s : Disk) (reqs cached free held : List Ptr) : Prop where
  family : Family s.next s.prev tailOf IsHead IsBuffer (lists reqs cached)
  chain : Chain s.next .null s.free free
  perm : (reqs ++ cached ++ free ++ held).Perm buffers

namespace Shape

variable {s s' : Disk} {reqs cached free held l₁ l₂ : List Ptr} {b : Ptr}

theorem nodup (h : Shape s reqs cached free held) : (reqs ++ cached ++ free ++ held).Nodup :=
  h.perm.nodup_iff.mpr buffers_nodup

theorem isBuffer (h : Shape s reqs cached free held)
    (hb : b ∈ reqs ++ cached ++ free ++ held) : IsBuffer b :=
  mem_buffers.mp (h.perm.mem_iff.mp hb)

theorem length_eq (h : Shape s reqs cached free held) :
    reqs.length + cached.length + free.length + held.length = RD_BUFFS := by
  have hlen := h.perm.length_eq
  simp only [List.length_append, buffers, List.length_map, List.length_range] at hlen
  exact hlen

theorem reqs_seg (h : Shape s reqs cached free held) : Seg s.next s.prev .rhnext reqs .rtnext :=
  h.family.seg (Or.inl rfl)

theorem cached_seg (h : Shape s reqs cached free held) :
    Seg s.next s.prev .chnext cached .ctnext :=
  h.family.seg (Or.inr rfl)

/-- The shape is one of the links and the free list only. -/
theorem congr (h : Shape s reqs cached free held) (hnext : s'.next = s.next)
    (hprev : s'.prev = s.prev) (hfree : s'.free = s.free) : Shape s' reqs cached free held where
  family := by
    rw [hnext, hprev]
    exact h.family
  chain := by
    rw [hnext, hfree]
    exact h.chain
  perm := h.perm

/-- A link that does not belong to the free list may change. -/
theorem chain_upd (h : Chain s.next .null s.free free) {a c : Ptr} (ha : a ∉ free) :
    Chain (upd s.next a c) .null s.free free :=
  h.congr fun _ hx => upd_of_ne fun he => ha (he ▸ hx)

theorem lists_reqs (l : List Ptr) : upd (lists reqs cached) .rhnext l = lists l cached := by
  funext q
  cases q <;> rfl

theorem lists_cached (l : List Ptr) : upd (lists reqs cached) .chnext l = lists reqs l := by
  funext q
  cases q <;> rfl

/-- A buffer that is on no list is on neither of the linked ones. -/
theorem held_free (h : Shape s reqs cached free (b :: held)) {r : Ptr} (hr : IsHead r) :
    b ∉ lists reqs cached r := by
  have hnd := h.nodup
  rcases hr with rfl | rfl
  · change b ∉ reqs
    grind
  · change b ∉ cached
    grind

/-- The link to a buffer on a linked list does not lie in the free list. -/
theorem prev_not_free (h : Shape s reqs cached free held) {q : Ptr} (hq : IsHead q)
    (hsplit : lists reqs cached q = l₁ ++ b :: l₂) : s.prev b ∉ free := by
  intro hmem
  have hprev := (h.family.neighbours hq hsplit).1
  have hlast := lastOr_mem q l₁
  have hbuf := h.isBuffer (b := s.prev b) (by grind)
  have hnd := h.nodup
  rw [← hprev] at hlast
  rcases List.mem_cons.mp hlast with he | he
  · exact layout.head_not_node hq (he ▸ hbuf)
  · have hlist : s.prev b ∈ lists reqs cached q := by
      rw [hsplit]
      exact List.mem_append_left _ he
    rcases hq with rfl | rfl
    · change s.prev b ∈ reqs at hlist
      grind
    · change s.prev b ∈ cached at hlist
      grind

theorem unlink_request (h : Shape s (l₁ ++ b :: l₂) cached free held) :
    Shape (s.unlink b) (l₁ ++ l₂) cached free (b :: held) where
  family := by
    have hrem := h.family.remove layout (q := .rhnext) (Or.inl rfl) rfl
    rw [lists_reqs] at hrem
    exact hrem
  chain := chain_upd h.chain (h.prev_not_free (q := .rhnext) (Or.inl rfl) rfl)
  perm := by
    refine List.Perm.trans ?_ h.perm
    grind

theorem unlink_cached (h : Shape s reqs (l₁ ++ b :: l₂) free held) :
    Shape (s.unlink b) reqs (l₁ ++ l₂) free (b :: held) where
  family := by
    have hrem := h.family.remove layout (q := .chnext) (Or.inr rfl) rfl
    rw [lists_cached] at hrem
    exact hrem
  chain := chain_upd h.chain (h.prev_not_free (q := .chnext) (Or.inr rfl) rfl)
  perm := by
    refine List.Perm.trans ?_ h.perm
    grind

theorem enqueue (h : Shape s reqs cached free (b :: held)) :
    Shape (s.enqueue b) (reqs ++ [b]) cached free held where
  family := by
    have hbuf := h.isBuffer (b := b) (by simp)
    have hne : b ≠ Ptr.rtnext := by
      rintro rfl
      exact layout.tail_not_node (q := .rhnext) (Or.inl rfl) hbuf
    have hsplit : lists reqs cached .rhnext = reqs ++ [] := (List.append_nil reqs).symm
    have hins := h.family.insert layout (Or.inl rfl) hbuf (fun r hr => h.held_free hr) hsplit
    have hlast : s.prev .rtnext = lastOr .rhnext reqs := h.reqs_seg.prev_eq_lastOr
    have hnext : s.next (lastOr .rhnext reqs) = .rtnext := by
      rw [← hlast]
      exact h.reqs_seg.next_prev (by simp)
    rw [lists_reqs] at hins
    change Family (upd (upd s.next b (s.next (s.prev .rtnext))) (s.prev .rtnext) b)
      (upd (upd s.prev .rtnext b) b (s.prev .rtnext)) _ _ _ _
    have hcomm : upd (upd s.prev .rtnext b) b (s.prev .rtnext) =
        upd (upd s.prev b (s.prev .rtnext)) .rtnext b := by
      funext c
      simp only [upd_apply]
      grind
    rw [hcomm, hlast, hnext]
    exact hins
  chain := by
    have hnd := h.nodup
    have hlast : s.prev .rtnext = lastOr .rhnext reqs := h.reqs_seg.prev_eq_lastOr
    have hmem := lastOr_mem Ptr.rhnext reqs
    refine h.chain.congr fun a ha => ?_
    have hb : a ≠ b := by grind
    have hp : a ≠ s.prev .rtnext := by
      rintro rfl
      rw [← hlast] at hmem
      rcases List.mem_cons.mp hmem with he | he
      · exact layout.head_not_node (Or.inl rfl) (he ▸ h.isBuffer (by grind))
      · grind
    change upd (upd s.next b _) (s.prev .rtnext) b a = s.next a
    rw [upd_of_ne hp, upd_of_ne hb]
  perm := by
    refine List.Perm.trans ?_ h.perm
    grind

theorem cache (h : Shape s reqs cached free (b :: held)) :
    Shape (s.cache b) reqs (b :: cached) free held where
  family := by
    have hbuf := h.isBuffer (b := b) (by simp)
    have hsplit : lists reqs cached .chnext = [] ++ cached := rfl
    have hins := h.family.insert layout (Or.inr rfl) hbuf (fun r hr => h.held_free hr) hsplit
    have hhead : s.next .chnext = headOr .ctnext cached := h.cached_seg.next_eq_headOr
    rw [lists_cached] at hins
    change Family (upd (upd s.next b (s.next .chnext)) .chnext b)
      (upd (upd s.prev b .chnext) (s.next .chnext) b) _ _ _ _
    rw [hhead]
    exact hins
  chain := by
    have hnd := h.nodup
    refine h.chain.congr fun a ha => ?_
    have hb : a ≠ b := by grind
    have hc : a ≠ Ptr.chnext := fun he =>
      layout.head_not_node (Or.inr rfl) (he ▸ h.isBuffer (b := a) (by grind))
    change upd (upd s.next b _) .chnext b a = s.next a
    rw [upd_of_ne hc, upd_of_ne hb]
  perm := by
    refine List.Perm.trans ?_ h.perm
    grind

theorem release (h : Shape s reqs cached free (b :: held)) :
    Shape (s.release b) reqs cached (b :: free) held where
  family := by
    have hbuf := h.isBuffer (b := b) (by simp)
    refine h.family.congr (fun q y hq hy => upd_of_ne ?_) fun q y hq hy => rfl
    rintro rfl
    rcases List.mem_cons.mp hy with he | he
    · exact layout.head_not_node hq (he ▸ hbuf)
    · exact h.held_free hq he
  chain := by
    have hnd := h.nodup
    refine ⟨rfl, ?_⟩
    change Chain (upd s.next b s.free) .null (upd s.next b s.free b) free
    rw [upd_self]
    exact chain_upd h.chain (by grind)
  perm := by
    refine List.Perm.trans ?_ h.perm
    grind

/-- The first buffer of the free list is taken. -/
theorem takeFree (h : Shape s reqs cached (b :: free) held) :
    Shape { s with free := s.next s.free } reqs cached free (b :: held) where
  family := h.family
  chain := by
    rw [h.chain.1]
    exact h.chain.2
  perm := by
    refine List.Perm.trans ?_ h.perm
    grind

theorem free_eq_null_iff (h : Shape s reqs cached free held) : s.free = .null ↔ free = [] := by
  cases free with
  | nil => exact ⟨fun _ => rfl, fun _ => h.chain⟩
  | cons b free =>
      have hbuf := h.isBuffer (b := b) (by simp)
      refine ⟨fun hnull => ?_, nofun⟩
      obtain ⟨i, -, hi⟩ := hbuf
      rw [← h.chain.1, hnull] at hi
      cases hi

end Shape

/-!
## Lists that are read along the links
-/

namespace Disk

/-- The requests, from the head of the queue. -/
def queuedList (s : Disk) : List Ptr := walk s.next IsBuffer RD_BUFFS (s.next .rhnext)

/-- The buffers in the cache, from its head. -/
def cachedList (s : Disk) : List Ptr := walk s.next IsBuffer RD_BUFFS (s.next .chnext)

/-- The buffers on the free list. -/
def freeList (s : Disk) : List Ptr := walk s.next IsBuffer RD_BUFFS s.free

end Disk

/-!
## Searches
-/

section Searches

variable {s : Disk} {reqs cached free held : List Ptr} {nx pv : Ptr → Ptr} {a b : Ptr}
  {l : List Ptr} {n : Nat}

/-- A search of a list finds the first buffer that passes the test, or the end. -/
theorem seek_seg (hs : Seg nx pv a l b) (P : Ptr → Bool) (hb : b ∉ l) (hn : l.length < n) :
    seek nx b P n (nx a) = some ((l.find? P).getD b) := by
  induction l generalizing a n with
  | nil =>
      cases n with
      | zero => cases hn
      | succ n => exact if_pos hs.1
  | cons x l ih =>
      obtain ⟨h1, -, h3⟩ := hs
      obtain ⟨hx, hl⟩ := not_or.mp fun hor => hb (List.mem_cons.mpr hor)
      cases n with
      | zero => cases hn
      | succ n =>
          rw [h1, seek, if_neg fun he => hx he.symm]
          by_cases hP : P x
          · rw [if_pos hP, List.find?_cons_of_pos hP]
            rfl
          · rw [if_neg hP, List.find?_cons_of_neg hP]
            exact ih h3 hl (by simpa using hn)

/-- A list without backward links is read back in the same way. -/
theorem walk_eq_of_chain {node : Ptr → Prop} [DecidablePred node] (hc : Chain nx b a l)
    (hnode : ∀ x ∈ l, node x) (hb : ¬node b) (hn : l.length ≤ n) : walk nx node n a = l := by
  induction l generalizing a n with
  | nil =>
      have ha : a = b := hc
      cases n with
      | zero => rfl
      | succ n => rw [walk, ha, if_neg hb]
  | cons x l ih =>
      obtain ⟨ha, hrest⟩ := hc
      cases n with
      | zero => cases hn
      | succ n =>
          rw [ha, walk, if_pos (hnode x List.mem_cons_self),
            ih hrest (fun y hy => hnode y (List.mem_cons_of_mem x hy)) (by simpa using hn)]

namespace Shape

section

variable (h : Shape s reqs cached free held)
include h

theorem queuedList_eq : s.queuedList = reqs := by
  have hlen := h.length_eq
  have hbuf : ∀ b ∈ reqs, IsBuffer b := fun b hb => h.isBuffer (b := b) (by grind)
  exact walk_eq_of_seg h.reqs_seg hbuf (layout.tail_not_node (q := .rhnext) (Or.inl rfl))
    (by omega)

theorem cachedList_eq : s.cachedList = cached := by
  have hlen := h.length_eq
  have hbuf : ∀ b ∈ cached, IsBuffer b := fun b hb => h.isBuffer (b := b) (by grind)
  exact walk_eq_of_seg h.cached_seg hbuf (layout.tail_not_node (q := .chnext) (Or.inr rfl))
    (by omega)

theorem freeList_eq : s.freeList = free := by
  have hlen := h.length_eq
  have hbuf : ∀ b ∈ free, IsBuffer b := fun b hb => h.isBuffer (b := b) (by grind)
  have hnull : ¬IsBuffer .null := by
    rintro ⟨i, -, hi⟩
    cases hi
  exact walk_eq_of_chain h.chain hbuf hnull (by omega)

end

variable (h : Shape s reqs cached free held) (P : RdBuff → Bool)
include h

theorem seekCache_eq :
    s.seekCache P = some ((cached.find? fun b => P (s.node b)).getD .ctnext) := by
  have hlen := h.length_eq
  exact seek_seg h.cached_seg _ (fun hm => layout.tail_not_node (q := .chnext) (Or.inr rfl)
    (h.isBuffer (b := .ctnext) (by grind))) (by omega)

theorem seekOldest_eq :
    s.seekOldest P = some ((cached.reverse.find? fun b => P (s.node b)).getD .chnext) := by
  have hlen := h.length_eq
  refine seek_seg h.cached_seg.reverse _ (fun hm => ?_) (by rw [List.length_reverse]; omega)
  exact layout.head_not_node (Or.inr rfl) (h.isBuffer (b := .chnext) (by grind))

theorem seekRequest_eq :
    s.seekRequest P = some ((reqs.find? fun b => P (s.node b)).getD .rtnext) := by
  have hlen := h.length_eq
  exact seek_seg h.reqs_seg _ (fun hm => layout.tail_not_node (q := .rhnext) (Or.inl rfl)
    (h.isBuffer (b := .rtnext) (by grind))) (by omega)

theorem seekRecent_eq :
    s.seekRecent P = some ((reqs.reverse.find? fun b => P (s.node b)).getD .rhnext) := by
  have hlen := h.length_eq
  refine seek_seg h.reqs_seg.reverse _ (fun hm => ?_) (by rw [List.length_reverse]; omega)
  exact layout.head_not_node (Or.inl rfl) (h.isBuffer (b := .rhnext) (by grind))

/-- What {lit}`rdsbufalloc` does after its wait: the first free buffer, else the oldest
unreferenced one of the cache, else nothing. -/
theorem rdsbufalloc_cases :
    (∃ b free', free = b :: free' ∧
      s.rdsbufalloc = some ({ s with free := s.next s.free }, some b)) ∨
    (∃ b l₁ l₂, free = [] ∧ cached = l₁ ++ b :: l₂ ∧ (s.node b).refcnt ≤ 0 ∧
      s.rdsbufalloc = some (s.unlink b, some b)) ∨
    (free = [] ∧ (∀ b ∈ cached, 0 < (s.node b).refcnt) ∧ s.rdsbufalloc = some (s, none)) := by
  unfold Disk.rdsbufalloc
  cases free with
  | cons b free' =>
      have hne : s.free ≠ .null := fun hnull => by cases h.free_eq_null_iff.mp hnull
      rw [if_pos hne, h.chain.1]
      exact Or.inl ⟨b, free', rfl, rfl⟩
  | nil =>
      rw [if_neg (not_not.mpr (h.free_eq_null_iff.mpr rfl)), h.seekOldest_eq]
      cases hfind : cached.reverse.find? fun b => decide ((s.node b).refcnt ≤ 0) with
      | none =>
          refine Or.inr (Or.inr ⟨rfl, fun b hb => ?_, rfl⟩)
          have hpos := List.find?_eq_none.mp hfind b (List.mem_reverse.mpr hb)
          exact Int.not_le.mp fun hle => hpos (decide_eq_true hle)
      | some b =>
          have hmem := List.mem_reverse.mp (List.mem_of_find?_eq_some hfind)
          have hle := List.find?_some hfind
          have hne : b ≠ .chnext := fun he =>
            layout.head_not_node (Or.inr rfl) (he ▸ h.isBuffer (b := b) (by grind))
          obtain ⟨l₁, l₂, rfl⟩ := List.append_of_mem hmem
          refine Or.inr (Or.inl ⟨b, l₁, l₂, rfl, rfl, of_decide_eq_true hle, ?_⟩)
          rw [Option.map_some, Option.getD_some, if_neg hne]

end Shape

end Searches

end Rds
end BbbXinu
