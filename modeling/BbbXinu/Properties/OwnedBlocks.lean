import BbbXinu.Shell.Set

/-!
# Blocks of the history

The shell takes its blocks from the allocator among the blocks that the rest of
the system holds.  A block that {lit}`freemem` refuses is lost, but it stays
apart from all others.
-/

namespace BbbXinu

/-- The shell owns the given blocks. -/
def Shell.Owns (t : Shell) (mine : List Span) : Prop :=
  ∃ lost L, HeapOk ⟨t.xinu.mem, t.held ++ (mine ++ lost)⟩ L

/-- The block that a call of {lit}`getmem` for the given size returns. -/
def blockOf (addr nbytes : Nat) : Span := { start := addr, size := roundmb nbytes }

section

variable {t t' : Shell} {mine mine' : List Span} {m : Mem} {A A' L : List Span} {addr n : Nat}

theorem Shell.Owns.perm (h : t.Owns mine) (hp : mine.Perm mine') : t.Owns mine' := by
  rcases h with ⟨lost, L, h⟩
  exact ⟨lost, L, h.perm ((hp.append_right lost).append_left t.held)⟩

theorem Shell.Owns.congr (h : t.Owns mine) (hmem : t'.xinu.mem = t.xinu.mem)
    (hheld : t'.held = t.held) : t'.Owns mine := by
  unfold Shell.Owns
  rw [hmem, hheld]
  exact h

/-- {lit}`freemem` looks at the rounded size only. -/
theorem freemem_round (hpos : 0 < n) (h : n ≤ 4294967280) (m : Mem) (addr : Nat) :
    m.freemem addr n = m.freemem addr (roundmb n) := by
  have hr := roundmb_pos hpos h
  unfold Mem.freemem
  rw [roundmb_roundmb h]
  have hcond : (n = 0 ∨ addr < m.minheap ∨ m.maxheap < addr) ↔
      (roundmb n = 0 ∨ addr < m.minheap ∨ m.maxheap < addr) := by omega
  simp only [hcond]

/-- {lit}`getmem` fails, or it returns a new block. -/
theorem Shell.Owns.getmem (h : t.Owns mine) (hpos : 0 < n) (hle : n ≤ 4294967280)
    (hok : (t.getmem n).1 ≠ uint32 SYSERR) :
    ∃ addr m, t.getmem n = (addr,
        { t.setXinu (t.xinu.setMem m) with memcalls := .got addr n :: t.memcalls }) ∧
      Owns (t.setXinu (t.xinu.setMem m)) (blockOf addr n :: mine) := by
  rcases h with ⟨lost, L, hheap⟩
  rcases getmem_ok hheap.free (t.val EV_MEMALLOC) (Or.inl (roundmb_pos hpos hle)) with
    ⟨addr, m, L', heq, htakes⟩ | ⟨heq, _⟩
  · refine ⟨addr, m, ?_, lost, L', ?_⟩
    · unfold Shell.getmem
      rw [show t.xinu.mem.getmem (t.val EV_MEMALLOC) n = _ from heq]
      rfl
    · have htaken := hheap.take htakes (roundmb_pos hpos hle) (roundmb_roundmb hle)
      apply htaken.perm
      exact List.perm_middle.symm
  · exfalso
    apply hok
    unfold Shell.getmem
    rw [show t.xinu.mem.getmem (t.val EV_MEMALLOC) n = _ from heq]

/-- A block that is freed under its size is put back, or lost. -/
theorem Shell.Owns.freemem (h : t.Owns (blockOf addr n :: mine)) (hpos : 0 < n)
    (hle : n ≤ 4294967280) : (t.freemem addr n).Owns mine := by
  rcases h with ⟨lost, L, hheap⟩
  have hmem : blockOf addr n ∈ t.held ++ (blockOf addr n :: mine ++ lost) :=
    List.mem_append_right _ List.mem_cons_self
  have hfree := freemem_ok hheap.free (hheap.freeable hmem)
  have hround : t.xinu.mem.freemem addr n = t.xinu.mem.freemem addr (roundmb n) :=
    freemem_round hpos hle _ _
  unfold Shell.freemem
  dsimp only
  rw [hround]
  rcases hfree with heq | ⟨m, L', heq, hgives⟩
  · refine ⟨blockOf addr n :: lost, L, ?_⟩
    rw [show t.xinu.mem.freemem addr (roundmb n) = _ from heq]
    apply hheap.perm
    exact List.perm_middle.symm.append_left _
  · refine ⟨lost, L', ?_⟩
    rw [show t.xinu.mem.freemem addr (roundmb n) = _ from heq]
    exact hheap.give List.perm_middle hgives

/-- Blocks that nobody touches do not matter to a call. -/
theorem step_append (X : List Span) {c : HeapCall} {u : Heap} (henv : HeapCalls ⟨m, A⟩ c)
    (hstep : Heap.step ⟨m, A⟩ c = some u) :
    HeapCalls ⟨m, A ++ X⟩ c ∧ Heap.step ⟨m, A ++ X⟩ c = some ⟨u.mem, u.allocated ++ X⟩ := by
  cases c with
  | getmem alloc nbytes =>
      refine ⟨henv, ?_⟩
      unfold Heap.step at hstep ⊢
      dsimp only at hstep ⊢
      rcases hget : m.getmem alloc nbytes with ⟨r, m'⟩
      rw [hget] at hstep
      cases r with
      | some a =>
          cases hstep
          rfl
      | none =>
          cases hstep
          rfl
  | getstk alloc nbytes =>
      refine ⟨henv, ?_⟩
      unfold Heap.step at hstep ⊢
      dsimp only at hstep ⊢
      rcases hget : m.getstk alloc nbytes with ⟨r, m'⟩
      rw [hget] at hstep
      cases r with
      | some a =>
          cases hstep
          rfl
      | none =>
          cases hstep
          rfl
  | freemem blkaddr nbytes =>
      refine ⟨List.mem_append_left X henv, ?_⟩
      unfold Heap.step at hstep ⊢
      dsimp only at hstep ⊢
      rw [List.erase_append_left X henv]
      split at hstep
      · rename_i hok
        cases hstep
        rw [if_pos hok]
      · rename_i hbad
        cases hstep
        rw [if_neg hbad]
  | freestk stkaddr nbytes =>
      refine ⟨⟨henv.1, List.mem_append_left X henv.2⟩, ?_⟩
      cases hstep
      unfold Heap.step
      dsimp only
      rw [List.erase_append_left X henv.2]
  | write addr header =>
      rcases henv with ⟨a, ha, hin⟩
      refine ⟨⟨a, List.mem_append_left X ha, hin⟩, ?_⟩
      cases hstep
      rfl

/-- What the rest of the system does with the allocator leaves the blocks of the shell
alone. -/
theorem Shell.Owns.heap (h : t.Owns mine) {c : HeapCall} (henv : HeapCalls t.heap c)
    (hstep : t.step (.heap c) = some t') : t'.Owns mine := by
  rcases h with ⟨lost, L, hheap⟩
  rcases Option.map_eq_some_iff.mp hstep with ⟨u, hu, rfl⟩
  rcases step_append (mine ++ lost) henv hu with ⟨henv', hstep'⟩
  rcases hheap.step henv' hstep' with ⟨L', hheap'⟩
  exact ⟨lost, L', hheap'⟩

/-- Blocks of the heap lie at addresses above zero, and end below {lit}`2^32`. -/
theorem Shell.Owns.bounds (h : t.Owns mine) {a : Span} (ha : a ∈ mine) :
    0 < a.start ∧ a.stop < 4294967296 := by
  rcases h with ⟨lost, L, hheap⟩
  have hmem : a ∈ t.held ++ (mine ++ lost) :=
    List.mem_append_right _ (List.mem_append_left _ ha)
  have hin := (bytes_subset_Ico (hheap.size a hmem).1).mp (hheap.held a hmem)
  have hhead := hheap.head
  have hmax := hheap.max
  dsimp only at hin hhead hmax
  omega

/-- Two blocks of the shell are apart. -/
theorem Shell.Owns.apart (h : t.Owns mine) : mine.Pairwise fun a b => Disjoint a.bytes b.bytes := by
  rcases h with ⟨lost, L, hheap⟩
  have happart := hheap.apart
  dsimp only at happart
  rw [List.pairwise_append] at happart
  have hmine := happart.2.1
  rw [List.pairwise_append] at hmine
  exact hmine.1

/-- The blocks of the shell start at different addresses. -/
theorem Shell.Owns.starts (h : t.Owns mine) : (mine.map Span.start).Nodup := by
  have hpos : ∀ a ∈ mine, 0 < a.size := by
    rcases h with ⟨lost, L, hheap⟩
    intro a ha
    exact (hheap.size a (List.mem_append_right _ (List.mem_append_left _ ha))).1
  apply List.pairwise_map.mpr
  apply h.apart.imp_of_mem
  intro a b ha hb hab he
  apply Set.disjoint_left.mp hab (start_mem_bytes (hpos a ha))
  rw [he]
  exact start_mem_bytes (hpos b hb)

end

end BbbXinu
