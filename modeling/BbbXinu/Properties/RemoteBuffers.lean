import BbbXinu.Invariant.RdsRuns

/-!
# The buffers of the remote disk

Every buffer is on one list, the links of a list lead from its head to its tail and back,
and a request to write leaves the queue only to be sent.  The count of the available semaphore
is the number of free and of unreferenced cached buffers whenever no call is in progress, and
no process that has its unit finds none.
-/

namespace BbbXinu
namespace Rds

open LinkedLists

namespace Disk

/-- Every buffer is on one of the lists, and each list is linked: the last link of the free
list is null, and those of the others lead to the tail, with backward links that are
inverse to the forward ones. -/
structure Linked (s : Disk) : Prop where
  perm : (s.queuedList ++ s.cachedList ++ s.freeList).Perm buffers
  queue : Seg s.next s.prev .rhnext s.queuedList .rtnext
  cache : Seg s.next s.prev .chnext s.cachedList .ctnext
  free : Chain s.next .null s.free s.freeList

end Disk

section

variable {s : Disk} {reqs cached free : List Ptr}

theorem Shape.linked (h : Shape s reqs cached free []) : s.Linked where
  perm := by
    rw [h.queuedList_eq, h.cachedList_eq, h.freeList_eq, ← List.append_nil (reqs ++ cached ++ free)]
    exact h.perm
  queue := by
    rw [h.queuedList_eq]
    exact h.reqs_seg
  cache := by
    rw [h.cachedList_eq]
    exact h.cached_seg
  free := by
    rw [h.freeList_eq]
    exact h.chain

/-- A request to write stays in the queue, or is taken by {lit}`rdsprocess`. -/
theorem Sound.write_queued {A : Prop} {s' : Disk} {l : Label} {b : Ptr}
    (h : Sound A 0 s reqs cached free []) (horderly : Orderly s l) (hsafe : A → Affordable s l)
    (hs : s.step l = some s') (hb : b ∈ s.queuedList) (hop : (s.node b).op = .write) :
    b ∈ s'.queuedList ∨ s'.comm = .writing (s.node b).blknum (s.node b).block := by
  rw [h.shape.queuedList_eq] at hb
  by_cases hl : l = .comm
  · subst hl
    obtain ⟨-, reqs', cached', free', htaken, hI⟩ := h.step_comm horderly hs
    rw [hI.shape.queuedList_eq]
    rcases htaken with rfl | ⟨c, rfl, hc⟩
    · exact Or.inl hb
    · rcases List.mem_cons.mp hb with rfl | hb
      · exact Or.inr (hc hop)
      · exact Or.inl hb
  · obtain ⟨-, reqs', cached', free', hpre, hI⟩ := h.step_process horderly hsafe hl hs
    rw [hI.shape.queuedList_eq]
    exact Or.inl (hpre.subset hb)

end

/-- While {lit}`rdsprocess` has a message to send it does nothing else. -/
theorem writing_kept {s s' : Disk} {l : Label} {blk : UInt32} {data : Block}
    (hcomm : s.comm = .writing blk data) (hs : s.step l = some s') :
    s'.comm = .writing blk data ∨ l = .comm ∧ s'.server = upd s.server blk data := by
  by_cases hl : l = .comm
  · subst hl
    unfold Disk.step at hs
    obtain ⟨-, hs⟩ := Option.ite_none_left_eq_some.mp hs
    change s.rdsprocess = some s' at hs
    unfold Disk.rdsprocess at hs
    rw [hcomm] at hs
    cases hs
    exact Or.inr ⟨rfl, rfl⟩
  · exact Or.inl ((step_comm hs hl).trans hcomm)

/-!
## Runs
-/

/-- In every run in which no other request for a block is queued when a request to read it has
been answered, and no buffer is referenced when the disk is deleted: every buffer is on one
list and the lists are linked; a request to write leaves the queue only when
{lit}`rdsprocess` has its block in a message, and the message is sent to the server before
{lit}`rdsprocess` does anything else. -/
theorem lists_linked {s : Disk} (h : Runs.Reach Disk.step Orderly Disk.Init s) :
    s.Linked ∧
    (∀ l s' b, Orderly s l → s.step l = some s' → b ∈ s.queuedList → (s.node b).op = .write →
      b ∈ s'.queuedList ∨ s'.comm = .writing (s.node b).blknum (s.node b).block) ∧
    ∀ l s' blk data, s.comm = .writing blk data → s.step l = some s' →
      s'.comm = .writing blk data ∨ l = .comm ∧ s'.server = upd s.server blk data := by
  obtain ⟨-, reqs, cached, free, hI⟩ :=
    Sound.of_reach (A := False) h fun _ _ hl => ⟨hl, fun hA => hA.elim⟩
  refine ⟨hI.shape.linked, fun l s' b horderly hs hb hop => ?_, fun l s' blk data hcomm hs =>
    writing_kept hcomm hs⟩
  exact hI.write_queued horderly (fun hA => hA.elim) hs hb hop

/-- One request to write is being sent, and one is queued. -/
theorem lists_linked_write : ∃ s : Disk, s.Linked ∧ s.queuedList.length = 1 ∧
    s.cachedList.length = 1 ∧ s.freeList.length = 62 := by
  obtain ⟨s, hs, hlen⟩ := Runs.exists_reach_of_follow Disk.step Orderly
    (show Disk.Init (Disk.init fun _ _ => 0) from ⟨_, 0, rfl⟩)
    [.write 1 5 (fun _ => 9), .comm, .write 2 6 (fun _ => 8)]
    (fun s => s.queuedList.length = 1 ∧ s.cachedList.length = 1 ∧ s.freeList.length = 62)
    (by decide +kernel)
  exact ⟨s, (lists_linked hs).1, hlen⟩

/-- A request to write has left the queue, and the server does not have its block yet. -/
theorem write_unsent : ∃ s s' b, Runs.Reach Disk.step (fun _ _ => True) Disk.Init s ∧
    s.step .comm = some s' ∧ b ∈ s.queuedList ∧ (s.node b).op = .write ∧ b ∉ s'.queuedList ∧
    s'.server (s.node b).blknum ≠ (s.node b).block := by
  obtain ⟨s, hs, hany⟩ := Runs.exists_reach_of_follow Disk.step (fun _ _ => True)
    (show Disk.Init (Disk.init fun _ _ => 0) from ⟨_, 0, rfl⟩) [.write 1 5 (fun _ => 9)]
    (fun s => (s.step .comm).any (fun s' => decide (Ptr.buf 0 ∈ s.queuedList ∧
      (s.node (.buf 0)).op = .write ∧ Ptr.buf 0 ∉ s'.queuedList ∧
      s'.server (s.node (.buf 0)).blknum 0 ≠ (s.node (.buf 0)).block 0)) = true)
    (by decide +kernel)
  obtain ⟨s', hs', hP⟩ := (Option.any_eq_true _ _).mp hany
  obtain ⟨hb, hop, hnot, hserver⟩ := of_decide_eq_true hP
  exact ⟨s, s', .buf 0, hs, hs', hb, hop, hnot, fun heq => hserver (congrFun heq 0)⟩

/-!
## The count of available buffers
-/

namespace Disk

/-- No call is in progress, and {lit}`rdsprocess` waits for a request. -/
structure Quiet (s : Disk) : Prop where
  idle : ∀ pid, s.phase pid = .idle
  comm : s.comm = .ready ∨ s.comm = .waiting

/-- The number of buffers on the free list. -/
def freeCount (s : Disk) : Nat := (walk s.next IsBuffer RD_BUFFS s.free).length

/-- The number of buffers in the cache that nobody refers to. -/
def unreferenced (s : Disk) : Nat :=
  ((walk s.next IsBuffer RD_BUFFS (s.next .chnext)).filter fun b =>
    decide ((s.node b).refcnt ≤ 0)).length

end Disk

section Counts

variable {s : Disk} {reqs cached free held : List Ptr}

theorem Shape.freeCount_eq (h : Shape s reqs cached free held) : s.freeCount = free.length := by
  change s.freeList.length = _
  rw [h.freeList_eq]

theorem Shape.unreferenced_eq (h : Shape s reqs cached free held) :
    s.unreferenced = (cached.filter fun b => decide ((s.node b).refcnt ≤ 0)).length := by
  change (s.cachedList.filter _).length = _
  rw [h.cachedList_eq]

end Counts

/-!
## Runs
-/

/-- A step that is orderly and affordable. -/
def Safe (s : Disk) (l : Label) : Prop := Orderly s l ∧ Affordable s l

instance (s : Disk) (l : Label) : Decidable (Safe s l) := inferInstanceAs (Decidable (_ ∧ _))

/-- In every run in which a buffer is only allocated while there are more units than
referenced buffers, a cached copy is only taken for a write request while the semaphore is
positive, no other request for a block is queued when a request to read it has been
answered, and no buffer is referenced when the disk is deleted, nobody panics in
{lit}`rdsbufalloc`; and when no call is in progress the count of the semaphore is the number of
free and of unreferenced buffers. -/
theorem available_counted {s : Disk} (h : Runs.Reach Disk.step Safe Disk.Init s) :
    s.panicked = false ∧
      (s.Quiet → s.availsem.queue.count = s.freeCount + s.unreferenced) := by
  obtain ⟨hpan, reqs, cached, free, hI⟩ :=
    Sound.of_reach (A := True) h fun _ _ hl => ⟨hl.1, fun _ => hl.2⟩
  refine ⟨hpan trivial, fun hquiet => ?_⟩
  -- without readers nothing in the cache is referenced
  have hunref : ∀ b ∈ cached, (s.node b).refcnt ≤ 0 := by
    intro b hb
    by_contra hpos
    rcases hI.served.claimed b hb (Int.not_le.mp hpos) with hcomm | ⟨pid, blk, hp, -⟩
    · rcases hquiet.comm with hc | hc <;> rw [hc] at hcomm <;> cases hcomm
    · rw [hquiet.idle pid] at hp
      cases hp
  have hinside : s.availsem.inside = [] := by
    refine List.eq_nil_iff_forall_not_mem.mpr fun pid hmem => ?_
    have hph := hI.inside.2 pid hmem
    rw [hquiet.idle pid] at hph
    exact hph
  have hall : (cached.filter fun b => decide ((s.node b).refcnt ≤ 0)) = cached :=
    List.filter_eq_self.mpr fun b hb => decide_eq_true (hunref b hb)
  have hunits := hI.available trivial
  unfold Turnstile.units at hunits
  rw [hinside, List.length_nil] at hunits
  rw [hI.shape.freeCount_eq, hI.shape.unreferenced_eq, hall]
  omega

/-!
## Replays
-/

section Replays

variable (env : Disk → Label → Prop) [∀ s l, Decidable (env s l)]

/-- No call of the given processes is in progress. -/
def Disk.settled (s : Disk) (pids : List Int) : Bool :=
  (pids.all fun pid => match s.phase pid with
    | .idle => true
    | _ => false) &&
  match s.comm with
  | .ready | .waiting => true
  | _ => false

/-- A replay after which the processes that took part are outside ends in a quiet state. -/
theorem quiet_of_follow {labels : List Label} {pids : List Int} {server : UInt32 → Block}
    {s : Disk} (h : Runs.follow Disk.step env labels (Disk.init server) = some s)
    (hpids : ∀ l ∈ labels, ∀ pid ∈ l.pid, pid ∈ pids) (hs : s.settled pids = true) : s.Quiet := by
  obtain ⟨hidle, hcomm⟩ := Bool.and_eq_true_iff.mp hs
  constructor
  · intro p
    by_cases hp : p ∈ pids
    · have hphase := List.all_eq_true.mp hidle p hp
      split at hphase
      · rename_i heq
        exact heq
      · cases hphase
    · refine Runs.follow_invariant (I := fun s => s.phase p = .idle) Disk.step env ?_ rfl h
      intro l hl s s' hI hstep
      have hne : l.pid ≠ some p := fun heq => hp (hpids l hl p heq)
      exact (step_phase hstep hne).trans hI
  · split at hcomm
    · rename_i heq
      exact Or.inl heq
    · rename_i heq
      exact Or.inr heq
    · cases hcomm

theorem exists_quiet (labels : List Label) (pids : List Int) (server : UInt32 → Block)
    (P : Disk → Prop) [DecidablePred P]
    (hpids : ∀ l ∈ labels, ∀ pid ∈ l.pid, pid ∈ pids)
    (h : (Runs.follow Disk.step env labels (Disk.init server)).any
      (fun s => s.settled pids && decide (P s)) = true) :
    ∃ s, Runs.Reach Disk.step env Disk.Init s ∧ s.Quiet ∧ P s := by
  cases hf : Runs.follow Disk.step env labels (Disk.init server) with
  | none =>
      rw [hf] at h
      cases h
  | some s =>
      rw [hf] at h
      obtain ⟨hs, hP⟩ := Bool.and_eq_true_iff.mp h
      have hinit : Disk.Init (Disk.init server) := ⟨server, 0, rfl⟩
      exact ⟨s, Runs.reach_of_follow Disk.step env (Runs.Reach.init hinit) hf,
        quiet_of_follow env hf hpids hs, of_decide_eq_true hP⟩

end Replays

/-- A block is written, and another one is read. -/
theorem available_counted_read : ∃ s : Disk, s.Quiet ∧ s.panicked = false ∧
    s.availsem.queue.count = 64 ∧ s.availsem.queue.count = s.freeCount + s.unreferenced ∧
    s.freeCount = 62 := by
  obtain ⟨s, hs, hquiet, hcount, hfree⟩ := exists_quiet Safe
    [.write 1 5 (fun _ => 9), .comm, .comm, .read 2 6, .comm, .comm, .comm, .receive 2, .comm]
    [1, 2] (fun _ _ => 0) (fun s => s.availsem.queue.count = 64 ∧ s.freeCount = 62)
    (by decide) (by decide +kernel)
  obtain ⟨hpan, hall⟩ := available_counted hs
  exact ⟨s, hquiet, hpan, hcount, hall hquiet, hfree⟩

/-- A block is written while a request to read it is under way: the write request is taken for
a second reader, and a buffer keeps a reference that nobody holds.  And a buffer that was
just read is counted as available while it is referenced, when it is the last one. -/
theorem available_miscounted :
    (∃ s, Runs.Reach Disk.step (fun _ _ => True) Disk.Init s ∧ s.Quiet ∧
      s.availsem.queue.count = 64 ∧ s.freeCount + s.unreferenced = 63) ∧
    ∃ s, Runs.Reach Disk.step (fun _ _ => True) Disk.Init s ∧ s.panicked = true := by
  constructor
  · exact exists_quiet (fun _ _ => True)
      [.read 1 5, .comm, .write 2 5 (fun _ => 9), .comm, .comm, .comm, .comm, .receive 1]
      [1, 2] (fun _ _ => 0)
      (fun s => s.availsem.queue.count = 64 ∧ s.freeCount + s.unreferenced = 63)
      (by decide) (by decide +kernel)
  · exact Runs.exists_reach_of_follow Disk.step (fun _ _ => True)
      (show Disk.Init (Disk.init fun _ _ => 0) from ⟨_, 0, rfl⟩)
      ([.read 1 5, .comm] ++
        (List.range 63).map (fun i => .write 2 (UInt32.ofNat (i + 10)) fun _ => 9) ++
        [.comm, .write 2 100 fun _ => 9])
      (fun s => s.panicked = true) (by decide +kernel)

end Rds
end BbbXinu
