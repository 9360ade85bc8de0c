import BbbXinu.Invariant.CallKept
import BbbXinu.Properties.ShortBlocks

/-!
# Calls of create that fail

{lit}`create` takes the stack before it looks for a free entry of the process
table and before it checks the priority, and does not give it back.
-/

namespace BbbXinu

/-- The free memory, the number of processes and their table are the same. -/
structure Xinu.SameResources (s s' : Xinu) : Prop where
  freeList : s'.mem.freeList = s.mem.freeList
  total : s'.mem.total = s.mem.total
  prcount : s'.prcount = s.prcount
  proctab : s'.proctab = s.proctab

/-- A failing {lit}`create` changes nothing. -/
def Xinu.CreateFails (s : Xinu) (ssize : Nat) (priority : Int) : Prop :=
  (s.create ssize priority).retval s.currpid = SYSERR →
    s.SameResources (s.create ssize priority)

/-- {lit}`newpid` will find an entry. -/
def Xinu.FreeEntry (s : Xinu) : Prop := ∃ pid, ValidPid pid ∧ (s.proctab pid).prstate = .free

/-- {lit}`getstk` will take no bytes: no block is large enough, or the size is rounded
to nothing. -/
def Xinu.NoStack (s : Xinu) (ssize : Nat) : Prop :=
  roundmb (stackSize ssize) = 0 ∨ ∀ b ∈ s.mem.freeList, b.size < roundmb (stackSize ssize)

section

variable {s : Xinu} {ssize : Nat} {priority : Int}

/-!
## The search for an entry
-/

/-- The entries from {lit}`nextpid` on that a failing search has seen. -/
theorem newpidLoop_none (n : Nat) (s : Xinu) (h : (Xinu.newpidLoop n s).1 = SYSERR) (k : Nat)
    (hk : k < n) : (s.proctab ((s.nextpid + k) % NPROC)).prstate ≠ .free := by
  induction n generalizing s k with
  | zero => omega
  | succ n ih =>
      unfold Xinu.newpidLoop at h
      dsimp only at h
      by_cases hfree : ((s.setNextpid (s.nextpid % NPROC + 1)).proctab
          (s.nextpid % NPROC)).prstate = .free
      · rw [if_pos hfree] at h
        have hpid : s.nextpid % NPROC = SYSERR := h
        unfold SYSERR at hpid
        rw [nproc_val] at hpid
        omega
      · rw [if_neg hfree] at h
        cases k with
        | zero =>
            intro hzero
            apply hfree
            rw [← hzero]
            simp only [Nat.cast_zero, Int.add_zero]
            rfl
        | succ k =>
            have hrest := ih _ h k (by omega)
            have hplace : (s.nextpid % NPROC + 1 + k) % NPROC
                = (s.nextpid + (k + 1 : Nat)) % NPROC := by
              rw [nproc_val]
              omega
            rw [← hplace]
            exact hrest

theorem newpid_ne_syserr (h : s.FreeEntry) : s.newpid.1 ≠ SYSERR := by
  intro hnone
  rcases h with ⟨pid, hvalid, hfree⟩
  unfold ValidPid at hvalid
  apply newpidLoop_none NPROC.toNat s hnone ((pid - s.nextpid) % NPROC).toNat
  · rw [nproc_val] at *
    omega
  · have hplace : (s.nextpid + ((pid - s.nextpid) % NPROC).toNat) % NPROC = pid := by
      rw [nproc_val] at *
      omega
    rw [hplace]
    exact hfree

/-- The search changes {lit}`nextpid` only. -/
theorem newpid_cases (s : Xinu) :
    ∃ next, s.newpid.2 = s.setNextpid next ∧ (s.newpid.1 ≠ SYSERR ↔ s.FreeEntry) := by
  rcases newpidLoop_spec NPROC.toNat s with ⟨next, hnext, hpid⟩
  refine ⟨next, hnext, ?_, newpid_ne_syserr⟩
  intro hsome
  exact ⟨_, hpid hsome⟩

/-!
## The ways to fail
-/

/-- {lit}`create` fails for one of three reasons and returns the number of the entry
otherwise. -/
theorem create_outcome (s : Xinu) (ssize : Nat) (priority : Int) :
    (∃ next, s.create ssize priority =
        ((s.setMem (s.newStack ssize).2).setNextpid next).ret SYSERR ∧
      ((s.newStack ssize).1 = none ∨ ¬ s.FreeEntry ∨ priority < 1)) ∨
    ∃ pid, ValidPid pid ∧ (s.create ssize priority).retval s.currpid = pid ∧
      s.FreeEntry ∧ 1 ≤ priority := by
  have hstk : s.mem.getstk (s.envtab EV_MEMALLOC)
      (roundew (if ssize < MINSTK then MINSTK else ssize)) = s.newStack ssize := rfl
  unfold Xinu.create
  dsimp only
  rw [hstk]
  generalize s.newStack ssize = stk
  cases stk.1 with
  | none => exact Or.inl ⟨s.nextpid, rfl, Or.inl rfl⟩
  | some saddr =>
      dsimp only
      rcases newpid_cases (s.setMem stk.2) with ⟨next, hnext, hpid⟩
      rw [hnext]
      by_cases hnone : (s.setMem stk.2).newpid.1 = SYSERR
      · rw [if_pos hnone]
        exact Or.inl ⟨next, rfl, Or.inr (Or.inl fun hentry => hpid.mpr hentry hnone)⟩
      · rw [if_neg hnone]
        have hvalid := (newpidLoop_spec NPROC.toNat (s.setMem stk.2)).choose_spec.2 hnone
        by_cases hprio : priority < 1
        · rw [if_pos hprio]
          exact Or.inl ⟨next, rfl, Or.inr (Or.inr hprio)⟩
        · rw [if_neg hprio]
          exact Or.inr ⟨_, hvalid.1, upd_self, hpid.mp hnone, Int.not_lt.mp hprio⟩

/-- Without a stack nothing has happened yet. -/
theorem newStack_none (h : s.mem.FreeList 0 s.mem.freeList) (hword : s.mem.total < 4294967296)
    (hno : s.NoStack ssize) : (s.newStack ssize).2.freeList = s.mem.freeList ∧
      (s.newStack ssize).2.total = s.mem.total := by
  unfold Xinu.newStack
  by_cases hpos : 0 < roundmb (stackSize ssize) ∨ s.mem.freeList = []
  · rcases getstk_ok h (s.envtab EV_MEMALLOC) hpos with ⟨a, m', L', heq, htakes⟩ | ⟨heq, _⟩
    · exfalso
      rcases htakes.within with ⟨b, hb, hlow, hhigh⟩
      cases hno with
      | inl hzero =>
          cases hpos with
          | inl hpos => omega
          | inr hnil =>
              rw [hnil] at hb
              cases hb
      | inr hsmall =>
          have hlt := hsmall b hb
          unfold Span.stop at hhigh
          dsimp only at hlow hhigh
          omega
    · rw [heq]
      exact ⟨rfl, rfl⟩
  · rcases not_or.mp hpos with ⟨hzero, hne⟩
    have hround : roundmb (stackSize ssize) = 0 := Nat.eq_zero_of_not_pos hzero
    by_cases hz : stackSize ssize = 0
    · unfold Mem.getstk
      rw [if_pos hz]
      exact ⟨rfl, rfl⟩
    · rcases getstk_nothing h (s.envtab EV_MEMALLOC) hz hround hne with ⟨b, _, m', heq, hfree⟩
      have htotal := getstk_total h (s.envtab EV_MEMALLOC) heq
      rw [heq]
      refine ⟨hfree.freeList_eq, ?_⟩
      rw [htotal, hround]
      unfold uint32
      omega

/-- What was taken is no longer in the list. -/
theorem Mem.Takes.freeList_ne {m m' : Mem} {L' : List Span} {c : Span}
    (htakes : m.Takes 0 m.freeList c m' L') (hpos : 0 < c.size) : m'.freeList ≠ m.freeList := by
  rw [htakes.free.freeList_eq]
  intro hsame
  have hin : c.start ∈ c.bytes := start_mem_bytes hpos
  have hout := Set.disjoint_left.mp htakes.disjoint hin
  rw [hsame, htakes.bytes] at hout
  exact hout (Or.inl hin)

/-- A stack is taken out of the free memory. -/
theorem newStack_some (h : s.mem.FreeList 0 s.mem.freeList) (hyes : ¬ s.NoStack ssize) :
    (s.newStack ssize).1 ≠ none ∧ (s.newStack ssize).2.freeList ≠ s.mem.freeList := by
  unfold Xinu.newStack
  rcases not_or.mp hyes with ⟨hzero, hlarge⟩
  have hpos := Nat.pos_of_ne_zero hzero
  rcases getstk_ok h (s.envtab EV_MEMALLOC) (Or.inl hpos) with
    ⟨a, m', L', heq, htakes⟩ | ⟨_, hsmall⟩
  · rw [heq]
    exact ⟨Option.some_ne_none _, htakes.freeList_ne hpos⟩
  · exfalso
    cases hsmall with
    | inl hz =>
        apply hzero
        rw [hz]
        rfl
    | inr hsmall => exact hlarge hsmall

/-!
## The exact condition
-/

/-- A failing {lit}`create` changes nothing if and only if it can fail for want of a stack
only. -/
theorem create_fails_iff (h : s.mem.FreeList 0 s.mem.freeList)
    (hword : s.mem.total < 4294967296) :
    s.CreateFails ssize priority ↔
      s.NoStack ssize ∨ (s.FreeEntry ∧ 1 ≤ priority) := by
  constructor
  · intro hfails
    by_contra hnot
    rcases not_or.mp hnot with ⟨hyes, hrest⟩
    rcases newStack_some h hyes with ⟨hsome, hchanged⟩
    rcases create_outcome s ssize priority with ⟨next, heq, _⟩ | ⟨pid, _, _, hentry, hprio⟩
    · have hret : (s.create ssize priority).retval s.currpid = SYSERR := by
        rw [heq]
        exact upd_self
      have hsame := (hfails hret).freeList
      rw [heq] at hsame
      exact hchanged hsame
    · exact hrest ⟨hentry, hprio⟩
  · intro hcond hret
    rcases create_outcome s ssize priority with ⟨next, heq, hwhy⟩ | ⟨pid, hvalid, hpid, _, _⟩
    · have hstk : (s.newStack ssize).2.freeList = s.mem.freeList ∧
          (s.newStack ssize).2.total = s.mem.total := by
        by_cases hno : s.NoStack ssize
        · exact newStack_none h hword hno
        · exfalso
          rcases hcond.resolve_left hno with ⟨hentry, hprio⟩
          rcases hwhy with hnone | hfull | hlow
          · exact (newStack_some h hno).1 hnone
          · exact hfull hentry
          · omega
      rw [heq]
      exact ⟨hstk.1, hstk.2, rfl, rfl⟩
    · rw [hpid] at hret
      unfold ValidPid at hvalid
      unfold SYSERR at hret
      omega

end

/-- A machine with one free block. -/
def sampleHost : Xinu := sampleBoot.setMem sampleMem

theorem sampleHost_free : sampleHost.mem.FreeList 0 sampleHost.mem.freeList := by
  have hfree := sampleMem_free 0
  have hlist := hfree.freeList_eq
  rw [← hlist] at hfree
  exact hfree

/-- A stack of more bytes than there are. -/
theorem create_fails_large : sampleHost.CreateFails 0x40000000 20 := by
  apply (create_fails_iff sampleHost_free (by decide)).mpr
  left
  right
  intro b hb
  have hlist := (sampleMem_free 0).freeList_eq
  have hmem : b ∈ sampleMem.freeList := hb
  rw [hlist] at hmem
  rw [List.mem_singleton.mp hmem]
  decide

/-- A stack of a kilobyte for a process of priority 0. -/
theorem create_fails_leaks :
    ¬ ∀ (s : Xinu) (ssize : Nat) (priority : Int), s.mem.FreeList 0 s.mem.freeList →
      s.mem.total < 4294967296 → s.CreateFails ssize priority := by
  intro hall
  have hret : (sampleHost.create 1024 0).retval sampleHost.currpid = SYSERR := by decide +kernel
  have hsame := hall sampleHost 1024 0 sampleHost_free (by decide) hret
  have htotal : (sampleHost.create 1024 0).mem.total ≠ sampleHost.mem.total := by decide +kernel
  exact htotal hsame.total

end BbbXinu
