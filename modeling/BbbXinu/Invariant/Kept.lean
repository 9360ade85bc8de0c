import BbbXinu.Invariant.Clock

/-!
# What scheduling leaves alone

Making processes ready, waking them and giving the processor away change states,
priorities and queues.  Messages, stacks, memory, the clock and the environment
stay as they are, and so do the semaphores but for the one that is signalled.
-/

namespace BbbXinu

/-- The entries differ in state, priority and state times only. -/
structure SameWork (e e' : Procent) : Prop where
  prsem : e'.prsem = e.prsem
  prstkbase : e'.prstkbase = e.prstkbase
  prstklen : e'.prstklen = e.prstklen
  prparent : e'.prparent = e.prparent
  prmsg : e'.prmsg = e.prmsg
  prhasmsg : e'.prhasmsg = e.prhasmsg

theorem SameWork.refl (e : Procent) : SameWork e e := ⟨rfl, rfl, rfl, rfl, rfl, rfl⟩

theorem SameWork.trans {e e' e'' : Procent} (h : SameWork e e') (h' : SameWork e' e'') :
    SameWork e e'' where
  prsem := h'.prsem.trans h.prsem
  prstkbase := h'.prstkbase.trans h.prstkbase
  prstklen := h'.prstklen.trans h.prstklen
  prparent := h'.prparent.trans h.prparent
  prmsg := h'.prmsg.trans h.prmsg
  prhasmsg := h'.prhasmsg.trans h.prhasmsg

/-- The states differ in scheduling only. -/
structure Kept (s s' : Xinu) : Prop where
  work : ∀ p, SameWork (s.proctab p) (s'.proctab p)
  stack : s'.stack = s.stack
  retval : s'.retval = s.retval
  halted : s'.halted = s.halted
  mem : s'.mem = s.mem
  prcount : s'.prcount = s.prcount
  envtab : s'.envtab = s.envtab
  clktime : s'.clktime = s.clktime
  count1000 : s'.count1000 = s.count1000
  clktimems : s'.clktimems = s.clktimems

theorem Kept.refl (s : Xinu) : Kept s s :=
  ⟨fun _ => .refl _, rfl, rfl, rfl, rfl, rfl, rfl, rfl, rfl, rfl⟩

theorem Kept.trans {s s' s'' : Xinu} (h : Kept s s') (h' : Kept s' s'') : Kept s s'' where
  work := fun p => (h.work p).trans (h'.work p)
  stack := h'.stack.trans h.stack
  retval := h'.retval.trans h.retval
  halted := h'.halted.trans h.halted
  mem := h'.mem.trans h.mem
  prcount := h'.prcount.trans h.prcount
  envtab := h'.envtab.trans h.envtab
  clktime := h'.clktime.trans h.clktime
  count1000 := h'.count1000.trans h.count1000
  clktimems := h'.clktimems.trans h.clktimems

/-!
## Single updates
-/

section

variable {s : Xinu}

theorem kept_setProc (s : Xinu) (pid : Int) {f : Procent → Procent}
    (hf : ∀ e, SameWork e (f e)) : Kept s (s.setProc pid f) := by
  refine ⟨?_, rfl, rfl, rfl, rfl, rfl, rfl, rfl, rfl, rfl⟩
  intro p
  show SameWork _ (upd s.proctab pid (f (s.proctab pid)) p)
  rw [upd_apply]
  split
  · rename_i hp
    rw [hp]
    exact hf _
  · exact .refl _

theorem kept_setQueue (s : Xinu) (i : Int) (f : Qentry → Qentry) : Kept s (s.setQueue i f) :=
  ⟨fun _ => .refl _, rfl, rfl, rfl, rfl, rfl, rfl, rfl, rfl, rfl⟩

theorem kept_setSem (s : Xinu) (i : Int) (f : Sentry → Sentry) : Kept s (s.setSem i f) :=
  ⟨fun _ => .refl _, rfl, rfl, rfl, rfl, rfl, rfl, rfl, rfl, rfl⟩

theorem kept_setDefer (s : Xinu) (d : Defer) : Kept s (s.setDefer d) :=
  ⟨fun _ => .refl _, rfl, rfl, rfl, rfl, rfl, rfl, rfl, rfl, rfl⟩

theorem kept_setCurrpid (s : Xinu) (pid : Int) : Kept s (s.setCurrpid pid) :=
  ⟨fun _ => .refl _, rfl, rfl, rfl, rfl, rfl, rfl, rfl, rfl, rfl⟩

theorem kept_setReadycount (s : Xinu) (n : Nat) : Kept s (s.setReadycount n) :=
  ⟨fun _ => .refl _, rfl, rfl, rfl, rfl, rfl, rfl, rfl, rfl, rfl⟩

theorem kept_setPreempt (s : Xinu) (n : Nat) : Kept s (s.setPreempt n) :=
  ⟨fun _ => .refl _, rfl, rfl, rfl, rfl, rfl, rfl, rfl, rfl, rfl⟩

/-!
## Operations
-/

theorem kept_recordCpuqdata (s : Xinu) (pid : Int) : Kept s (s.recordCpuqdata pid) := by
  have hset : ∀ (s : Xinu) (t : Mstime),
      Kept s (s.setProc pid fun e => { e with timestatein := t }) :=
    fun s t => kept_setProc s pid fun _ => ⟨rfl, rfl, rfl, rfl, rfl, rfl⟩
  unfold Xinu.recordCpuqdata
  split
  · split
    · exact .refl s
    · dsimp only
      apply Kept.trans _ (hset _ _)
      split
      · refine Kept.trans ?_ (kept_setProc _ pid ?_)
        · split
          · exact ⟨fun _ => .refl _, rfl, rfl, rfl, rfl, rfl, rfl, rfl, rfl, rfl⟩
          · exact .refl s
        · exact fun _ => ⟨rfl, rfl, rfl, rfl, rfl, rfl⟩
      · exact .refl s
  · exact .refl s

theorem kept_setprio (s : Xinu) (pid : Int) : Kept s (s.setprio pid).2 := by
  unfold Xinu.setprio
  split
  · exact .refl s
  · split
    · exact .refl s
    · split
      · exact kept_recordCpuqdata s pid
      · split
        · exact ⟨fun _ => .refl _, rfl, rfl, rfl, rfl, rfl, rfl, rfl, rfl, rfl⟩
        · split
          · exact .refl s
          · exact .refl s

theorem kept_getitem (s : Xinu) (pid : Int) : Kept s (s.getitem pid) := by
  unfold Xinu.getitem
  exact (kept_setQueue s _ _).trans (kept_setQueue _ _ _)

theorem kept_getfirst (s : Xinu) (q : Int) : Kept s (s.getfirst q).2 := by
  unfold Xinu.getfirst
  split
  · exact .refl s
  · exact kept_getitem s _

theorem kept_dequeue (s : Xinu) (q : Int) : Kept s (s.dequeue q).2 := by
  unfold Xinu.dequeue
  split
  · exact .refl s
  · split
    · exact .refl s
    · dsimp only
      exact (kept_getfirst s q).trans (kept_setQueue _ _ _)

theorem kept_enqueue (s : Xinu) (pid q : Int) : Kept s (s.enqueue pid q) := by
  unfold Xinu.enqueue
  split
  · exact .refl s
  · exact ((kept_setQueue s _ _).trans (kept_setQueue _ _ _)).trans (kept_setQueue _ _ _)

theorem kept_insert (s : Xinu) (pid q key : Int) : Kept s (s.insert pid q key) := by
  unfold Xinu.insert
  split
  · exact .refl s
  · exact ((kept_setQueue s _ _).trans (kept_setQueue _ _ _)).trans (kept_setQueue _ _ _)

theorem kept_insertd (s : Xinu) (pid q key : Int) : Kept s (s.insertd pid q key).2 := by
  unfold Xinu.insertd
  split
  · exact .refl s
  · dsimp only
    split
    · exact (((kept_setQueue s _ _).trans (kept_setQueue _ _ _)).trans
        (kept_setQueue _ _ _)).trans (kept_setQueue _ _ _)
    · exact ((kept_setQueue s _ _).trans (kept_setQueue _ _ _)).trans (kept_setQueue _ _ _)

theorem kept_unsleep (s : Xinu) (pid : Int) : Kept s (s.unsleep pid) := by
  unfold Xinu.unsleep
  split
  · exact .refl s
  · split
    · exact .refl s
    · dsimp only
      split
      · exact (kept_setQueue s _ _).trans (kept_getitem _ _)
      · exact kept_getitem s _

theorem kept_setState (s : Xinu) (pid : Int) (st : PrState) :
    Kept s (s.setProc pid fun e => { e with prstate := st }) :=
  kept_setProc s pid fun _ => ⟨rfl, rfl, rfl, rfl, rfl, rfl⟩

theorem kept_setPrprio (s : Xinu) (pid prio : Int) :
    Kept s (s.setProc pid fun e => { e with prprio := prio }) :=
  kept_setProc s pid fun _ => ⟨rfl, rfl, rfl, rfl, rfl, rfl⟩

theorem kept_dispatch (s : Xinu) : Kept s s.dispatch := by
  have hdequeue := kept_dequeue s readylist
  unfold Xinu.dispatch
  dsimp only
  apply Kept.trans _ (kept_setPreempt _ _)
  apply Kept.trans _ (kept_setState _ _ _)
  apply Kept.trans _ (kept_recordCpuqdata _ _)
  exact (hdequeue.trans (kept_setCurrpid _ _)).trans (kept_setReadycount _ _)

theorem kept_resched (s : Xinu) : Kept s s.resched := by
  unfold Xinu.resched
  split
  · exact kept_setDefer s _
  · dsimp only
    split
    · have hprio := (kept_setprio s s.currpid).trans
        (kept_setPrprio _ s.currpid (s.setprio s.currpid).1)
      split
      · exact hprio
      · apply Kept.trans _ (kept_dispatch _)
        apply Kept.trans _ (kept_insert _ _ _ _)
        apply Kept.trans _ (kept_setReadycount _ _)
        exact (hprio.trans (kept_recordCpuqdata _ _)).trans (kept_setState _ _ _)
    · exact kept_dispatch s

theorem kept_ready (s : Xinu) (pid : Int) : Kept s (s.ready pid) := by
  unfold Xinu.ready
  split
  · exact .refl s
  · dsimp only
    have hstate := ((kept_recordCpuqdata s pid).trans (kept_setState _ pid .ready)).trans
      (kept_setReadycount _ (uint16 (((s.recordCpuqdata pid).setProc pid fun e =>
        { e with prstate := .ready }).readycount + 1)))
    apply Kept.trans _ (kept_resched _)
    apply Kept.trans _ (kept_insert _ _ _ _)
    exact (hstate.trans (kept_setprio _ pid)).trans (kept_setPrprio _ pid _)

theorem kept_deferStart (s : Xinu) : Kept s (s.reschedCntl DEFER_START) := kept_setDefer s _

theorem kept_deferStop (s : Xinu) : Kept s (s.reschedCntl DEFER_STOP) := by
  rw [reschedCntl_stop]
  unfold Xinu.deferStop
  split
  · exact .refl s
  · dsimp only
    split
    · exact (kept_setDefer s _).trans (kept_resched _)
    · exact kept_setDefer s _

theorem kept_readyDequeue (s : Xinu) (q : Int) : Kept s (s.readyDequeue q) :=
  (kept_dequeue s q).trans (kept_ready _ _)

theorem kept_readyAll (q : Int) (n : Nat) (s : Xinu) : Kept s (Xinu.readyAll q n s) := by
  induction n generalizing s with
  | zero => exact .refl s
  | succ n ih =>
      unfold Xinu.readyAll
      dsimp only
      split
      · exact kept_getfirst s q
      · exact ((kept_getfirst s q).trans (kept_ready _ _)).trans (ih _)

theorem kept_signalnLoop (sem : Int) (n : Nat) (s : Xinu) :
    Kept s (Xinu.signalnLoop sem n s) := by
  induction n generalizing s with
  | zero => exact .refl s
  | succ n ih =>
      unfold Xinu.signalnLoop
      dsimp only
      apply Kept.trans _ (ih _)
      split
      · exact (kept_setSem s sem _).trans (kept_readyDequeue _ _)
      · exact kept_setSem s sem _

theorem kept_semdeleteLoop (sem : Int) (n : Nat) (s : Xinu) :
    Kept s (Xinu.semdeleteLoop sem n s) := by
  induction n generalizing s with
  | zero => exact .refl s
  | succ n ih =>
      unfold Xinu.semdeleteLoop
      dsimp only
      apply Kept.trans _ (ih _)
      exact ((kept_setSem s sem _).trans (kept_getfirst _ _)).trans (kept_ready _ _)

theorem kept_wakeupLoop (n : Nat) (s : Xinu) : Kept s (Xinu.wakeupLoop n s) := by
  induction n generalizing s with
  | zero => exact .refl s
  | succ n ih =>
      unfold Xinu.wakeupLoop
      split
      · exact (kept_readyDequeue s sleepq).trans (ih _)
      · exact .refl s

theorem kept_wakeup (s : Xinu) : Kept s s.wakeup :=
  ((kept_deferStart s).trans (kept_wakeupLoop _ _)).trans (kept_deferStop _)

theorem kept_clkPreempt (s : Xinu) : Kept s s.clkPreempt := by
  unfold Xinu.clkPreempt
  dsimp only
  split
  · exact ((kept_setPreempt s _).trans (kept_setPreempt _ _)).trans (kept_resched _)
  · exact kept_setPreempt s _

/-!
## Semaphores
-/

theorem recordCpuqdata_semtab (s : Xinu) (pid : Int) :
    (s.recordCpuqdata pid).semtab = s.semtab := by
  unfold Xinu.recordCpuqdata
  split
  · split
    · rfl
    · dsimp only
      split
      · split
        · rfl
        · rfl
      · rfl
  · rfl

theorem setprio_semtab (s : Xinu) (pid : Int) : (s.setprio pid).2.semtab = s.semtab := by
  unfold Xinu.setprio
  split
  · rfl
  · split
    · rfl
    · split
      · exact recordCpuqdata_semtab s pid
      · split
        · rfl
        · split
          · rfl
          · rfl

theorem getfirst_semtab (s : Xinu) (q : Int) : (s.getfirst q).2.semtab = s.semtab := by
  unfold Xinu.getfirst
  split
  · rfl
  · rfl

theorem dequeue_semtab (s : Xinu) (q : Int) : (s.dequeue q).2.semtab = s.semtab := by
  unfold Xinu.dequeue
  split
  · rfl
  · split
    · rfl
    · exact getfirst_semtab s q

theorem enqueue_semtab (s : Xinu) (pid q : Int) : (s.enqueue pid q).semtab = s.semtab := by
  unfold Xinu.enqueue
  split
  · rfl
  · rfl

theorem insert_semtab (s : Xinu) (pid q key : Int) :
    (s.insert pid q key).semtab = s.semtab := by
  unfold Xinu.insert
  split
  · rfl
  · rfl

theorem insertd_semtab (s : Xinu) (pid q key : Int) :
    (s.insertd pid q key).2.semtab = s.semtab := by
  unfold Xinu.insertd
  split
  · rfl
  · dsimp only
    split
    · rfl
    · rfl

theorem unsleep_semtab (s : Xinu) (pid : Int) : (s.unsleep pid).semtab = s.semtab := by
  unfold Xinu.unsleep
  split
  · rfl
  · split
    · rfl
    · dsimp only
      split
      · rfl
      · rfl

theorem dispatch_semtab (s : Xinu) : s.dispatch.semtab = s.semtab := by
  unfold Xinu.dispatch
  dsimp only
  show (Xinu.recordCpuqdata _ _).semtab = s.semtab
  rw [recordCpuqdata_semtab]
  exact dequeue_semtab s readylist

theorem resched_semtab (s : Xinu) : s.resched.semtab = s.semtab := by
  unfold Xinu.resched
  split
  · rfl
  · dsimp only
    split
    · split
      · exact setprio_semtab s s.currpid
      · rw [dispatch_semtab, insert_semtab]
        show (Xinu.recordCpuqdata _ _).semtab = s.semtab
        rw [recordCpuqdata_semtab]
        exact setprio_semtab s s.currpid
    · exact dispatch_semtab s

theorem ready_semtab (s : Xinu) (pid : Int) : (s.ready pid).semtab = s.semtab := by
  unfold Xinu.ready
  split
  · rfl
  · dsimp only
    rw [resched_semtab, insert_semtab]
    show (Xinu.setprio _ _).2.semtab = s.semtab
    rw [setprio_semtab]
    exact recordCpuqdata_semtab s pid

theorem reschedCntl_semtab (s : Xinu) (defer : Int) :
    (s.reschedCntl defer).semtab = s.semtab := by
  unfold Xinu.reschedCntl
  split
  · rfl
  · split
    · unfold Xinu.deferStop
      split
      · rfl
      · dsimp only
        split
        · rw [resched_semtab]
          rfl
        · rfl
    · rfl

theorem readyDequeue_semtab (s : Xinu) (q : Int) : (s.readyDequeue q).semtab = s.semtab :=
  (ready_semtab _ _).trans (dequeue_semtab s q)

theorem wakeupLoop_semtab (n : Nat) (s : Xinu) :
    (Xinu.wakeupLoop n s).semtab = s.semtab := by
  induction n generalizing s with
  | zero => rfl
  | succ n ih =>
      unfold Xinu.wakeupLoop
      split
      · exact (ih _).trans (readyDequeue_semtab s sleepq)
      · rfl

theorem readyAll_semtab (q : Int) (n : Nat) (s : Xinu) :
    (Xinu.readyAll q n s).semtab = s.semtab := by
  induction n generalizing s with
  | zero => rfl
  | succ n ih =>
      unfold Xinu.readyAll
      dsimp only
      split
      · exact getfirst_semtab s q
      · exact ((ih _).trans (ready_semtab _ _)).trans (getfirst_semtab s q)

theorem clkPreempt_semtab (s : Xinu) : s.clkPreempt.semtab = s.semtab := by
  unfold Xinu.clkPreempt
  dsimp only
  split
  · exact resched_semtab _
  · rfl

end

end BbbXinu
