import BbbXinu.Invariant.EnvKept

/-!
# Steps without messages

Most calls move no message: nobody gets or takes one, nobody starts waiting for
one, and no process goes away.
-/

namespace BbbXinu

/-- The entries agree in their messages and in whom the process reports to. -/
structure SameMail (e e' : Procent) : Prop where
  prparent : e'.prparent = e.prparent
  prmsg : e'.prmsg = e.prmsg
  prhasmsg : e'.prhasmsg = e.prhasmsg

/-- The state is the old one or not that of a receiver, and of a free entry only if
the process goes away. -/
def Settles (freed : Prop) (st st' : PrState) : Prop :=
  st' = st ∨ st' ≠ .recv ∧ (st' = .free → freed)

/-- A frame at whose end a process takes its message. -/
def Frame.fetches : Frame → Bool
  | .receive | .recvtime => true
  | _ => false

/-- Between the two states no message moved, nobody started to wait for one and
nobody but the given processes was freed, and no frame was left that takes a
message. -/
structure Hushed (v : Int → Prop) (s s' : Xinu) : Prop where
  mail : ∀ p, SameMail (s.proctab p) (s'.proctab p)
  state : ∀ p, Settles (v p) (s.proctab p).prstate (s'.proctab p).prstate
  frames : ∀ p, ∀ f ∈ s'.stack p, f.fetches = true → f ∈ s.stack p

section

variable {v : Int → Prop} {pid : Int} {s s' s'' : Xinu}

theorem SameMail.refl (e : Procent) : SameMail e e := ⟨rfl, rfl, rfl⟩

theorem SameMail.trans {e e' e'' : Procent} (h : SameMail e e') (h' : SameMail e' e'') :
    SameMail e e'' where
  prparent := h'.prparent.trans h.prparent
  prmsg := h'.prmsg.trans h.prmsg
  prhasmsg := h'.prhasmsg.trans h.prhasmsg

theorem SameWork.mail {e e' : Procent} (h : SameWork e e') : SameMail e e' :=
  ⟨h.prparent, h.prmsg, h.prhasmsg⟩

theorem Settles.trans {freed : Prop} {st st' st'' : PrState} (h : Settles freed st st')
    (h' : Settles freed st' st'') : Settles freed st st'' := by
  rcases h' with heq | hne
  · rw [heq]
    exact h
  · exact Or.inr hne

theorem Hushed.refl (s : Xinu) : Hushed v s s :=
  ⟨fun _ => .refl _, fun _ => Or.inl rfl, fun _ _ hf _ => hf⟩

theorem Hushed.trans (h : Hushed v s s') (h' : Hushed v s' s'') : Hushed v s s'' where
  mail := fun p => (h.mail p).trans (h'.mail p)
  state := fun p => (h.state p).trans (h'.state p)
  frames := fun p f hf hfetch => h.frames p f (h'.frames p f hf hfetch) hfetch

/-!
## Single updates
-/

theorem hushed_of_frames (hproctab : s'.proctab = s.proctab)
    (hframes : ∀ p, ∀ f ∈ s'.stack p, f.fetches = true → f ∈ s.stack p) : Hushed v s s' where
  mail := fun p => by
    rw [hproctab]
    exact .refl _
  state := fun p => Or.inl (by rw [hproctab])
  frames := hframes

theorem hushed_of_proctab (hproctab : s'.proctab = s.proctab) (hstack : s'.stack = s.stack) :
    Hushed v s s' := by
  apply hushed_of_frames hproctab
  rw [hstack]
  exact fun _ _ hf _ => hf

/-- What keeps work and states keeps the mail. -/
theorem Kept.hushed (h : Kept s s')
    (hstate : ∀ p, (s'.proctab p).prstate = (s.proctab p).prstate) : Hushed v s s' where
  mail := fun p => (h.work p).mail
  state := fun p => Or.inl (hstate p)
  frames := fun p f hf _ => by
    rw [h.stack] at hf
    exact hf

theorem hushed_setProc (s : Xinu) (pid : Int) {f : Procent → Procent}
    (hmail : ∀ e, SameMail e (f e)) (hstate : ∀ e, Settles (v pid) e.prstate (f e).prstate) :
    Hushed v s (s.setProc pid f) := by
  have hupd : ∀ p, SameMail (s.proctab p) ((s.setProc pid f).proctab p) ∧
      Settles (v p) (s.proctab p).prstate ((s.setProc pid f).proctab p).prstate := by
    intro p
    by_cases hp : p = pid
    · rw [hp, setProc_self]
      exact ⟨hmail _, hstate _⟩
    · rw [setProc_of_ne _ _ hp]
      exact ⟨.refl _, Or.inl rfl⟩
  exact ⟨fun p => (hupd p).1, fun p => (hupd p).2, fun _ _ hf _ => hf⟩

/-- A process gets a state other than those of receivers and free entries. -/
theorem hushed_stop (s : Xinu) (pid : Int) {f : Procent → Procent} (st : PrState)
    (hmail : ∀ e, SameMail e (f e)) (hstate : ∀ e, (f e).prstate = st)
    (hne : st ≠ .recv ∧ st ≠ .free) : Hushed v s (s.setProc pid f) := by
  apply hushed_setProc s pid hmail
  intro e
  rw [hstate e]
  exact Or.inr ⟨hne.1, fun hfree => absurd hfree hne.2⟩

theorem hushed_setState (s : Xinu) (pid : Int) {st : PrState} (hne : st ≠ .recv ∧ st ≠ .free) :
    Hushed v s (s.setProc pid fun e => { e with prstate := st }) :=
  hushed_stop s pid st (fun _ => ⟨rfl, rfl, rfl⟩) (fun _ => rfl) hne

theorem hushed_setPrprio (s : Xinu) (pid prio : Int) :
    Hushed v s (s.setProc pid fun e => { e with prprio := prio }) :=
  hushed_setProc s pid (fun _ => ⟨rfl, rfl, rfl⟩) fun _ => Or.inl rfl

theorem hushed_push (s : Xinu) {f : Frame} (hf : f.fetches = false) : Hushed v s (s.push f) where
  mail := fun _ => .refl _
  state := fun _ => Or.inl rfl
  frames := by
    intro p f' hmem hfetch
    change f' ∈ upd s.stack s.currpid (f :: s.stack s.currpid) p at hmem
    by_cases hp : p = s.currpid
    · rw [hp] at hmem ⊢
      rw [upd_self] at hmem
      rcases List.mem_cons.mp hmem with heq | htail
      · rw [heq, hf] at hfetch
        cases hfetch
      · exact htail
    · rw [upd_of_ne hp] at hmem
      exact hmem

theorem hushed_pop (s : Xinu) : Hushed v s s.pop where
  mail := fun _ => .refl _
  state := fun _ => Or.inl rfl
  frames := by
    intro p f hmem _
    change f ∈ upd s.stack s.currpid (s.stack s.currpid).tail p at hmem
    by_cases hp : p = s.currpid
    · rw [hp] at hmem ⊢
      rw [upd_self] at hmem
      exact List.mem_of_mem_tail hmem
    · rw [upd_of_ne hp] at hmem
      exact hmem

theorem hushed_setReadycount (s : Xinu) (n : Nat) : Hushed v s (s.setReadycount n) :=
  hushed_of_proctab rfl rfl

theorem hushed_setPreempt (s : Xinu) (n : Nat) : Hushed v s (s.setPreempt n) :=
  hushed_of_proctab rfl rfl

theorem hushed_setDefer (s : Xinu) (d : Defer) : Hushed v s (s.setDefer d) :=
  hushed_of_proctab rfl rfl

theorem hushed_setSem (s : Xinu) (i : Int) (f : Sentry → Sentry) : Hushed v s (s.setSem i f) :=
  hushed_of_proctab rfl rfl

theorem hushed_setRwb (s : Xinu) (i : Int) (f : Rwbentry → Rwbentry) :
    Hushed v s (s.setRwb i f) :=
  hushed_of_proctab rfl rfl

theorem hushed_setFlag (s : Xinu) (i flag : Int) : Hushed v s (s.setFlag i flag) :=
  hushed_of_proctab rfl rfl

theorem hushed_ret (s : Xinu) (value : Int) : Hushed v s (s.ret value) := hushed_of_proctab rfl rfl

/-!
## Scheduling
-/

theorem hushed_recordCpuqdata (s : Xinu) (pid : Int) : Hushed v s (s.recordCpuqdata pid) :=
  (kept_recordCpuqdata s pid).hushed (quiet_recordCpuqdata s pid).prstate

theorem hushed_setprio (s : Xinu) (pid : Int) : Hushed v s (s.setprio pid).2 :=
  (kept_setprio s pid).hushed (quiet_setprio s pid).prstate

theorem hushed_insert (s : Xinu) (pid q key : Int) : Hushed v s (s.insert pid q key) :=
  hushed_of_proctab (insert_proctab s pid q key) (kept_insert s pid q key).stack

theorem hushed_dequeue (s : Xinu) (q : Int) : Hushed v s (s.dequeue q).2 :=
  hushed_of_proctab (dequeue_proctab s q) (kept_dequeue s q).stack

theorem hushed_getfirst (s : Xinu) (q : Int) : Hushed v s (s.getfirst q).2 := by
  unfold Xinu.getfirst
  split
  · exact .refl s
  · exact hushed_of_proctab rfl rfl

theorem hushed_enqueue (s : Xinu) (pid q : Int) : Hushed v s (s.enqueue pid q) := by
  unfold Xinu.enqueue
  split
  · exact .refl s
  · exact hushed_of_proctab rfl rfl

theorem hushed_unsleep (s : Xinu) (pid : Int) : Hushed v s (s.unsleep pid) := by
  unfold Xinu.unsleep
  split
  · exact .refl s
  · split
    · exact .refl s
    · dsimp only
      split
      · exact hushed_of_proctab rfl rfl
      · exact hushed_of_proctab rfl rfl

theorem hushed_insertd (s : Xinu) (pid q key : Int) : Hushed v s (s.insertd pid q key).2 := by
  unfold Xinu.insertd
  split
  · exact .refl s
  · dsimp only
    split
    · exact hushed_of_proctab rfl rfl
    · exact hushed_of_proctab rfl rfl

theorem hushed_dispatch (s : Xinu) : Hushed v s s.dispatch := by
  unfold Xinu.dispatch
  dsimp only
  refine Hushed.trans ?_ (hushed_setPreempt _ _)
  refine Hushed.trans ?_ (hushed_setState _ _ (by decide))
  refine Hushed.trans ?_ (hushed_recordCpuqdata _ _)
  refine Hushed.trans ?_ (hushed_setReadycount _ _)
  exact (hushed_dequeue s readylist).trans (hushed_of_proctab rfl rfl)

theorem hushed_resched (s : Xinu) : Hushed v s s.resched := by
  unfold Xinu.resched
  split
  · exact hushed_of_proctab rfl rfl
  · dsimp only
    split
    · have hprio : Hushed v s ((s.setprio s.currpid).2.setProc s.currpid fun e =>
          { e with prprio := (s.setprio s.currpid).1 }) :=
        (hushed_setprio s s.currpid).trans (hushed_setPrprio _ _ _)
      split
      · exact hprio
      · refine Hushed.trans ?_ (hushed_dispatch _)
        refine Hushed.trans ?_ (hushed_insert _ _ _ _)
        refine Hushed.trans ?_ (hushed_setReadycount _ _)
        refine Hushed.trans ?_ (hushed_setState _ _ (by decide))
        exact hprio.trans (hushed_recordCpuqdata _ _)
    · exact hushed_dispatch s

theorem hushed_ready (s : Xinu) (pid : Int) : Hushed v s (s.ready pid) := by
  unfold Xinu.ready
  split
  · exact .refl s
  · dsimp only
    refine Hushed.trans ?_ (hushed_resched _)
    refine Hushed.trans ?_ (hushed_insert _ _ _ _)
    refine Hushed.trans ?_ (hushed_setPrprio _ _ _)
    refine Hushed.trans ?_ (hushed_setprio _ _)
    refine Hushed.trans ?_ (hushed_setReadycount _ _)
    refine Hushed.trans ?_ (hushed_setState _ _ (by decide))
    exact hushed_recordCpuqdata s pid

theorem hushed_deferStart (s : Xinu) : Hushed v s (s.reschedCntl DEFER_START) :=
  hushed_of_proctab rfl rfl

theorem hushed_deferStop (s : Xinu) : Hushed v s (s.reschedCntl DEFER_STOP) := by
  rw [reschedCntl_stop]
  unfold Xinu.deferStop
  split
  · exact .refl s
  · dsimp only
    split
    · exact (hushed_setDefer s _).trans (hushed_resched _)
    · exact hushed_of_proctab rfl rfl

theorem hushed_readyDequeue (s : Xinu) (q : Int) : Hushed v s (s.readyDequeue q) :=
  (hushed_dequeue s q).trans (hushed_ready _ _)

theorem hushed_readyAll (q : Int) (n : Nat) (s : Xinu) : Hushed v s (Xinu.readyAll q n s) := by
  induction n generalizing s with
  | zero => exact .refl s
  | succ n ih =>
      unfold Xinu.readyAll
      dsimp only
      split
      · exact hushed_getfirst s q
      · exact ((hushed_getfirst s q).trans (hushed_ready _ _)).trans (ih _)

theorem hushed_wakeup (s : Xinu) : Hushed v s s.wakeup := by
  have hloop : ∀ n (s : Xinu), Hushed v s (Xinu.wakeupLoop n s) := by
    intro n
    induction n with
    | zero => exact fun s => .refl s
    | succ n ih =>
        intro s
        unfold Xinu.wakeupLoop
        split
        · exact (hushed_readyDequeue s sleepq).trans (ih _)
        · exact .refl s
  exact ((hushed_deferStart s).trans (hloop _ _)).trans (hushed_deferStop _)

theorem hushed_clkPreempt (s : Xinu) : Hushed v s s.clkPreempt := by
  unfold Xinu.clkPreempt
  dsimp only
  split
  · exact ((hushed_setPreempt s _).trans (hushed_setPreempt _ _)).trans (hushed_resched _)
  · exact hushed_setPreempt s _

/-!
## Processes and time
-/

theorem resume_hushed (s : Xinu) (pid : Int) : Hushed v s (s.resume pid) := by
  unfold Xinu.resume
  split
  · exact hushed_ret s _
  · split
    · exact hushed_ret s _
    · exact (hushed_push _ rfl).trans (hushed_ready _ _)

theorem suspend_hushed (s : Xinu) (pid : Int) : Hushed v s (s.suspend pid) := by
  unfold Xinu.suspend
  split
  · exact hushed_ret s _
  · split
    · exact hushed_ret s _
    · dsimp only
      have hrecord := hushed_recordCpuqdata (v := v) s s.currpid
      generalize s.recordCpuqdata s.currpid = s₁ at hrecord ⊢
      split
      · have hitem : Hushed v s (s₁.getitem pid) :=
          hrecord.trans (hushed_of_proctab rfl rfl)
        exact (hitem.trans (hushed_setState _ pid (by decide))).trans (hushed_ret _ _)
      · have hpush : Hushed v s₁ (s₁.push (.suspend pid)) := hushed_push _ rfl
        refine Hushed.trans ?_ (hushed_resched _)
        exact (hrecord.trans hpush).trans (hushed_setState _ pid (by decide))

theorem chprio_hushed (s : Xinu) (pid newprio : Int) :
    Hushed v s (s.chprio pid newprio) := by
  have hprio := hushed_setPrprio (v := v) s pid newprio
  unfold Xinu.chprio
  split
  · exact hushed_ret s _
  · dsimp only
    split
    · have hprio0 : ∀ s₁ : Xinu, Hushed v s₁ (s₁.setProc pid fun e =>
          { e with prprio0 := newprio }) :=
        fun s₁ => hushed_setProc s₁ pid (fun _ => ⟨rfl, rfl, rfl⟩) fun _ => Or.inl rfl
      exact (hprio.trans (hprio0 _)).trans (hushed_ret _ _)
    · exact hprio.trans (hushed_ret _ _)

theorem yield_hushed (s : Xinu) : Hushed v s s.yield :=
  (hushed_push _ rfl).trans (hushed_resched _)

theorem sleepms_hushed (s : Xinu) (delay : Nat) : Hushed v s (s.sleepms delay) := by
  unfold Xinu.sleepms
  split
  · exact yield_hushed s
  · dsimp only
    have hinsertd := hushed_insertd (v := v) s s.currpid sleepq (int32 delay)
    split
    · exact hinsertd.trans (hushed_ret _ _)
    · refine Hushed.trans ?_ (hushed_resched _)
      refine Hushed.trans ?_ (hushed_setState _ _ (by decide))
      refine Hushed.trans ?_ (hushed_recordCpuqdata _ _)
      exact hinsertd.trans (hushed_push _ (f := .ret OK) rfl)

theorem sleep_hushed (s : Xinu) (delay : Nat) : Hushed v s (s.sleep delay) := by
  unfold Xinu.sleep
  split
  · exact hushed_ret s _
  · exact (hushed_push _ (f := .ret OK) rfl).trans (sleepms_hushed (s.push (.ret OK)) _)

theorem clkhandler_hushed (s : Xinu) : Hushed v s s.clkhandler := by
  have hadvance : Hushed v s s.clkAdvance := by
    apply hushed_of_proctab
    all_goals
      unfold Xinu.clkAdvance
      dsimp only
      split
      · rfl
      · rfl
  unfold Xinu.clkhandler
  dsimp only
  apply hadvance.trans
  generalize s.clkAdvance = s₁
  split
  · have hset : Hushed v s₁ (s₁.setQueue (s₁.firstid sleepq) fun e =>
        { e with qkey := int32 (e.qkey - 1) }) := hushed_of_proctab rfl rfl
    apply hset.trans
    split
    · refine Hushed.trans ?_ (hushed_wakeup _)
      exact hushed_push _ rfl
    · exact hushed_clkPreempt _
  · exact hushed_clkPreempt s₁

/-!
## Semaphores
-/

theorem newsem_hushed (n : Nat) (s : Xinu) : Hushed v s (Xinu.newsemLoop n s).2 := by
  induction n generalizing s with
  | zero => exact .refl s
  | succ n ih =>
      unfold Xinu.newsemLoop
      dsimp only
      generalize (if NSEM ≤ s.nextsem + 1 then (0 : Int) else s.nextsem + 1) = next
      split
      · exact hushed_of_proctab rfl rfl
      · have hnext : Hushed v s (s.setNextsem next) := hushed_of_proctab rfl rfl
        exact hnext.trans (ih _)

theorem semcreate_hushed (s : Xinu) (count : Int) : Hushed v s (s.semcreate count) := by
  unfold Xinu.semcreate
  split
  · exact hushed_ret s _
  · dsimp only
    have hnew : Hushed v s s.newsem.2 := newsem_hushed _ s
    split
    · exact hnew.trans (hushed_ret _ _)
    · exact (hnew.trans (hushed_setSem _ _ _)).trans (hushed_ret _ _)

theorem wait_hushed (s : Xinu) (sem : Int) : Hushed v s (s.wait sem) := by
  unfold Xinu.wait
  split
  · exact hushed_ret s _
  · split
    · exact hushed_ret s _
    · dsimp only
      have hsem := hushed_setSem (v := v) s sem fun e =>
        { e with scount := int32 (e.scount - 1) }
      split
      · refine Hushed.trans ?_ (hushed_resched _)
        refine Hushed.trans ?_ (hushed_enqueue _ _ _)
        refine Hushed.trans ?_ (hushed_stop _ _ .wait (fun _ => ⟨rfl, rfl, rfl⟩)
          (fun _ => rfl) (by decide))
        refine Hushed.trans ?_ (hushed_recordCpuqdata _ _)
        exact hsem.trans (hushed_push _ (f := .ret OK) rfl)
      · exact hsem.trans (hushed_ret _ _)

theorem signal_hushed (s : Xinu) (sem : Int) : Hushed v s (s.signal sem) := by
  unfold Xinu.signal
  split
  · exact hushed_ret s _
  · split
    · exact hushed_ret s _
    · dsimp only
      have hsem := hushed_setSem (v := v) s sem fun e =>
        { e with scount := int32 (e.scount + 1) }
      split
      · exact (hsem.trans (hushed_push _ (f := .ret OK) rfl)).trans (hushed_readyDequeue _ _)
      · exact hsem.trans (hushed_ret _ _)

theorem signaln_hushed (s : Xinu) (sem count : Int) :
    Hushed v s (s.signaln sem count) := by
  have hloop : ∀ n (s₁ : Xinu), Hushed v s₁ (Xinu.signalnLoop sem n s₁) := by
    intro n
    induction n with
    | zero => exact fun s₁ => .refl s₁
    | succ n ih =>
        intro s₁
        unfold Xinu.signalnLoop
        dsimp only
        apply Hushed.trans _ (ih _)
        split
        · exact (hushed_setSem s₁ sem _).trans (hushed_readyDequeue _ _)
        · exact hushed_setSem s₁ sem _
  unfold Xinu.signaln
  split
  · exact hushed_ret s _
  · split
    · exact hushed_ret s _
    · have hstart := (hushed_push s (f := .ret OK) (v := v) rfl).trans
        (hushed_deferStart (s.push (.ret OK)))
      exact (hstart.trans (hloop _ _)).trans (hushed_deferStop _)

theorem semreset_hushed (s : Xinu) (sem count : Int) :
    Hushed v s (s.semreset sem count) := by
  unfold Xinu.semreset
  split
  · exact hushed_ret s _
  · have hstart := (hushed_push s (f := .ret OK) (v := v) rfl).trans
      (hushed_deferStart (s.push (.ret OK)))
    have hall := hstart.trans (hushed_readyAll ((s.push (.ret OK)).semtab sem).squeue
      Xinu.queueFuel _)
    exact (hall.trans (hushed_setSem _ _ _)).trans (hushed_deferStop _)

theorem semdelete_hushed (s : Xinu) (sem : Int) : Hushed v s (s.semdelete sem) := by
  have hloop : ∀ n (s₁ : Xinu), Hushed v s₁ (Xinu.semdeleteLoop sem n s₁) := by
    intro n
    induction n with
    | zero => exact fun s₁ => .refl s₁
    | succ n ih =>
        intro s₁
        unfold Xinu.semdeleteLoop
        dsimp only
        apply Hushed.trans _ (ih _)
        exact ((hushed_setSem s₁ sem _).trans (hushed_getfirst _ _)).trans (hushed_ready _ _)
  unfold Xinu.semdelete
  split
  · exact hushed_ret s _
  · split
    · exact hushed_ret s _
    · have hpush := (hushed_push s (f := .ret OK) (v := v) rfl).trans
        (hushed_setSem (s.push (.ret OK)) sem fun e => { e with sstate := .free })
      refine Hushed.trans ?_ (hushed_deferStop _)
      refine Hushed.trans ?_ (hushed_setSem _ _ _)
      exact (hpush.trans (hushed_deferStart _)).trans (hloop _ _)

/-!
## Blockers
-/

theorem newrwb_hushed (n : Nat) (s : Xinu) : Hushed v s (Xinu.newrwbLoop n s).2 := by
  induction n generalizing s with
  | zero => exact .refl s
  | succ n ih =>
      unfold Xinu.newrwbLoop
      dsimp only
      generalize (if RWB_COUNT ≤ s.nextrwb + 1 then (0 : Int) else s.nextrwb + 1) = next
      split
      · exact hushed_of_proctab rfl rfl
      · have hnext : Hushed v s (s.setNextrwb next) := hushed_of_proctab rfl rfl
        exact hnext.trans (ih _)

theorem rwbcreate_hushed (s : Xinu) (count : Int) : Hushed v s (s.rwbcreate count) := by
  unfold Xinu.rwbcreate
  split
  · exact hushed_ret s _
  · dsimp only
    have hnew : Hushed v s s.newrwb.2 := newrwb_hushed _ s
    split
    · exact hnew.trans (hushed_ret _ _)
    · exact (hnew.trans (hushed_setRwb _ _ _)).trans (hushed_ret _ _)

theorem rwbdelete_hushed (s : Xinu) (rwb : Int) : Hushed v s (s.rwbdelete rwb) := by
  have hloop : ∀ n (s₁ : Xinu), Hushed v s₁ (Xinu.rwbdeleteLoop rwb n s₁) := by
    intro n
    induction n with
    | zero => exact fun s₁ => .refl s₁
    | succ n ih =>
        intro s₁
        unfold Xinu.rwbdeleteLoop
        dsimp only
        apply Hushed.trans _ (ih _)
        split
        · exact (hushed_setRwb s₁ rwb _).trans (hushed_getfirst _ _)
        · refine Hushed.trans ?_ (hushed_ready _ _)
          refine Hushed.trans ?_ (hushed_setFlag _ _ _)
          exact (hushed_setRwb s₁ rwb _).trans (hushed_getfirst _ _)
  unfold Xinu.rwbdelete
  split
  · exact hushed_ret s _
  · split
    · exact hushed_ret s _
    · have hpush := (hushed_push s (f := .ret OK) (v := v) rfl).trans
        (hushed_setRwb (s.push (.ret OK)) rwb fun e => { e with rwstate := .free })
      refine Hushed.trans ?_ (hushed_deferStop _)
      refine Hushed.trans ?_ (hushed_setRwb _ _ _)
      refine Hushed.trans ?_ (hushed_setRwb _ _ _)
      exact (hpush.trans (hushed_deferStart _)).trans (hloop _ _)

theorem rwbreset_hushed (s : Xinu) (rwb count : Int) :
    Hushed v s (s.rwbreset rwb count) := by
  have hloop : ∀ q n (s₁ : Xinu), Hushed v s₁ (Xinu.rwbresetLoop rwb q n s₁).2 := by
    intro q n
    induction n with
    | zero => exact fun s₁ => .refl s₁
    | succ n ih =>
        intro s₁
        unfold Xinu.rwbresetLoop
        dsimp only
        split
        · exact hushed_getfirst s₁ q
        · exact ((hushed_getfirst s₁ q).trans (hushed_setRwb _ _ _)).trans (ih _)
  unfold Xinu.rwbreset
  split
  · exact hushed_ret s _
  · have hstart := (hushed_push s (f := .ret OK) (v := v) rfl).trans
      (hushed_deferStart (s.push (.ret OK)))
    have hall := hstart.trans (hloop ((s.push (.ret OK)).rwbtab rwb).rwqueue Xinu.queueFuel _)
    dsimp only
    refine Hushed.trans ?_ (hushed_deferStop _)
    refine Hushed.trans ?_ (hushed_setRwb _ _ _)
    split
    · exact hall
    · exact (hall.trans (hushed_setFlag _ _ _)).trans (hushed_ready _ _)

theorem rwbBlock_hushed (s : Xinu) (rwb : Int) : Hushed v s (s.rwbBlock rwb) := by
  unfold Xinu.rwbBlock
  refine Hushed.trans ?_ (hushed_resched _)
  refine Hushed.trans ?_ (hushed_enqueue _ _ _)
  refine Hushed.trans ?_ (hushed_setRwb _ _ _)
  refine Hushed.trans ?_ (hushed_stop _ _ .wait (fun _ => ⟨rfl, rfl, rfl⟩) (fun _ => rfl)
    (by decide))
  exact (hushed_push _ (f := .ret OK) rfl).trans (hushed_recordCpuqdata _ _)

theorem rwbTrywrite_hushed (s : Xinu) (rwb : Int) : Hushed v s (s.rwbTrywrite rwb) := by
  have hflag := hushed_setFlag (v := v) s s.currpid (-1)
  unfold Xinu.rwbTrywrite
  split
  · exact hushed_ret s _
  · split
    · exact hushed_ret s _
    · dsimp only
      split
      · exact hflag.trans (rwbBlock_hushed _ rwb)
      · exact (hflag.trans (hushed_setRwb _ _ _)).trans (hushed_ret _ _)

theorem rwbTryread_hushed (s : Xinu) (rwb : Int) : Hushed v s (s.rwbTryread rwb) := by
  have hflag := hushed_setFlag (v := v) s s.currpid 1
  unfold Xinu.rwbTryread
  split
  · exact hushed_ret s _
  · split
    · exact hushed_ret s _
    · dsimp only
      split
      · exact hflag.trans (rwbBlock_hushed _ rwb)
      · exact (hflag.trans (hushed_setRwb _ _ _)).trans (hushed_ret _ _)

theorem signalrwbEnd_hushed (s : Xinu) (thisid : Int) : Hushed v s (s.signalrwbEnd thisid) := by
  refine Hushed.trans ?_ (hushed_ret _ _)
  exact hushed_setProc s thisid (fun _ => ⟨rfl, rfl, rfl⟩) fun _ => Or.inl rfl

theorem signalrwbRelease_hushed (s : Xinu) (rwb : Int) {after : Frame}
    (hafter : after.fetches = false) : Hushed v s (s.signalrwbRelease rwb after) := by
  unfold Xinu.signalrwbRelease
  dsimp only
  have hrwb := hushed_setRwb (v := v) s rwb fun e => { e with qcount := e.qcount - 1 }
  refine Hushed.trans ?_ (hushed_ready _ _)
  refine Hushed.trans ?_ (hushed_push _ hafter)
  exact hrwb.trans (hushed_dequeue _ _)

theorem signalrwbReaders_hushed (s : Xinu) (thisid rwb next : Int) :
    Hushed v s (s.signalrwbReaders thisid rwb next) := by
  unfold Xinu.signalrwbReaders
  split
  · exact signalrwbRelease_hushed _ rwb rfl
  · exact signalrwbEnd_hushed s thisid

theorem signalrwbNext_hushed (s : Xinu) (thisid rwb : Int) :
    Hushed v s (s.signalrwbNext thisid rwb) := by
  unfold Xinu.signalrwbNext
  split
  · exact signalrwbEnd_hushed s thisid
  · dsimp only
    split
    · exact signalrwbEnd_hushed s thisid
    · split
      · split
        · exact signalrwbRelease_hushed _ rwb rfl
        · exact signalrwbEnd_hushed s thisid
      · exact signalrwbReaders_hushed _ thisid rwb _

theorem _signalrwb_hushed (s : Xinu) (thisid rwb : Int) :
    Hushed v s (s._signalrwb thisid rwb) := by
  unfold Xinu._signalrwb
  split
  · exact hushed_ret s _
  · split
    · exact hushed_ret s _
    · dsimp only
      have hflag := hushed_setFlag (v := v) s thisid 0
      split
      · exact hflag.trans (hushed_ret _ _)
      · refine Hushed.trans ?_ (signalrwbNext_hushed _ thisid rwb)
        exact hflag.trans (hushed_setRwb _ rwb _)

/-!
## Switching the scheduler
-/

theorem setScheduler_hushed (s : Xinu) (newval : Nat) :
    Hushed v s (s.setScheduler newval) := by
  have hround : ∀ s₁ : Xinu, Hushed v s₁ s₁.setSchedulerRound := by
    intro s₁
    unfold Xinu.setSchedulerRound
    dsimp only
    have hdequeue := (hushed_dequeue (v := v) s₁ readylist).trans
      (hushed_setReadycount _ (uint16 ((s₁.dequeue readylist).2.readycount - 1)))
    split
    · exact hdequeue
    · refine Hushed.trans ?_ (hushed_setReadycount _ _)
      refine Hushed.trans ?_ (hushed_insert _ _ _ _)
      refine Hushed.trans ?_ (hushed_setPrprio _ _ _)
      exact hdequeue.trans (hushed_setprio _ _)
  have hloop : ∀ n (s₁ : Xinu), Hushed v s₁ (Xinu.setSchedulerLoop n s₁) := by
    intro n
    induction n with
    | zero => exact fun s₁ => .refl s₁
    | succ n ih => exact fun s₁ => (hround s₁).trans (ih _)
  have hrecord : ∀ pids (s₁ : Xinu), Hushed v s₁ (Xinu.recordAll pids s₁) := by
    intro pids
    induction pids with
    | nil => exact fun s₁ => .refl s₁
    | cons i rest ih =>
        intro s₁
        unfold Xinu.recordAll
        apply Hushed.trans _ (ih _)
        split
        · exact hushed_recordCpuqdata s₁ i
        · exact .refl s₁
  have hdrain : ∀ q n (s₁ : Xinu), Hushed v s₁ (Xinu.drainQueue q n s₁) := by
    intro q n
    induction n with
    | zero => exact fun s₁ => .refl s₁
    | succ n ih =>
        intro s₁
        unfold Xinu.drainQueue
        split
        · exact .refl s₁
        · exact (hushed_dequeue s₁ q).trans (ih _)
  have henv : Hushed v s (s.setEnv EV_SCHEDULER newval) := hushed_of_proctab rfl rfl
  unfold Xinu.setScheduler
  split
  · exact hushed_ret s _
  · dsimp only
    split
    · refine Hushed.trans ?_ (hushed_ret _ _)
      have hcopy : ∀ s₁ : Xinu, Hushed v s₁ (s₁.copyqueue scratchlist readylist) :=
        fun s₁ => (hdrain readylist Xinu.queueFuel s₁).trans (hushed_of_proctab rfl rfl)
      have hrequeued := (henv.trans (hloop (s.setEnv EV_SCHEDULER newval).readycount _)).trans
        (hcopy _)
      split
      · exact hrequeued.trans (hrecord _ _)
      · exact hrequeued
    · exact henv.trans (hushed_ret _ _)

/-!
## Killing
-/

theorem hushed_countFinished (s : Xinu) (pid : Int) : Hushed v s (s.countFinished pid) :=
  hushed_of_proctab rfl rfl

/-- The entry of a victim becomes free. -/
theorem hushed_free (s : Xinu) (hv : v pid) :
    Hushed v s (s.setProc pid fun e => { e with prstate := .free }) :=
  hushed_setProc s pid (fun _ => ⟨rfl, rfl, rfl⟩) fun _ => Or.inr ⟨(fun h => by cases h), fun _ => hv⟩

theorem killSignaled_hushed (s : Xinu) (hv : v pid) : Hushed v s (s.killSignaled pid) :=
  (hushed_free s hv).trans (hushed_ret _ _)

theorem killUnlink_hushed (s : Xinu) (hv : v pid) : Hushed v s (s.killUnlink pid) := by
  have hitem : Hushed v s (s.getitem pid) := hushed_of_proctab rfl rfl
  unfold Xinu.killUnlink
  dsimp only
  split
  · refine Hushed.trans (hitem.trans (hushed_push _ (f := .killSignaled pid) rfl)) ?_
    exact _signalrwb_hushed _ pid _
  · exact hitem.trans (killSignaled_hushed _ hv)

theorem killState_hushed (s : Xinu) (hv : v pid) : Hushed v s (s.killState pid) := by
  unfold Xinu.killState
  split
  · exact (hushed_free s hv).trans (hushed_resched _)
  · exact (hushed_unsleep s pid).trans (killSignaled_hushed _ hv)
  · exact (hushed_unsleep s pid).trans (killSignaled_hushed _ hv)
  · dsimp only
    split
    · refine Hushed.trans ?_ (killUnlink_hushed _ hv)
      exact (hushed_setFlag s pid 0).trans (hushed_setRwb _ _ _)
    · exact (hushed_setSem s _ _).trans (killUnlink_hushed _ hv)
  · exact killUnlink_hushed _ hv
  · exact killSignaled_hushed s hv
  · exact killSignaled_hushed s hv
  · exact killSignaled_hushed s hv

theorem killSent_hushed (s : Xinu) (hv : v pid) : Hushed v s (s.killSent pid) := by
  have hmem : Hushed v s (s.setMem (s.mem.freestk (s.proctab pid).prstkbase
      (s.proctab pid).prstklen)) := hushed_of_proctab rfl rfl
  unfold Xinu.killSent
  dsimp only
  refine Hushed.trans ?_ (killState_hushed _ hv)
  exact (hmem.trans (hushed_recordCpuqdata _ _)).trans (hushed_countFinished _ _)

/-!
## Calls and frames
-/

/-- Calls that move no message and make no process. -/
def Call.hushed : Call → Bool
  | .create _ _ | .kill _ | .send _ _ | .receive | .recvtime _ | .recvclr => false
  | _ => true

theorem call_hushed {a : Call} (h : a.hushed = true) : Hushed v s (s.call a) := by
  cases a with
  | resume pid => exact resume_hushed s pid
  | suspend pid => exact suspend_hushed s pid
  | chprio pid newprio => exact chprio_hushed s pid newprio
  | yield => exact yield_hushed s
  | semcreate count => exact semcreate_hushed s count
  | wait sem => exact wait_hushed s sem
  | signal sem => exact signal_hushed s sem
  | signaln sem count => exact signaln_hushed s sem count
  | semreset sem count => exact semreset_hushed s sem count
  | semdelete sem => exact semdelete_hushed s sem
  | sleepms delay => exact sleepms_hushed s delay
  | sleep delay => exact sleep_hushed s delay
  | rwbcreate count => exact rwbcreate_hushed s count
  | rwbdelete rwb => exact rwbdelete_hushed s rwb
  | rwbreset rwb count => exact rwbreset_hushed s rwb count
  | rwbTryread rwb => exact rwbTryread_hushed s rwb
  | rwbTrywrite rwb => exact rwbTrywrite_hushed s rwb
  | signalrwb rwb => exact _signalrwb_hushed _ s.currpid rwb
  | setScheduler newval => exact setScheduler_hushed s newval
  | clkhandler => exact clkhandler_hushed s
  | create ssize priority => cases h
  | kill pid => cases h
  | send pid msg => cases h
  | receive => cases h
  | recvtime maxwait => cases h
  | recvclr => cases h

/-- The process that a frame of {lit}`kill` frees. -/
def Frame.frees : Frame → Option Int
  | .killSent pid | .killSignaled pid => some pid
  | _ => none

theorem frame_hushed {f : Frame} (hf : f.fetches = false) :
    Hushed (fun p => f.frees = some p) s (s.frame f) := by
  cases f with
  | ret value => exact hushed_ret s value
  | suspend pid => exact hushed_ret s _
  | killSent pid => exact killSent_hushed _ rfl
  | killSignaled pid => exact killSignaled_hushed s rfl
  | rwbWriter thisid rwb =>
      exact (hushed_setRwb s rwb _).trans (signalrwbEnd_hushed _ thisid)
  | rwbReader thisid rwb =>
      exact (hushed_setRwb s rwb _).trans (signalrwbReaders_hushed _ thisid rwb _)
  | clkPreempt => exact hushed_clkPreempt s
  | receive => cases hf
  | recvtime => cases hf

/-!
## Messages
-/

theorem deliver_proctab_of_ne {p : Int} (s : Xinu) (hp : p ≠ pid) (msg : Nat) :
    (s.deliver pid msg).proctab p = s.proctab p := upd_of_ne hp

theorem deliver_proctab (s : Xinu) (pid : Int) (msg : Nat) : (s.deliver pid msg).proctab pid =
    { s.proctab pid with prmsg := msg, prhasmsg := true } := upd_self

/-- Nothing but the delivery counts in a {lit}`send` that is accepted. -/
theorem send_hushed (h : s.accepts pid) (msg : Nat) :
    Hushed v (s.deliver pid msg) (s.send pid msg) := by
  have hmsg : ¬ (s.proctab pid).prhasmsg = true := by
    rw [h.2]
    exact Bool.false_ne_true
  unfold Xinu.send
  rw [if_neg h.1, if_neg hmsg]
  show Hushed v (s.deliver pid msg) (if ((s.deliver pid msg).proctab pid).prstate = _ then
    ((s.deliver pid msg).push (.ret OK)).ready pid
    else if ((s.deliver pid msg).proctab pid).prstate = _ then
      (((s.deliver pid msg).push (.ret OK)).unsleep pid).ready pid
    else (s.deliver pid msg).ret OK)
  generalize s.deliver pid msg = s₁
  split
  · exact (hushed_push s₁ rfl).trans (hushed_ready _ _)
  · split
    · exact ((hushed_push s₁ rfl).trans (hushed_unsleep _ _)).trans (hushed_ready _ _)
    · exact hushed_ret s₁ _

theorem Hushed.setState (h : Hushed v s s') (pid : Int) (st : PrState) :
    Hushed v (s.setProc pid fun e => { e with prstate := st })
      (s'.setProc pid fun e => { e with prstate := st }) := by
  refine ⟨?_, ?_, h.frames⟩
  · intro p
    by_cases hp : p = pid
    · rw [hp, setProc_self, setProc_self]
      exact ⟨(h.mail pid).prparent, (h.mail pid).prmsg, (h.mail pid).prhasmsg⟩
    · rw [setProc_of_ne _ _ hp, setProc_of_ne _ _ hp]
      exact h.mail p
  · intro p
    by_cases hp : p = pid
    · rw [hp, setProc_self, setProc_self]
      exact Or.inl rfl
    · rw [setProc_of_ne _ _ hp, setProc_of_ne _ _ hp]
      exact h.state p

theorem receive_hushed (h : (s.proctab s.currpid).prhasmsg = false) :
    Hushed v ((s.push .receive).setProc s.currpid fun e => { e with prstate := .recv })
      s.receive := by
  have hrecord := hushed_recordCpuqdata (v := v) (s.push .receive) s.currpid
  have hcp : ((s.push .receive).recordCpuqdata (s.push .receive).currpid).currpid = s.currpid :=
    (quiet_recordCpuqdata (s.push .receive) s.currpid).currpid
  unfold Xinu.receive
  rw [if_pos h]
  refine Hushed.trans ?_ (hushed_resched _)
  rw [hcp]
  exact hrecord.setState s.currpid .recv

theorem push_stack_of_ne {p : Int} (s : Xinu) (hp : p ≠ s.currpid) (f : Frame) :
    (s.push f).stack p = s.stack p := upd_of_ne hp

theorem push_stack (s : Xinu) (f : Frame) :
    (s.push f).stack s.currpid = f :: s.stack s.currpid := upd_self

/-- The same frame is left on both sides. -/
theorem Hushed.push (h : Hushed v s s') (hcp : s'.currpid = s.currpid) (f : Frame) :
    Hushed v (s.push f) (s'.push f) where
  mail := h.mail
  state := h.state
  frames := by
    intro p f' hmem hfetch
    by_cases hp : p = s.currpid
    · rw [hp, ← hcp, push_stack] at hmem
      rw [hp, push_stack]
      rcases List.mem_cons.mp hmem with heq | htail
      · rw [heq]
        exact List.mem_cons_self
      · rw [hcp] at htail
        exact List.mem_cons_of_mem f (h.frames _ f' htail hfetch)
    · rw [push_stack_of_ne _ (by rw [hcp]; exact hp)] at hmem
      rw [push_stack_of_ne _ hp]
      exact h.frames p f' hmem hfetch

/-- A wait with a timeout leaves its frame, unless it fails at once. -/
theorem recvtime_hushed (h : (s.proctab s.currpid).prhasmsg = false) (maxwait : Int) :
    Hushed v s (s.recvtime maxwait) ∨ Hushed v (s.push .recvtime) (s.recvtime maxwait) := by
  unfold Xinu.recvtime
  split
  · exact Or.inl (hushed_ret s _)
  · dsimp only
    have hinsertd := hushed_insertd (v := v) s s.currpid sleepq maxwait
    split
    · exact Or.inl (hinsertd.trans (hushed_ret _ _))
    · right
      refine Hushed.trans ?_ (hushed_resched _)
      refine Hushed.trans ?_ (hushed_setState _ _ (by decide))
      refine Hushed.trans ?_ (hushed_recordCpuqdata _ _)
      exact hinsertd.push (insertd_currpid s _ _ _) .recvtime

end

end BbbXinu
