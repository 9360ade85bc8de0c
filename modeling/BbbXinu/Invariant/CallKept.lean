import BbbXinu.Invariant.Kept
import BbbXinu.Invariant.Kill

/-!
# What each call leaves alone

Calls that schedule leave the messages, the memory and the number of processes
as they are.  They add nothing to the stack of the running process but frames
that return a value or finish a tick, and they touch no other stack.
-/

namespace BbbXinu

/-- The entries agree in what belongs to the process alone. -/
structure SameSelf (e e' : Procent) : Prop where
  prstkbase : e'.prstkbase = e.prstkbase
  prstklen : e'.prstklen = e.prstklen
  prparent : e'.prparent = e.prparent
  prmsg : e'.prmsg = e.prmsg
  prhasmsg : e'.prhasmsg = e.prhasmsg

/-- A frame that may run whatever happened since it was left. -/
def Frame.idle : Frame → Bool
  | .ret _ | .recvtime | .suspend _ | .clkPreempt => true
  | _ => false

/-- A call of the process {lit}`c` that schedules and does nothing else. -/
structure Aside (c : Int) (s s' : Xinu) : Prop where
  self : ∀ p, SameSelf (s.proctab p) (s'.proctab p)
  stack : ∀ p, p ≠ c → s'.stack p = s.stack p
  retval : ∀ p, p ≠ c → s'.retval p = s.retval p
  frames : ∃ fs, s'.stack c = fs ++ s.stack c ∧ ∀ f ∈ fs, f.idle = true
  mem : s'.mem = s.mem
  prcount : s'.prcount = s.prcount
  halted : s'.halted = s.halted
  envtab : s'.envtab = s.envtab

section

variable {c p pid : Int} {s s' s'' : Xinu} {f : Frame}

theorem SameSelf.refl (e : Procent) : SameSelf e e := ⟨rfl, rfl, rfl, rfl, rfl⟩

theorem SameSelf.trans {e e' e'' : Procent} (h : SameSelf e e') (h' : SameSelf e' e'') :
    SameSelf e e'' where
  prstkbase := h'.prstkbase.trans h.prstkbase
  prstklen := h'.prstklen.trans h.prstklen
  prparent := h'.prparent.trans h.prparent
  prmsg := h'.prmsg.trans h.prmsg
  prhasmsg := h'.prhasmsg.trans h.prhasmsg

theorem SameWork.self {e e' : Procent} (h : SameWork e e') : SameSelf e e' :=
  ⟨h.prstkbase, h.prstklen, h.prparent, h.prmsg, h.prhasmsg⟩

theorem same_frames {fs : List Frame} : ∃ fs', fs = fs' ++ fs ∧ ∀ f ∈ fs', f.idle = true :=
  ⟨[], rfl, fun f hf => by cases hf⟩

theorem Aside.refl (c : Int) (s : Xinu) : Aside c s s :=
  ⟨fun _ => .refl _, fun _ _ => rfl, fun _ _ => rfl, same_frames, rfl, rfl, rfl, rfl⟩

theorem Aside.trans (h : Aside c s s') (h' : Aside c s' s'') : Aside c s s'' where
  self := fun p => (h.self p).trans (h'.self p)
  stack := fun p hp => (h'.stack p hp).trans (h.stack p hp)
  retval := fun p hp => (h'.retval p hp).trans (h.retval p hp)
  frames := by
    rcases h.frames with ⟨fs, hfs, hidle⟩
    rcases h'.frames with ⟨fs', hfs', hidle'⟩
    refine ⟨fs' ++ fs, ?_, ?_⟩
    · rw [hfs', hfs, List.append_assoc]
    · intro f hf
      rcases List.mem_append.mp hf with hf | hf
      · exact hidle' f hf
      · exact hidle f hf
  mem := h'.mem.trans h.mem
  prcount := h'.prcount.trans h.prcount
  halted := h'.halted.trans h.halted
  envtab := h'.envtab.trans h.envtab

theorem Kept.aside (h : Kept s s') : Aside c s s' where
  self := fun p => (h.work p).self
  stack := fun p _ => congrFun h.stack p
  retval := fun p _ => congrFun h.retval p
  frames := by
    rw [h.stack]
    exact same_frames
  mem := h.mem
  prcount := h.prcount
  halted := h.halted
  envtab := h.envtab

theorem aside_push (hc : s.currpid = c) (hf : f.idle = true) : Aside c s (s.push f) where
  self := fun _ => .refl _
  stack := fun _ hp => upd_of_ne (hc ▸ hp)
  retval := fun _ _ => rfl
  frames := by
    rw [← hc]
    refine ⟨[f], upd_self, ?_⟩
    intro f' hf'
    rw [List.mem_singleton.mp hf']
    exact hf
  mem := rfl
  prcount := rfl
  halted := rfl
  envtab := rfl

theorem aside_ret (hc : s.currpid = c) (v : Int) : Aside c s (s.ret v) :=
  ⟨fun _ => .refl _, fun _ _ => rfl, fun _ hp => upd_of_ne (hc ▸ hp), same_frames, rfl, rfl,
    rfl, rfl⟩

theorem aside_setProc (s : Xinu) (pid : Int) {f : Procent → Procent}
    (hf : ∀ e, SameSelf e (f e)) : Aside c s (s.setProc pid f) := by
  refine ⟨?_, fun _ _ => rfl, fun _ _ => rfl, same_frames, rfl, rfl, rfl, rfl⟩
  intro p
  show SameSelf _ (upd s.proctab pid (f (s.proctab pid)) p)
  rw [upd_apply]
  split
  · rename_i hp
    rw [hp]
    exact hf _
  · exact .refl _

theorem aside_of_proctab (hproctab : s'.proctab = s.proctab) (hstack : s'.stack = s.stack)
    (hretval : s'.retval = s.retval) (hmem : s'.mem = s.mem) (hprcount : s'.prcount = s.prcount)
    (hhalted : s'.halted = s.halted) (henvtab : s'.envtab = s.envtab) : Aside c s s' where
  self := by
    rw [hproctab]
    exact fun _ => .refl _
  stack := fun p _ => congrFun hstack p
  retval := fun p _ => congrFun hretval p
  frames := by
    rw [hstack]
    exact same_frames
  mem := hmem
  prcount := hprcount
  halted := hhalted
  envtab := henvtab

/-!
## One lemma for each call
-/

theorem yield_aside (s : Xinu) : Aside s.currpid s s.yield :=
  (aside_push (by rfl) rfl).trans (kept_resched _).aside

theorem resume_aside (s : Xinu) (pid : Int) : Aside s.currpid s (s.resume pid) := by
  unfold Xinu.resume
  split
  · exact aside_ret (by rfl) _
  · split
    · exact aside_ret (by rfl) _
    · exact (aside_push (by rfl) rfl).trans (kept_ready _ _).aside

theorem suspend_aside (s : Xinu) (pid : Int) : Aside s.currpid s (s.suspend pid) := by
  have hcp : (s.recordCpuqdata s.currpid).currpid = s.currpid :=
    (quiet_recordCpuqdata s _).currpid
  unfold Xinu.suspend
  split
  · exact aside_ret (by rfl) _
  · split
    · exact aside_ret (by rfl) _
    · dsimp only
      apply (kept_recordCpuqdata s s.currpid).aside.trans
      generalize s.recordCpuqdata s.currpid = s₁ at hcp ⊢
      rw [← hcp]
      split
      · apply (kept_getitem s₁ pid).aside.trans
        apply (kept_setState _ pid _).aside.trans
        unfold Xinu.suspendEnd
        exact aside_ret (by rfl) _
      · apply (aside_push (f := .suspend pid) (by rfl) rfl).trans
        apply (kept_setState _ pid _).aside.trans
        exact (kept_resched _).aside

theorem chprio_aside (s : Xinu) (pid newprio : Int) :
    Aside s.currpid s (s.chprio pid newprio) := by
  unfold Xinu.chprio
  split
  · exact aside_ret (by rfl) _
  · dsimp only
    have hprio : Aside s.currpid s (s.setProc pid fun e => { e with prprio := newprio }) :=
      (kept_setPrprio s pid newprio).aside
    apply hprio.trans
    split
    · have hprio0 : Aside s.currpid (s.setProc pid fun e => { e with prprio := newprio })
          ((s.setProc pid fun e => { e with prprio := newprio }).setProc pid fun e =>
            { e with prprio0 := newprio }) :=
        aside_setProc _ pid fun _ => ⟨rfl, rfl, rfl, rfl, rfl⟩
      exact hprio0.trans (aside_ret (by rfl) _)
    · exact aside_ret (by rfl) _

theorem newsemLoop_aside (n : Nat) (s : Xinu) : Aside c s (Xinu.newsemLoop n s).2 := by
  induction n generalizing s with
  | zero => exact .refl c s
  | succ n ih =>
      unfold Xinu.newsemLoop
      dsimp only
      generalize (if NSEM ≤ s.nextsem + 1 then 0 else s.nextsem + 1) = next
      have hnext : Aside c s (s.setNextsem next) :=
        aside_of_proctab rfl rfl rfl rfl rfl rfl rfl
      split
      · dsimp only
        exact hnext.trans (kept_setSem _ _ _).aside
      · exact hnext.trans (ih _)

theorem newsemLoop_currpid (n : Nat) (s : Xinu) :
    (Xinu.newsemLoop n s).2.currpid = s.currpid := by
  induction n generalizing s with
  | zero => rfl
  | succ n ih =>
      unfold Xinu.newsemLoop
      dsimp only
      generalize (if NSEM ≤ s.nextsem + 1 then 0 else s.nextsem + 1) = next
      split
      · rfl
      · exact ih _

theorem semcreate_aside (s : Xinu) (count : Int) :
    Aside s.currpid s (s.semcreate count) := by
  have hcp : s.newsem.2.currpid = s.currpid := newsemLoop_currpid _ s
  have hnew : Aside s.currpid s s.newsem.2 := newsemLoop_aside _ s
  unfold Xinu.semcreate
  split
  · exact aside_ret (by rfl) _
  · dsimp only
    apply hnew.trans
    rw [← hcp]
    split
    · exact aside_ret (by rfl) _
    · exact (kept_setSem _ _ _).aside.trans (aside_ret (by rfl) _)

theorem wait_aside (s : Xinu) (sem : Int) : Aside s.currpid s (s.wait sem) := by
  unfold Xinu.wait
  split
  · exact aside_ret (by rfl) _
  · split
    · exact aside_ret (by rfl) _
    · dsimp only
      have hset : Aside s.currpid s
          (s.setSem sem fun e => { e with scount := int32 (e.scount - 1) }) :=
        (kept_setSem s sem _).aside
      apply hset.trans
      split
      · apply (aside_push (f := .ret OK) (by rfl) rfl).trans
        generalize Xinu.push _ (.ret OK) = s₂
        apply (kept_recordCpuqdata s₂ s₂.currpid).aside.trans
        generalize s₂.recordCpuqdata s₂.currpid = s₃
        have hwait : Aside s.currpid s₃
            (s₃.setProc s₃.currpid fun e => { e with prstate := .wait, prsem := sem }) :=
          aside_setProc s₃ _ fun _ => ⟨rfl, rfl, rfl, rfl, rfl⟩
        apply hwait.trans
        exact ((kept_enqueue _ _ _).trans (kept_resched _)).aside
      · exact aside_ret (by rfl) _

theorem signal_aside (s : Xinu) (sem : Int) : Aside s.currpid s (s.signal sem) := by
  unfold Xinu.signal
  split
  · exact aside_ret (by rfl) _
  · split
    · exact aside_ret (by rfl) _
    · dsimp only
      have hset : Aside s.currpid s
          (s.setSem sem fun e => { e with scount := int32 (e.scount + 1) }) :=
        (kept_setSem s sem _).aside
      apply hset.trans
      split
      · exact (aside_push (f := .ret OK) (by rfl) rfl).trans (kept_readyDequeue _ _).aside
      · exact aside_ret (by rfl) _

theorem signaln_aside (s : Xinu) (sem count : Int) :
    Aside s.currpid s (s.signaln sem count) := by
  unfold Xinu.signaln
  split
  · exact aside_ret (by rfl) _
  · split
    · exact aside_ret (by rfl) _
    · apply (aside_push (f := .ret OK) (by rfl) rfl).trans
      apply (kept_deferStart _).aside.trans
      exact ((kept_signalnLoop _ _ _).trans (kept_deferStop _)).aside

theorem semreset_aside (s : Xinu) (sem count : Int) :
    Aside s.currpid s (s.semreset sem count) := by
  unfold Xinu.semreset
  split
  · exact aside_ret (by rfl) _
  · apply (aside_push (f := .ret OK) (by rfl) rfl).trans
    apply (kept_deferStart _).aside.trans
    apply (kept_readyAll _ _ _).aside.trans
    exact ((kept_setSem _ _ _).trans (kept_deferStop _)).aside

theorem semdelete_aside (s : Xinu) (sem : Int) : Aside s.currpid s (s.semdelete sem) := by
  unfold Xinu.semdelete
  split
  · exact aside_ret (by rfl) _
  · split
    · exact aside_ret (by rfl) _
    · apply (aside_push (f := .ret OK) (by rfl) rfl).trans
      apply (kept_setSem _ _ _).aside.trans
      apply (kept_deferStart _).aside.trans
      apply (kept_semdeleteLoop _ _ _).aside.trans
      exact ((kept_setSem _ _ _).trans (kept_deferStop _)).aside

theorem insertd_currpid (s : Xinu) (pid q key : Int) :
    (s.insertd pid q key).2.currpid = s.currpid := by
  unfold Xinu.insertd
  split
  · rfl
  · dsimp only
    split
    · rfl
    · rfl

theorem unsleep_currpid (s : Xinu) (pid : Int) : (s.unsleep pid).currpid = s.currpid := by
  unfold Xinu.unsleep
  split
  · rfl
  · split
    · rfl
    · dsimp only
      split
      · rfl
      · rfl

theorem sleepms_aside (s : Xinu) (delay : Nat) : Aside s.currpid s (s.sleepms delay) := by
  unfold Xinu.sleepms
  split
  · exact yield_aside s
  · dsimp only
    have hcp : (s.insertd s.currpid sleepq (int32 delay)).2.currpid = s.currpid :=
      insertd_currpid _ _ _ _
    apply (kept_insertd s s.currpid sleepq (int32 delay)).aside.trans
    generalize (s.insertd s.currpid sleepq (int32 delay)).2 = s₁ at hcp ⊢
    rw [← hcp]
    split
    · exact aside_ret (by rfl) _
    · apply (aside_push (f := .ret OK) (by rfl) rfl).trans
      apply (kept_recordCpuqdata _ _).aside.trans
      exact ((kept_setState _ _ _).trans (kept_resched _)).aside

theorem sleep_aside (s : Xinu) (delay : Nat) : Aside s.currpid s (s.sleep delay) := by
  unfold Xinu.sleep
  split
  · exact aside_ret (by rfl) _
  · have h := sleepms_aside (s.push (.ret OK)) (uint32 (1000 * delay))
    exact (aside_push (f := .ret OK) (by rfl) rfl).trans h

theorem clkhandler_aside (s : Xinu) : Aside s.currpid s s.clkhandler := by
  have hadvance : Aside s.currpid s s.clkAdvance := by
    apply aside_of_proctab
    all_goals
      unfold Xinu.clkAdvance
      dsimp only
      split
      · rfl
      · rfl
  have hcp : s.clkAdvance.currpid = s.currpid := (quiet_clkAdvance s).currpid
  unfold Xinu.clkhandler
  dsimp only
  apply hadvance.trans
  generalize s.clkAdvance = s₁ at hcp ⊢
  rw [← hcp]
  split
  · have hset : Aside s₁.currpid s₁ (s₁.setQueue (s₁.firstid sleepq) fun e =>
        { e with qkey := int32 (e.qkey - 1) }) := (kept_setQueue s₁ _ _).aside
    apply hset.trans
    split
    · exact (aside_push (f := .clkPreempt) (by rfl) rfl).trans (kept_wakeup _).aside
    · exact (kept_clkPreempt _).aside
  · exact (kept_clkPreempt s₁).aside

/-- Calls that schedule and do nothing else. -/
def Call.schedules : Call → Bool
  | .resume _ | .suspend _ | .chprio _ _ | .yield | .semcreate _ | .wait _ | .signal _
  | .signaln _ _ | .semreset _ _ | .semdelete _ | .sleepms _ | .sleep _ | .clkhandler => true
  | _ => false

theorem call_aside {a : Call} (h : a.schedules = true) : Aside s.currpid s (s.call a) := by
  cases a with
  | resume pid => exact resume_aside s pid
  | suspend pid => exact suspend_aside s pid
  | chprio pid newprio => exact chprio_aside s pid newprio
  | yield => exact yield_aside s
  | semcreate count => exact semcreate_aside s count
  | wait sem => exact wait_aside s sem
  | signal sem => exact signal_aside s sem
  | signaln sem count => exact signaln_aside s sem count
  | semreset sem count => exact semreset_aside s sem count
  | semdelete sem => exact semdelete_aside s sem
  | sleepms delay => exact sleepms_aside s delay
  | sleep delay => exact sleep_aside s delay
  | clkhandler => exact clkhandler_aside s
  | create ssize priority => cases h
  | kill pid => cases h
  | send pid msg => cases h
  | receive => cases h
  | recvtime maxwait => cases h
  | recvclr => cases h
  | rwbcreate count => cases h
  | rwbdelete rwb => cases h
  | rwbreset rwb count => cases h
  | rwbTryread rwb => cases h
  | rwbTrywrite rwb => cases h
  | signalrwb rwb => cases h
  | setScheduler newval => cases h

/-!
## Messages
-/

/-- {lit}`send` delivers a message to the process. -/
def Xinu.accepts (s : Xinu) (pid : Int) : Prop :=
  ¬ s.isbadpid pid ∧ (s.proctab pid).prhasmsg = false

instance (s : Xinu) (pid : Int) : Decidable (s.accepts pid) :=
  inferInstanceAs (Decidable (_ ∧ _))

/-- A message arrives. -/
def Xinu.deliver (s : Xinu) (pid : Int) (msg : Nat) : Xinu :=
  s.setProc pid fun e => { e with prmsg := msg, prhasmsg := true }

/-- The running process takes its message. -/
def Xinu.clearMsg (s : Xinu) : Xinu :=
  s.setProc s.currpid fun e => { e with prhasmsg := false }

theorem send_rejected (h : ¬ s.accepts pid) (msg : Nat) : s.send pid msg = s.ret SYSERR := by
  unfold Xinu.send
  by_cases hbad : s.isbadpid pid
  · rw [if_pos hbad]
  · have hmsg : (s.proctab pid).prhasmsg = true := by
      cases hm : (s.proctab pid).prhasmsg with
      | true => rfl
      | false => exact absurd ⟨hbad, hm⟩ h
    rw [if_neg hbad, if_pos hmsg]

theorem send_accepted (h : s.accepts pid) (msg : Nat) :
    Aside s.currpid (s.deliver pid msg) (s.send pid msg) := by
  have hmsg : ¬ (s.proctab pid).prhasmsg = true := by
    rw [h.2]
    exact Bool.false_ne_true
  unfold Xinu.send
  rw [if_neg h.1, if_neg hmsg]
  show Aside s.currpid (s.deliver pid msg) (if ((s.deliver pid msg).proctab pid).prstate = _ then
    ((s.deliver pid msg).push (.ret OK)).ready pid
    else if ((s.deliver pid msg).proctab pid).prstate = _ then
      (((s.deliver pid msg).push (.ret OK)).unsleep pid).ready pid
    else (s.deliver pid msg).ret OK)
  have hcp : (s.deliver pid msg).currpid = s.currpid := rfl
  generalize s.deliver pid msg = s₁ at hcp ⊢
  split
  · exact (aside_push hcp rfl).trans (kept_ready _ _).aside
  · split
    · exact (aside_push hcp rfl).trans ((kept_unsleep _ _).trans (kept_ready _ _)).aside
    · exact aside_ret hcp _

theorem receive_waits (h : (s.proctab s.currpid).prhasmsg = false) :
    Kept (s.push .receive) s.receive := by
  unfold Xinu.receive
  rw [if_pos h]
  apply (kept_recordCpuqdata _ s.currpid).trans
  exact (kept_setState _ _ _).trans (kept_resched _)

theorem receive_takes (h : (s.proctab s.currpid).prhasmsg = true) :
    s.receive = s.clearMsg.ret (s.proctab s.currpid).prmsg := by
  unfold Xinu.receive
  rw [if_neg (by rw [h]; exact Bool.noConfusion)]
  rfl

theorem recvtime_waits (h : (s.proctab s.currpid).prhasmsg = false) (maxwait : Int) :
    Aside s.currpid s (s.recvtime maxwait) := by
  unfold Xinu.recvtime
  split
  · exact aside_ret (by rfl) _
  · dsimp only
    have hcp : (s.insertd s.currpid sleepq maxwait).2.currpid = s.currpid :=
      insertd_currpid _ _ _ _
    apply (kept_insertd s s.currpid sleepq maxwait).aside.trans
    generalize (s.insertd s.currpid sleepq maxwait).2 = s₁ at hcp ⊢
    split
    · exact aside_ret hcp _
    · apply (aside_push (f := .recvtime) hcp rfl).trans
      apply (kept_recordCpuqdata _ _).aside.trans
      exact ((kept_setState _ _ _).trans (kept_resched _)).aside

theorem recvtime_refused {maxwait : Int} (h : maxwait < 0) :
    s.recvtime maxwait = s.ret SYSERR := by
  unfold Xinu.recvtime
  rw [if_pos h]

theorem recvtimeEnd_takes (h : (s.proctab s.currpid).prhasmsg = true) :
    s.recvtimeEnd = s.clearMsg.ret (s.proctab s.currpid).prmsg := by
  unfold Xinu.recvtimeEnd
  rw [if_pos h]
  rfl

theorem recvtimeEnd_timeout (h : ¬ (s.proctab s.currpid).prhasmsg = true) :
    s.recvtimeEnd = s.ret TIMEOUT := by
  unfold Xinu.recvtimeEnd
  rw [if_neg h]

theorem recvtime_takes {maxwait : Int} (h : (s.proctab s.currpid).prhasmsg = true)
    (hpos : 0 ≤ maxwait) :
    s.recvtime maxwait = s.clearMsg.ret (s.proctab s.currpid).prmsg := by
  unfold Xinu.recvtime
  rw [if_neg (Int.not_lt.mpr hpos), if_neg (by rw [h]; exact Bool.noConfusion)]
  exact recvtimeEnd_takes h

theorem recvclr_takes (h : (s.proctab s.currpid).prhasmsg = true) :
    s.recvclr = s.clearMsg.ret (s.proctab s.currpid).prmsg := by
  unfold Xinu.recvclr
  rw [if_pos h]
  rfl

theorem recvclr_none (h : ¬ (s.proctab s.currpid).prhasmsg = true) :
    s.recvclr = s.ret OK := by
  unfold Xinu.recvclr
  rw [if_neg h]

/-!
## Processes that come and go
-/

/-- {lit}`create` has found its entry and its stack. -/
def Xinu.spawn (s : Xinu) (pid : Int) (saddr ssize : Nat) (priority : Int) : Xinu :=
  let s := s.setPrcount (s.prcount + 1)
  let s := s.setProc pid fun e =>
    { e with
      prstate := .susp
      timestatein := s.now
      statetimes := fun i p => if i < QTYPE_VALS then ztime else e.statetimes i p
      prprio0 := priority
      prprio := priority
      prstkbase := saddr
      prstklen := ssize
      prsem := -1
      prparent := s.currpid
      prhasmsg := false }
  (s.resetStack pid).ret pid

/-- The size that {lit}`create` gives a stack. -/
def stackSize (ssize : Nat) : Nat := roundew (if ssize < MINSTK then MINSTK else ssize)

/-- The stack that {lit}`create` takes. -/
def Xinu.newStack (s : Xinu) (ssize : Nat) : Option Nat × Mem :=
  s.mem.getstk (s.envtab EV_MEMALLOC) (stackSize ssize)

/-- {lit}`create` fails, or a free entry is taken. -/
theorem create_cases (s : Xinu) (ssize : Nat) (priority : Int) :
    (∃ next, s.create ssize priority =
      ((s.setMem (s.newStack ssize).2).setNextpid next).ret SYSERR) ∨
      ∃ next pid saddr, (s.newStack ssize).1 = some saddr ∧ ValidPid pid ∧
        (s.proctab pid).prstate = .free ∧
        s.create ssize priority = ((s.setMem (s.newStack ssize).2).setNextpid next).spawn pid
          saddr (stackSize ssize) priority := by
  have hstk : s.mem.getstk (s.envtab EV_MEMALLOC)
      (roundew (if ssize < MINSTK then MINSTK else ssize)) = s.newStack ssize := rfl
  unfold Xinu.create
  dsimp only
  rw [hstk]
  generalize s.newStack ssize = stk
  cases stk.1 with
  | none => exact Or.inl ⟨s.nextpid, rfl⟩
  | some saddr =>
      dsimp only
      rcases newpidLoop_spec NPROC.toNat (s.setMem stk.2) with ⟨next, hnext, hpid⟩
      unfold Xinu.newpid
      rw [hnext]
      generalize (Xinu.newpidLoop NPROC.toNat (s.setMem stk.2)).1 = pid at hpid ⊢
      split
      · exact Or.inl ⟨next, rfl⟩
      · rename_i hsome
        split
        · exact Or.inl ⟨next, rfl⟩
        · exact Or.inr ⟨next, pid, saddr, rfl, (hpid hsome).1, (hpid hsome).2, rfl⟩

/-- The rejections of {lit}`kill`. -/
theorem kill_rejected (h : s.isbadpid pid ∨ pid = NULLPROC) : s.kill pid = s.ret SYSERR := by
  unfold Xinu.kill
  rw [if_pos]
  rcases h with h | h
  · exact Or.inl h
  · exact Or.inr (Or.inl h)

/-- {lit}`kill` counts its victim out before anything else. -/
theorem kill_counted (h : ¬ s.isbadpid pid) (hnull : pid ≠ NULLPROC) :
    s.kill pid =
      if s.prcount - 1 ≤ 1 then { s.setPrcount (s.prcount - 1) with halted := true }
      else ((s.setPrcount (s.prcount - 1)).push (.killSent pid)).send (s.proctab pid).prparent
        pid.toNat := by
  unfold Xinu.kill
  rw [if_neg]
  · rfl
  · intro hbad
    rcases hbad with hbad | hbad | hbad
    · exact h hbad
    · exact hnull hbad
    · exact h (Or.inr (Or.inr hbad))

theorem killUnlink_aside (hc : s.currpid = c) (hflag : s.rwbflags pid = 0) :
    Aside c s (s.killUnlink pid) := by
  have hno : ¬ ((s.getitem pid).rwbflags pid ≠ 0 ∧ ((s.getitem pid).proctab pid).prsem < -1) :=
    fun h => h.1 hflag
  unfold Xinu.killUnlink
  dsimp only
  rw [if_neg hno]
  exact ((kept_getitem s pid).trans (kept_setState _ _ _)).aside.trans
    (aside_ret (by exact hc) _)

/-- Without flags {lit}`kill` frees its victim at once. -/
theorem killState_aside (hflag : s.rwbflags pid = 0) :
    Aside s.currpid s (s.killState pid) := by
  have hoff : Aside s.currpid s (s.killSignaled pid) :=
    (kept_setState s pid .free).aside.trans (aside_ret (by rfl) _)
  have hasleep : Aside s.currpid s ((s.unsleep pid).killSignaled pid) := by
    have hcp : (s.unsleep pid).currpid = s.currpid := unsleep_currpid s pid
    apply (kept_unsleep s pid).aside.trans
    exact (kept_setState _ pid .free).aside.trans (aside_ret (by exact hcp) _)
  unfold Xinu.killState
  cases hstate : (s.proctab pid).prstate with
  | curr => exact ((kept_setState s pid .free).trans (kept_resched _)).aside
  | ready => exact killUnlink_aside rfl hflag
  | wait =>
      dsimp only
      split
      · have hrwb : Aside s.currpid s ((s.setFlag pid 0).setRwb (-1 * ((s.proctab pid).prsem + 2))
            fun e => { e with qcount := e.qcount - 1 }) :=
          aside_of_proctab rfl rfl rfl rfl rfl rfl rfl
        exact hrwb.trans (killUnlink_aside (by rfl) upd_self)
      · exact (kept_setSem s _ _).aside.trans (killUnlink_aside (by rfl) (by exact hflag))
  | sleep => exact hasleep
  | rectim => exact hasleep
  | free => exact hoff
  | recv => exact hoff
  | susp => exact hoff

/-- {lit}`kill` frees a stack and changes nothing else in memory. -/
theorem killSent_aside (hflag : s.rwbflags pid = 0) :
    Aside s.currpid (s.setMem (s.mem.freestk (s.proctab pid).prstkbase
      (s.proctab pid).prstklen)) (s.killSent pid) := by
  unfold Xinu.killSent
  dsimp only
  generalize s.mem.freestk _ _ = m
  have hq : Quiet s (((s.setMem m).recordCpuqdata pid).countFinished pid) :=
    ((quiet_setMem s m).trans (quiet_recordCpuqdata _ _)).trans (quiet_countFinished _ _)
  have hcount : Aside s.currpid ((s.setMem m).recordCpuqdata pid)
      (((s.setMem m).recordCpuqdata pid).countFinished pid) :=
    aside_of_proctab rfl rfl rfl rfl rfl rfl rfl
  apply (kept_recordCpuqdata _ pid).aside.trans
  apply hcount.trans
  generalize ((s.setMem m).recordCpuqdata pid).countFinished pid = s₁ at hq ⊢
  rw [← hq.currpid]
  exact killState_aside (by rw [hq.rwbflags]; exact hflag)

end

end BbbXinu
