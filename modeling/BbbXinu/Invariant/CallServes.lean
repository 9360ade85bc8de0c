import BbbXinu.Invariant.CallKept
import BbbXinu.Invariant.Serves

/-!
# Whom each call wakes

One lemma for each call.  The running process may stop in any of them; of the
others only those that the call releases change their state.
-/

namespace BbbXinu

open LinkedLists KeyedLists

section

variable {w : Watch} {g : View} {q sem : Int} {s s' : Xinu} {woken : Int → Prop}
  {stops : Int → PrState → Prop} {pid : Int}

theorem ret_serves (s : Xinu) (v : Int) : Serves woken stops s (s.ret v) :=
  (sameTimes_ret s v).serves

theorem push_serves (s : Xinu) (f : Frame) : Serves woken stops s (s.push f) :=
  (sameTimes_push s f).serves

theorem Ok.good_curr (hO : Ok w g s) : ¬ s.isbadpid s.currpid := by
  rw [Xinu.not_isbadpid_iff, hO.curr]
  exact ⟨hO.inv.valid_curr, by decide⟩

/-- A message changes nothing else. -/
theorem sameTimes_setMsg (s : Xinu) (pid : Int) (b : Bool) :
    SameTimes s (s.setProc pid fun e => { e with prhasmsg := b }) :=
  sameTimes_setProc s pid (fun _ => ⟨rfl, rfl⟩) fun _ => rfl

/-!
## Calls that may stop the running process
-/

/-- The running process is recorded and stops without joining a queue. -/
theorem stop_serves {f : Procent → Procent} (hO : Ok w g s) (hnull : s.currpid ≠ NULLPROC)
    (hcurr : ∀ e, (f e).prstate ≠ .curr) (hhome : ∀ e, home (f e) = none)
    (hst : ∀ e, stops s.currpid (f e).prstate) (hf : ∀ e, SameStamps e (f e)) :
    Serves woken stops s ((s.recordCpuqdata s.currpid).setProc s.currpid f).resched := by
  have hq := quiet_recordCpuqdata s s.currpid
  have hO₁ := hO.quiet hq
  have hne : (s.recordCpuqdata s.currpid).currpid ≠ NULLPROC := by
    rw [hq.currpid]
    exact hnull
  have hI := stopLive_inv (f := f) hO₁ hne (hcurr _) (hhome _)
  rw [hq.currpid] at hI
  exact (serves_settle hO.good_curr (Or.inl (Or.inr hO.curr)) (fun e => Or.inr (hst e))
    hf).trans (resched_serves hI)

theorem yield_serves (hO : Ok w g s) : Serves woken stops s s.yield :=
  (push_serves s _).trans (resched_serves (hO.push (f := .ret OK) rfl).inv)

theorem wait_serves (hO : Ok w g s)
    (hnull : s.currpid = NULLPROC → ¬ s.blocks (.wait sem)) (hst : stops s.currpid .wait) :
    Serves woken stops s (s.wait sem) := by
  by_cases hu : s.SemUsable sem
  · unfold Xinu.wait
    rw [if_neg hu.1, if_neg hu.ne_free]
    dsimp only
    rw [setSem_self]
    dsimp only
    have hset : Serves woken stops s
        (s.setSem sem fun e => { e with scount := int32 (e.scount - 1) }) :=
      (sameTimes_setSem s sem _).serves
    have hO₁ := hO.quiet (quiet_setSem s sem
      (f := fun e => { e with scount := int32 (e.scount - 1) }) fun _ => rfl)
    have hcp : (s.setSem sem fun e =>
      { e with scount := int32 (e.scount - 1) }).currpid = s.currpid := rfl
    split
    · rename_i hcount
      have hne : s.currpid ≠ NULLPROC := fun h => hnull h ⟨hu.1, hu.2, hcount⟩
      generalize (s.setSem sem fun e => { e with scount := int32 (e.scount - 1) }) = s₁
        at hset hO₁ hcp ⊢
      apply hset.trans
      apply (push_serves s₁ (.ret OK)).trans
      have hO₂ := hO₁.push (f := .ret OK) rfl
      have hcp₂ : (s₁.push (.ret OK)).currpid = s.currpid := hcp
      generalize s₁.push (.ret OK) = s₂ at hO₂ hcp₂ ⊢
      have hq := quiet_recordCpuqdata s₂ s₂.currpid
      have hO₃ := hO₂.quiet hq
      have hsq := hO₃.inv.squeue sem hu.1
      rcases block_inv (q := semq sem)
          (f := fun e => { e with prstate := .wait, prsem := sem }) hO₃
          (by rw [hq.currpid, hcp₂]; exact hne) rfl (waitq_sem hu.1) (Or.inl hu.1)
          (isQueue_semq hu.1) (semq_ne_readylist hu.1) (semq_ne_sleepq hu.1) with
        ⟨t, ht, hI⟩
      show Serves woken stops s₂ ((((s₂.recordCpuqdata s₂.currpid).setProc
        (s₂.recordCpuqdata s₂.currpid).currpid
          fun e => { e with prstate := .wait, prsem := sem }).enqueue
          (s₂.recordCpuqdata s₂.currpid).currpid
            ((s₂.recordCpuqdata s₂.currpid).semtab sem).squeue).resched)
      rw [hsq, ht]
      apply Serves.trans _ (resched_serves hI)
      apply Serves.trans _ (sameTimes_setQueuetab _ _).serves
      rw [hq.currpid]
      exact serves_settle hO₂.good_curr (Or.inl (Or.inr hO₂.curr))
        (fun _ => Or.inr (hcp₂ ▸ hst)) fun _ => ⟨rfl, rfl⟩
    · exact hset.trans (ret_serves _ _)
  · rw [wait_bad hu]
    exact ret_serves s _

theorem receiveEnd_serves : Serves woken stops s s.receiveEnd :=
  (sameTimes_setMsg s s.currpid false).serves.trans (ret_serves _ _)

theorem recvtimeEnd_serves : Serves woken stops s s.recvtimeEnd := by
  unfold Xinu.recvtimeEnd
  split
  · exact (sameTimes_setMsg s s.currpid false).serves.trans (ret_serves _ _)
  · exact ret_serves s _

theorem recvclr_serves : Serves woken stops s s.recvclr := by
  unfold Xinu.recvclr
  split
  · exact (sameTimes_setMsg s s.currpid false).serves.trans (ret_serves _ _)
  · exact ret_serves s _

theorem receive_serves (hO : Ok w g s)
    (hnull : s.currpid = NULLPROC → ¬ s.blocks .receive) (hst : stops s.currpid .recv) :
    Serves woken stops s s.receive := by
  unfold Xinu.receive
  split
  · rename_i hmsg
    have hq := quiet_recordCpuqdata (s.push .receive) s.currpid
    have hne : (s.push .receive).currpid ≠ NULLPROC := fun h => hnull h hmsg
    apply (push_serves s .receive).trans
    dsimp only
    rw [(quiet_recordCpuqdata (s.push .receive) _).currpid]
    exact stop_serves (f := fun e => { e with prstate := .recv })
      (hO.push (f := .receive) rfl) hne (fun _ h => by cases h) (fun _ => rfl)
      (fun _ => hst) fun _ => ⟨rfl, rfl⟩
  · exact receiveEnd_serves

/-- The running process is recorded and goes to sleep. -/
theorem sleepOn_serves {f : Procent → Procent} {c : Frame} {d : Int} (hO : Ok w g s)
    (hnull : s.currpid ≠ NULLPROC) (hc : c.tracked = false)
    (hstate : ∀ e, (f e).prstate = .sleep ∨ (f e).prstate = .rectim)
    (hst : ∀ e, stops s.currpid (f e).prstate) (hf : ∀ e, SameStamps e (f e)) :
    Serves woken stops s ((((s.insertd s.currpid sleepq d).2.push c).recordCpuqdata
      ((s.insertd s.currpid sleepq d).2.push c).currpid).setProc
        (((s.insertd s.currpid sleepq d).2.push c).recordCpuqdata
          ((s.insertd s.currpid sleepq d).2.push c).currpid).currpid f).resched := by
  have hO' : Ok w.undelay g s := ⟨hO.inv.undelay, hO.curr, hO.top⟩
  rcases sleepOn_inv (f := f) (c := c) (d := d) hO' hnull hc hstate (fun h => absurd h id) with
    ⟨_, l₁, l₂, t, _, ht, hI⟩
  apply Serves.trans _ (resched_serves hI)
  rw [ht, (quiet_recordCpuqdata _ _).currpid]
  have hgood : ¬ ((s.setQueuetab t).push c).isbadpid
      ((s.setQueuetab t).push c).currpid := hO.good_curr
  have halive : ((s.setQueuetab t).push c).Alive ((s.setQueuetab t).push c).currpid :=
    Or.inr hO.curr
  apply (sameTimes_setQueuetab s t).serves.trans
  apply (push_serves _ c).trans
  exact serves_settle hgood (Or.inl halive) (fun e => Or.inr (hst e)) hf

theorem insertd_ok (hO : Ok w g s) (d : Int) :
    ∃ t, s.insertd s.currpid sleepq d = (OK, s.setQueuetab t) := by
  have hoff : ∀ r, s.currpid ∉ lists s.queuetab r := hO.inv.off_of_home (home_curr hO.curr)
  rcases Xinu.insertd_spec d hO.inv.queues isQueue_sleepq hO.good_curr
    (fun r _ => hoff r) with ⟨t, l₁, l₂, key, _, _, ht, _, _⟩
  exact ⟨t, ht⟩

theorem recvtime_serves (hO : Ok w g s) {maxwait : Int}
    (hnull : s.currpid = NULLPROC → ¬ s.blocks (.recvtime maxwait))
    (hst : stops s.currpid .rectim) :
    Serves woken stops s (s.recvtime maxwait) := by
  unfold Xinu.recvtime
  split
  · exact ret_serves s _
  · rename_i hpos
    split
    · rename_i hmsg
      have hne : s.currpid ≠ NULLPROC := fun h => hnull h ⟨Int.not_lt.mp hpos, hmsg⟩
      have hok : ¬ (s.insertd s.currpid sleepq maxwait).1 = SYSERR := by
        rcases insertd_ok hO maxwait with ⟨t, ht⟩
        rw [ht]
        exact (by decide : ¬ OK = SYSERR)
      dsimp only
      rw [if_neg hok]
      exact sleepOn_serves (c := .recvtime) (f := fun e => { e with prstate := .rectim }) hO hne
        rfl (fun _ => Or.inr rfl) (fun _ => hst) fun _ => ⟨rfl, rfl⟩
    · exact recvtimeEnd_serves

theorem sleepms_serves (hO : Ok w g s) {delay : Nat}
    (hnull : s.currpid = NULLPROC → ¬ s.blocks (.sleepms delay))
    (hst : stops s.currpid .sleep) :
    Serves woken stops s (s.sleepms delay) := by
  unfold Xinu.sleepms
  split
  · exact yield_serves hO
  · rename_i hdelay
    have hok : ¬ (s.insertd s.currpid sleepq (int32 delay)).1 = SYSERR := by
      rcases insertd_ok hO (int32 delay) with ⟨t, ht⟩
      rw [ht]
      exact (by decide : ¬ OK = SYSERR)
    dsimp only
    rw [if_neg hok]
    exact sleepOn_serves (c := .ret OK) (f := fun e => { e with prstate := .sleep }) hO
      (fun h => hnull h hdelay) rfl (fun _ => Or.inl rfl) (fun _ => hst)
      fun _ => ⟨rfl, rfl⟩

theorem sleep_serves (hO : Ok w g s) {delay : Nat}
    (hnull : s.currpid = NULLPROC → ¬ s.blocks (.sleep delay)) (hst : stops s.currpid .sleep) :
    Serves woken stops s (s.sleep delay) := by
  unfold Xinu.sleep
  split
  · exact ret_serves s _
  · rename_i hlong
    apply (push_serves s (.ret OK)).trans
    apply sleepms_serves (hO.push (f := .ret OK) rfl) _ hst
    intro h hb
    exact hnull h ⟨Nat.not_lt.mp hlong, hb⟩

/-!
## Calls that release others
-/

theorem resume_serves (hO : Ok w g s) (hw : (s.proctab pid).prstate = .susp → woken pid) :
    Serves woken stops s (s.resume pid) := by
  unfold Xinu.resume
  split
  · exact ret_serves s _
  · rename_i hgood
    split
    · exact ret_serves s _
    · rename_i hsusp
      have hstate : (s.proctab pid).prstate = .susp := not_not.mp hsusp
      have hne : s.currpid ≠ pid := by
        apply hO.curr_ne
        rw [hstate]
        exact fun h => by cases h
      have hO₁ := hO.push (f := .ret (s.proctab pid).prprio) rfl
      apply (push_serves s _).trans
      exact ready_serves (hO₁.inv.open_hole (home_susp hstate)) hO.curr hne hgood
        (hw hstate)

theorem send_serves (hO : Ok w g s) {msg : Nat} (hw : s.accepts pid → woken pid) :
    Serves woken stops s (s.send pid msg) := by
  unfold Xinu.send
  split
  · exact ret_serves s _
  · rename_i hgood
    split
    · exact ret_serves s _
    · rename_i hmsg
      have hw : woken pid := hw ⟨hgood, Bool.eq_false_iff.mpr hmsg⟩
      dsimp only
      have hq : Quiet s (s.setProc pid fun e => { e with prmsg := msg, prhasmsg := true }) :=
        quiet_setProc s pid (fun _ => rfl) (fun _ => rfl) (fun _ => rfl)
      have hserves : Serves woken stops s
          (s.setProc pid fun e => { e with prmsg := msg, prhasmsg := true }) :=
        (sameTimes_setProc s pid (f := fun e => { e with prmsg := msg, prhasmsg := true })
          (fun _ => ⟨rfl, rfl⟩) fun _ => rfl).serves
      have hO₁ := hO.quiet hq
      have hgood₁ : ¬ (s.setProc pid fun e =>
          { e with prmsg := msg, prhasmsg := true }).isbadpid pid := by
        rw [Xinu.not_isbadpid_iff, hq.prstate]
        exact Xinu.not_isbadpid_iff.mp hgood
      generalize (s.setProc pid fun e => { e with prmsg := msg, prhasmsg := true }) = s₁
        at hO₁ hgood₁ hserves ⊢
      have hne : ∀ st, (s₁.proctab pid).prstate = st → st ≠ .curr → s₁.currpid ≠ pid := by
        intro st hst hcurr he
        rw [← he] at hst
        exact hcurr (hst.symm.trans hO₁.curr)
      have hO₂ := hO₁.push (f := .ret OK) rfl
      apply hserves.trans
      split
      · rename_i hrecv
        apply (push_serves s₁ _).trans
        exact ready_serves (hO₂.inv.open_hole (home_recv hrecv)) hO₂.curr
          (hne _ hrecv (by decide)) hgood₁ hw
      · split
        · rename_i hrectim
          rcases unsleep_inv hO₂.inv.undelay (fun h => absurd h id) (Or.inr hrectim) with
            ⟨t, ht, hI⟩
          apply (push_serves s₁ (.ret OK)).trans
          rw [ht]
          apply (sameTimes_setQueuetab _ t).serves.trans
          exact ready_serves hI hO₂.curr (hne _ hrectim (by decide)) hgood₁ hw
        · exact ret_serves s₁ _

/-- {lit}`kill` sends a message to the parent of its victim first. -/
theorem kill_serves (hO : Ok w g s) 
    (hw : s.accepts (s.proctab pid).prparent → woken (s.proctab pid).prparent) :
    Serves woken stops s (s.kill pid) := by
  unfold Xinu.kill
  split
  · exact ret_serves s _
  · dsimp only
    have hO₁ := hO.quiet (quiet_setPrcount s (s.prcount - 1))
    apply (sameTimes_setPrcount s (s.prcount - 1)).serves.trans
    split
    · exact SameTimes.serves ⟨fun _ => .refl _, fun _ => rfl, rfl, rfl, rfl, rfl, rfl⟩
    · have hO₂ := hO₁.pushTracked (f := .killSent pid) rfl
      exact (push_serves _ _).trans (send_serves hO₂ hw)

theorem signal_serves (hO : Ok w g s)
    (hw : ¬ isbadsem sem → ∀ p ∈ g.lists (semq sem), woken p) :
    Serves woken stops s (s.signal sem) := by
  by_cases hu : s.SemUsable sem
  · unfold Xinu.signal
    rw [if_neg hu.1, if_neg hu.ne_free]
    dsimp only
    have hO₁ := hO.quiet (quiet_setSem s sem
      (f := fun e => { e with scount := int32 (e.scount + 1) }) fun _ => rfl)
    have hsq := hO₁.inv.squeue sem hu.1
    apply (sameTimes_setSem s sem _).serves.trans
    split
    · rw [hsq]
      apply (push_serves _ (.ret OK)).trans
      exact readyDequeue_serves (hO₁.push (f := .ret OK) rfl) (isQueue_semq hu.1)
        (semq_ne_readylist hu.1) fun p hp => hw hu.1 p (List.mem_of_mem_take hp)
    · exact ret_serves _ _
  · rw [signal_bad hu]
    exact ret_serves s _

theorem signaln_serves (hO : Ok w g s) (hd : g.defers = 0) {count : Int}
    (hw : ¬ isbadsem sem → ∀ p ∈ g.lists (semq sem), woken p) :
    Serves woken stops s (s.signaln sem count) := by
  by_cases hu : 0 ≤ count ∧ s.SemUsable sem
  · have hgood := hu.2.1
    have hpos : ¬ (isbadsem sem ∨ count < 0) := not_or.mpr ⟨hgood, Int.not_lt.mpr hu.1⟩
    have hO₁ := deferStart_ok (hO.push (f := .ret OK) rfl) hd
    rcases signalnLoop_ok hgood count.toNat hO₁ with ⟨g', _, hO₂⟩
    unfold Xinu.signaln
    rw [if_neg hpos, if_neg hu.2.ne_free]
    dsimp only
    apply (push_serves s (.ret OK)).trans
    apply deferStart_serves.trans
    exact (signalnLoop_serves hgood _ hO₁ (hw hgood)).trans (deferStop_serves hO₂)
  · rw [signaln_bad hu]
    exact ret_serves s _

theorem semreset_serves (hO : Ok w g s) (hd : g.defers = 0) {count : Int}
    (hw : ¬ isbadsem sem → ∀ p ∈ g.lists (semq sem), woken p) :
    Serves woken stops s (s.semreset sem count) := by
  by_cases hu : 0 ≤ count ∧ s.SemUsable sem
  · have hgood := hu.2.1
    have hbad : ¬ (count < 0 ∨ isbadsem sem ∨ (s.semtab sem).sstate = .free) :=
      not_or.mpr ⟨Int.not_lt.mpr hu.1, not_or.mpr ⟨hgood, hu.2.ne_free⟩⟩
    have hsq : ((s.push (.ret OK)).semtab sem).squeue = semq sem := hO.inv.squeue sem hgood
    have hO₁ := deferStart_ok (hO.push (f := .ret OK) rfl) hd
    rcases readyAll_ok (isQueue_semq hgood) (semq_ne_readylist hgood) (semq_ne_sleepq hgood)
      Xinu.queueFuel hO₁ with ⟨l, hO₂⟩
    unfold Xinu.semreset
    rw [if_neg hbad]
    dsimp only
    rw [hsq]
    apply (push_serves s (.ret OK)).trans
    apply deferStart_serves.trans
    apply (readyAll_serves (isQueue_semq hgood) (semq_ne_readylist hgood)
      (semq_ne_sleepq hgood) _ hO₁ (hw hgood)).trans
    apply (sameTimes_setSem _ sem _).serves.trans
    exact deferStop_serves (hO₂.quiet (quiet_setSem _ _ fun _ => rfl))
  · rw [semreset_bad hu]
    exact ret_serves s _

theorem semdelete_serves (hO : Ok w g s) (hd : g.defers = 0)
    (hw : ¬ isbadsem sem → ∀ p ∈ g.lists (semq sem), woken p) :
    Serves woken stops s (s.semdelete sem) := by
  by_cases hu : s.SemUsable sem
  · have hgood := hu.1
    have hO₁ := deferStart_ok ((hO.push (f := .ret OK) rfl).quiet
      (quiet_setSem _ sem (f := fun e => { e with sstate := .free }) fun _ => rfl)) hd
    unfold Xinu.semdelete
    rw [if_neg hgood, if_neg hu.ne_free]
    dsimp only
    rcases semdeleteLoop_ok hgood (-((((s.push (.ret OK)).setSem sem fun e =>
      { e with sstate := .free }).reschedCntl DEFER_START).semtab sem).scount).toNat hO₁ with
      ⟨g', _, hO₂⟩
    apply (push_serves s (.ret OK)).trans
    apply (sameTimes_setSem _ sem _).serves.trans
    apply deferStart_serves.trans
    apply (semdeleteLoop_serves hgood _ hO₁ (hw hgood)).trans
    apply (sameTimes_setSem _ sem _).serves.trans
    exact deferStop_serves (hO₂.quiet (quiet_setSem _ _ fun _ => rfl))
  · rw [semdelete_bad hu]
    exact ret_serves s _

/-- The clock wakes sleepers. -/
theorem clkhandler_serves (hO : Ok w g s) (hd : g.defers = 0)
    (hw : ∀ p ∈ g.lists sleepq, woken p) : Serves woken stops s.clkAdvance s.clkhandler := by
  have hO₁ := hO.quiet (quiet_clkAdvance s)
  unfold Xinu.clkhandler
  dsimp only
  generalize s.clkAdvance = s₁ at hO₁ ⊢
  have hempty := Xinu.isempty_iff hO₁.inv.queues isQueue_sleepq
  rw [hO₁.inv.lists_sleepq] at hempty
  split
  · rename_i hne
    cases hL : g.lists sleepq with
    | nil => exact absurd (hempty.mpr hL) hne
    | cons p l =>
        have hO₁' : Ok w.undelay g s₁ := ⟨hO₁.inv.undelay, hO₁.curr, hO₁.top⟩
        have hfirst : s₁.firstid sleepq = p :=
          hO₁.inv.queues.firstid_cons isQueue_sleepq (hO₁.inv.lists_sleepq.trans hL)
        rw [hfirst]
        have hO₂ := (tick_ok hO₁' hL fun h => absurd h id).1
        have hset : Serves woken stops s₁
            (s₁.setQueue p fun e => { e with qkey := int32 (e.qkey - 1) }) :=
          SameTimes.serves ⟨fun _ => .refl _, fun _ => rfl, rfl, rfl, rfl, rfl, rfl⟩
        generalize (s₁.setQueue p fun e => { e with qkey := int32 (e.qkey - 1) }) = s₂
          at hO₂ hset ⊢
        apply hset.trans
        split
        · have hO₃ := deferStart_ok (hO₂.push (f := .clkPreempt) rfl) hd
          have hlen : (((g.setDue fun p => g.due p - 1).setDefers 1).lists sleepq).length ≤
              Xinu.queueFuel := by
            have h1 : (lists s₁.queuetab sleepq).length ≤ 100 :=
              hO₁.inv.length_le isQueue_sleepq
            rw [hO₁.inv.lists_sleepq] at h1
            exact Nat.le_trans h1 (by decide)
          rcases wakeupLoop_ok Xinu.queueFuel hO₃ hlen with ⟨l₁, l₂, _, _, _, hO₄⟩
          apply (push_serves s₂ _).trans
          apply deferStart_serves.trans
          exact (wakeupLoop_serves _ hO₃ hw).trans (deferStop_serves hO₄)
        · exact clkPreempt_serves hO₂
  · exact clkPreempt_serves hO₁

/-!
## The calls that change nobody else's state
-/

theorem chprio_serves (s : Xinu) (pid newprio : Int) :
    Serves woken stops s (s.chprio pid newprio) := by
  unfold Xinu.chprio
  split
  · exact ret_serves s _
  · dsimp only
    have hprio : Serves woken stops s (s.setProc pid fun e => { e with prprio := newprio }) :=
      (sameTimes_setPrprio s pid newprio).serves
    split
    · apply hprio.trans
      exact (sameTimes_setProc _ pid (f := fun e => { e with prprio0 := newprio })
        (fun _ => ⟨rfl, rfl⟩) fun _ => rfl).serves.trans (ret_serves _ _)
    · exact hprio.trans (ret_serves _ _)

theorem newsemLoop_times (n : Nat) (s : Xinu) : SameTimes s (Xinu.newsemLoop n s).2 := by
  induction n generalizing s with
  | zero => exact .refl s
  | succ n ih =>
      unfold Xinu.newsemLoop
      dsimp only
      generalize (if NSEM ≤ s.nextsem + 1 then 0 else s.nextsem + 1) = next
      have hnext : SameTimes s (s.setNextsem next) :=
        ⟨fun _ => .refl _, fun _ => rfl, rfl, rfl, rfl, rfl, rfl⟩
      split
      · dsimp only
        exact hnext.trans (sameTimes_setSem _ _ _)
      · exact hnext.trans (ih _)

theorem semcreate_serves (s : Xinu) (count : Int) : Serves woken stops s (s.semcreate count) := by
  have hnew : SameTimes s s.newsem.2 := newsemLoop_times _ s
  unfold Xinu.semcreate
  split
  · exact ret_serves s _
  · dsimp only
    split
    · exact (hnew.trans (sameTimes_ret _ _)).serves
    · exact (hnew.trans ((sameTimes_setSem _ _ _).trans (sameTimes_ret _ _))).serves

/-- A process that is suspended was running or ready. -/
theorem suspend_moved (hO : Ok w g s) (hst : stops pid .susp) :
    Moved woken stops s (s.suspend pid) := by
  unfold Xinu.suspend
  split
  · exact moved_same fun _ => rfl
  · rename_i hgood
    split
    · exact moved_same fun _ => rfl
    · rename_i hstate
      have hq := quiet_recordCpuqdata s s.currpid
      have hO₁ := hO.quiet hq
      have halive : (s.recordCpuqdata s.currpid).Alive pid := by
        unfold Xinu.Alive
        rw [hq.prstate]
        by_contra hc
        exact hstate ⟨fun h => hc (Or.inr h), fun h => hc (Or.inl h)⟩
      dsimp only
      apply (moved_same hq.prstate).trans
      have hcp := hq.currpid
      generalize s.recordCpuqdata s.currpid = s₁ at hO₁ halive hcp ⊢
      split
      · have hgetitem : Moved woken stops s₁ (s₁.getitem pid) := moved_same fun _ => rfl
        apply hgetitem.trans
        exact moved_setProc (s := s₁.getitem pid) (f := fun e => { e with prstate := .susp })
          (Or.inl halive) (Or.inr hst)
      · rename_i hready
        have hcurr : (s₁.proctab pid).prstate = .curr := by
          rcases halive with h | h
          · exact absurd h hready
          · exact h
        have hpid := hO₁.inv.curr_unique pid hcurr
        have hnull : s₁.currpid ≠ NULLPROC := fun h => hgood (Or.inr (hpid.trans h))
        rw [hpid] at halive hst ⊢
        have hO₂ := hO₁.push (f := .suspend s₁.currpid) rfl
        have hI := stopLive_inv (f := fun e => { e with prstate := .susp }) hO₂ hnull
          (by exact fun h => by cases h) rfl
        apply Moved.trans _ (resched_serves hI).moved
        exact moved_setProc (s := s₁.push (.suspend s₁.currpid)) (p := s₁.currpid)
          (f := fun e => { e with prstate := .susp }) (Or.inl halive) (Or.inr hst)

/-!
## Freeing a victim
-/

theorem unsleep_times (s : Xinu) (pid : Int) : SameTimes s (s.unsleep pid) := by
  unfold Xinu.unsleep
  split
  · exact .refl s
  · split
    · exact .refl s
    · dsimp only
      split
      · exact ⟨fun _ => .refl _, fun _ => rfl, rfl, rfl, rfl, rfl, rfl⟩
      · exact ⟨fun _ => .refl _, fun _ => rfl, rfl, rfl, rfl, rfl, rfl⟩

theorem getitem_times (s : Xinu) (pid : Int) : SameTimes s (s.getitem pid) :=
  ⟨fun _ => .refl _, fun _ => rfl, rfl, rfl, rfl, rfl, rfl⟩

/-- A process whose time is recorded is freed. -/
theorem killSignaled_serves (hsame : SameTimes s s') (hlive : (s.proctab pid).prstate ≠ .free)
    (hstamp : s.recording → (s.proctab pid).timestatein = s.now) (hw : woken pid)
    (hst : stops pid .free) : Serves woken stops s (s'.killSignaled pid) := by
  have hmove : Serves woken stops s' (s'.setProc pid fun e => { e with prstate := .free }) := by
    constructor
    · exact moved_setProc (Or.inr hw) (Or.inr hst)
    · apply TimeStep.keeps
      apply TimeStep.move
      · rw [hsame.prstate]
        exact hlive
      · intro hon
        unfold Xinu.recording at hon hstamp
        unfold Xinu.now at hstamp ⊢
        rw [hsame.envtab] at hon
        rw [(hsame.stamps pid).timestatein, hstamp hon, hsame.clktime, hsame.count1000,
          hsame.clktimems]
      · exact ⟨rfl, rfl⟩
  exact (hsame.serves.trans hmove).trans (ret_serves _ _)

/-- {lit}`kill` ends with its victim free. -/
theorem killState_serves (hO : Ok w g s) (hflag : s.rwbflags pid = 0) (hnull : pid ≠ NULLPROC)
    (hprsem : (s.proctab pid).prstate = .wait → ¬ (s.proctab pid).prsem < -1)
    (hlive : (s.proctab pid).prstate ≠ .free)
    (hstamp : s.recording → (s.proctab pid).timestatein = s.now) (hw : woken pid)
    (hst : stops pid .free) : Serves woken stops s (s.killState pid) := by
  have hunlink : ∀ s' : Xinu, SameTimes s s' → s'.rwbflags pid = 0 →
      Serves woken stops s (s'.killUnlink pid) := by
    intro s' hsame hflag
    have hno : ¬ ((s'.getitem pid).rwbflags pid ≠ 0 ∧
        ((s'.getitem pid).proctab pid).prsem < -1) := fun h => h.1 hflag
    unfold Xinu.killUnlink
    dsimp only
    rw [if_neg hno]
    exact killSignaled_serves (hsame.trans (getitem_times s' pid)) hlive hstamp hw hst
  have hoff : Serves woken stops s (s.killSignaled pid) :=
    killSignaled_serves (.refl s) hlive hstamp hw hst
  have hasleep : Serves woken stops s ((s.unsleep pid).killSignaled pid) :=
    killSignaled_serves (unsleep_times s pid) hlive hstamp hw hst
  unfold Xinu.killState
  cases hstate : (s.proctab pid).prstate with
  | curr =>
      have hpid := hO.inv.curr_unique pid hstate
      rw [hpid] at hnull hlive hstamp hw hst ⊢
      have hI := stopLive_inv (f := fun e => { e with prstate := .free }) hO hnull
        (by exact fun h => by cases h) rfl
      apply Serves.trans _ (resched_serves hI)
      constructor
      · exact moved_setProc (Or.inr hw) (Or.inr hst)
      · exact (TimeStep.move hlive hstamp ⟨rfl, rfl⟩).keeps
  | ready => exact hunlink s (.refl s) hflag
  | wait =>
      dsimp only
      rw [if_neg (hprsem hstate)]
      exact hunlink _ (sameTimes_setSem s _ _) hflag
  | sleep => exact hasleep
  | rectim => exact hasleep
  | free => exact hoff
  | recv => exact hoff
  | susp => exact hoff

theorem sameTimes_countFinished (s : Xinu) (pid : Int) : SameTimes s (s.countFinished pid) :=
  ⟨fun _ => .refl _, fun _ => rfl, rfl, rfl, rfl, rfl, rfl⟩

/-- A victim that was freed by somebody else in the meantime. -/
theorem killState_free (h : (s.proctab pid).prstate = .free) : SameTimes s (s.killState pid) := by
  unfold Xinu.killState
  rw [h]
  apply SameTimes.trans _ (sameTimes_ret _ _)
  have hsame : (s.setProc pid fun e => { e with prstate := .free }).proctab = s.proctab := by
    apply upd_eq_self
    rw [← h]
  refine ⟨?_, ?_, rfl, rfl, rfl, rfl, rfl⟩
  · rw [hsame]
    exact fun _ => .refl _
  · rw [hsame]
    exact fun _ => rfl

theorem killSent_serves (hO : Ok w g s) (hflag : s.rwbflags pid = 0) (hnull : pid ≠ NULLPROC)
    (hprsem : (s.proctab pid).prstate = .wait → ¬ (s.proctab pid).prsem < -1)
    (hvalid : (s.proctab pid).prstate ≠ .free → ValidPid pid) (hw : woken pid)
    (hst : stops pid .free) : Serves woken stops s (s.killSent pid) := by
  unfold Xinu.killSent
  dsimp only
  generalize s.mem.freestk _ _ = m
  have hq : Quiet s (((s.setMem m).recordCpuqdata pid).countFinished pid) :=
    ((quiet_setMem s m).trans (quiet_recordCpuqdata _ _)).trans (quiet_countFinished _ _)
  have hserves : Serves woken stops s
      (((s.setMem m).recordCpuqdata pid).countFinished pid) :=
    ((sameTimes_setMem s m).serves.trans (serves_record _ pid)).trans
      (sameTimes_countFinished _ pid).serves
  apply hserves.trans
  by_cases hfree : (s.proctab pid).prstate = .free
  · apply SameTimes.serves
    apply killState_free
    rw [hq.prstate]
    exact hfree
  · have hgood : ¬ (s.setMem m).isbadpid pid :=
      Xinu.not_isbadpid_iff.mpr ⟨hvalid hfree, hfree⟩
    apply killState_serves (hO.quiet hq) (by rw [hq.rwbflags]; exact hflag) hnull _ _ _ hw hst
    · rw [hq.prstate, hq.prsem]
      exact hprsem
    · rw [hq.prstate]
      exact hfree
    · intro hon
      have hkept := kept_recordCpuqdata (s.setMem m) pid
      show (((s.setMem m).recordCpuqdata pid).proctab pid).timestatein =
        ((s.setMem m).recordCpuqdata pid).now
      rw [hkept.now]
      exact recordCpuqdata_stamp (hkept.recording.mp hon) hgood

end

end BbbXinu
