import BbbXinu.Invariant.SemaphoreMoves
import BbbXinu.Lib.CountingQueue
import BbbXinu.Properties.Plain

/-!
# Semaphores are counting queues

In runs without blockers each semaphore is a counting queue, and each step of
the kernel is one operation on it.  A free entry counts as idle.
-/

namespace BbbXinu

open LinkedLists KeyedLists Runs CountingQueue

namespace Xinu

variable (s : Xinu) (sem : Int)

/-- The processes that wait on a semaphore. -/
def semWaiters : List Int := lists s.queuetab (s.semtab sem).squeue

/-- The count of a semaphore in use. -/
def semCount : Int := if (s.semtab sem).sstate = .used then (s.semtab sem).scount else 0

/-- The step as an operation on the semaphore; most steps give it no unit. -/
def semOp : Label → Op Int
  | .call (.semcreate count) =>
      if 0 ≤ count ∧ s.newsem.1 = sem then .reset count.toNat else .signal 0
  | .call (.wait i) =>
      if i = sem ∧ s.SemUsable sem then .wait s.currpid else .signal 0
  | .call (.signal i) => if i = sem ∧ s.SemUsable sem then .signal 1 else .signal 0
  | .call (.signaln i count) =>
      if i = sem ∧ 0 ≤ count ∧ s.SemUsable sem then .signal count.toNat else .signal 0
  | .call (.semreset i count) =>
      if i = sem ∧ 0 ≤ count ∧ s.SemUsable sem then .reset count.toNat else .signal 0
  | .call (.semdelete i) => if i = sem ∧ s.SemUsable sem then .reset 0 else .signal 0
  | .cont =>
      match s.victim with
      | some pid =>
          if (s.proctab pid).prstate = .wait ∧ (s.proctab pid).prsem = sem then .leave pid
          else .signal 0
      | none => .signal 0
  | .call _ => .signal 0

end Xinu

/-- The counting queue that a semaphore stands for. -/
structure SemAs (s : Xinu) (sem : Int) (Q : CountingQueue Int) : Prop where
  count : Q.count = s.semCount sem
  waiters : Q.waiters = s.semWaiters sem

/-- What an operation does to the queue, its released processes and those who
gave up. -/
structure SemStep (sem : Int) (Q : CountingQueue Int) (op : Op Int) (s' : Xinu) : Prop where
  as : SemAs s' sem (Q.apply op)
  alive : ∀ p ∈ Q.releases op, s'.Alive p
  freed : ∀ p ∈ Q.quits op, (s'.proctab p).prstate = .free

/-- A count that fits its field. -/
def InInt32 (n : Int) : Prop := -2147483648 ≤ n ∧ n < 2147483648

instance (n : Int) : Decidable (InInt32 n) := inferInstanceAs (Decidable (_ ∧ _))

/-- The counts that the step asks for fit their field. -/
def CountsFit (s : Xinu) : Label → Prop
  | .call (.semcreate count) => InInt32 count
  | .call (.semreset _ count) => InInt32 count
  | .call (.wait sem) => s.SemUsable sem → InInt32 ((s.semtab sem).scount - 1)
  | .call (.signal sem) => s.SemUsable sem → InInt32 ((s.semtab sem).scount + 1)
  | .call (.signaln sem count) =>
      s.SemUsable sem → InInt32 ((s.semtab sem).scount + count)
  | _ => True

instance (s : Xinu) (l : Label) : Decidable (CountsFit s l) :=
  match l with
  | .call c => by induction c using Call.casesOn <;> unfold CountsFit <;> infer_instance
  | .cont => inferInstanceAs (Decidable True)

section

variable {w : Watch} {g g' : View} {sem i : Int} {s s' : Xinu} {Q : CountingQueue Int}
  {p : Int}

theorem semq_inj {a b : Int} (h : semq a = semq b) : a = b := by
  unfold semq at h
  omega

theorem Inv.waiters_eq {x : Int} (hI : Inv w g x s) (hgood : ¬ isbadsem sem) :
    s.semWaiters sem = g.lists (semq sem) := by
  unfold Xinu.semWaiters
  rw [hI.squeue sem hgood, hI.lists_eq _ (semq_ne_readylist hgood)]

theorem SemAs.sized (hQ : SemAs s sem Q) (hO : Ok w g s) (hu : s.SemUsable sem) :
    g.Sized s sem := by
  have hcount : Q.count = (s.semtab sem).scount := by
    rw [hQ.count]
    exact if_pos hu.2
  unfold View.Sized
  rw [← hO.inv.waiters_eq hu.1, ← hQ.waiters, ← hcount]
  exact Q.sized

/-- A step that gives the semaphore nothing. -/
theorem SemStep.keep (hQ : SemAs s sem Q) (hgood : ¬ isbadsem sem) (hO : Ok w g s)
    (hO' : Ok w g' s') (hlists : g'.lists (semq sem) = g.lists (semq sem))
    (hsemtab : s'.semtab sem = s.semtab sem) : SemStep sem Q (.signal 0) s' where
  as := by
    constructor
    · have hcount : (Q.signal 0).count = Q.count := by
        show Q.count + ((0 : Nat) : Int) = Q.count
        omega
      show (Q.signal 0).count = _
      rw [hcount, hQ.count]
      unfold Xinu.semCount
      rw [hsemtab]
    · show Q.waiters.drop 0 = _
      rw [List.drop_zero, hQ.waiters, hO.inv.waiters_eq hgood, hO'.inv.waiters_eq hgood,
        hlists]
  alive := by
    intro p hp
    change p ∈ Q.waiters.take 0 at hp
    cases hp
  freed := by
    intro p hp
    cases hp

/-- A step after which everybody is released. -/
theorem SemStep.reset {n : Nat} (hQ : SemAs s sem Q) (hgood : ¬ isbadsem sem)
    (hO : Ok w g s) (hO' : Ok w g' s') (hlists : g'.lists (semq sem) = [])
    (halive : ∀ p ∈ g.lists (semq sem), s'.Alive p) (hcount : s'.semCount sem = n) :
    SemStep sem Q (.reset n) s' where
  as := by
    constructor
    · exact hcount.symm
    · show [] = _
      rw [hO'.inv.waiters_eq hgood, hlists]
  alive := by
    intro p hp
    apply halive
    rw [← hO.inv.waiters_eq hgood, ← hQ.waiters]
    exact hp
  freed := by
    intro p hp
    cases hp

/-!
## The calls on semaphores
-/

theorem semStep_ret (hQ : SemAs s sem Q) (hgood : ¬ isbadsem sem) (hO : Ok w g s) (v : Int) :
    SemStep sem Q (.signal 0) (s.ret v) :=
  .keep hQ hgood hO (hO.ret v) rfl rfl

theorem setList_other {a b : Int} (h : a ≠ b) (l : List Int) :
    (g.setList (semq b) l).lists (semq a) = g.lists (semq a) :=
  upd_of_ne fun he => h (semq_inj he)

theorem wait_semStep (hQ : SemAs s sem Q) (hgood : ¬ isbadsem sem) (hO : Ok w g s)
    (hd : g.defers = 0) (hnull : NullRuns s (.wait i)) (hfit : CountsFit s (.call (.wait i))) :
    SemStep sem Q (s.semOp sem (.call (.wait i))) (s.wait i) := by
  unfold Xinu.semOp
  dsimp only
  by_cases hu : s.SemUsable i
  · rcases wait_moves hO hd hu hnull with ⟨hok, hsemtab⟩
    have hint : int32 ((s.semtab i).scount - 1) = (s.semtab i).scount - 1 :=
      int32_eq (hfit hu).1 (hfit hu).2
    rw [hint] at hok hsemtab
    by_cases hi : i = sem
    · subst hi
      rw [if_pos ⟨rfl, hu⟩]
      have hcount : Q.count = (s.semtab i).scount := by
        rw [hQ.count]
        exact if_pos hu.2
      refine ⟨⟨?_, ?_⟩, ?_, ?_⟩
      · show Q.count - 1 = _
        unfold Xinu.semCount
        rw [hsemtab, upd_self, if_pos (by exact hu.2), hcount]
      · show (if Q.count ≤ 0 then Q.waiters ++ [s.currpid] else Q.waiters) = _
        rw [hok.inv.waiters_eq hgood, hQ.waiters, hO.inv.waiters_eq hgood, hcount]
        split
        · rw [if_pos (by omega)]
          exact (View.setList_at g _ _).symm
        · rw [if_neg (by omega)]
      · intro p hp
        cases hp
      · intro p hp
        cases hp
    · rw [if_neg fun h => hi h.1]
      apply SemStep.keep hQ hgood hO hok
      · split
        · exact setList_other (Ne.symm hi) _
        · rfl
      · rw [hsemtab, upd_of_ne (Ne.symm hi)]
  · rw [wait_bad hu, if_neg]
    · exact semStep_ret hQ hgood hO _
    · intro h
      exact hu (h.1 ▸ h.2)

theorem signal_semStep (hQ : SemAs s sem Q) (hQi : s.SemUsable i → g.Sized s i)
    (hgood : ¬ isbadsem sem) (hO : Ok w g s) (hfit : CountsFit s (.call (.signal i))) :
    SemStep sem Q (s.semOp sem (.call (.signal i))) (s.signal i) := by
  unfold Xinu.semOp
  dsimp only
  by_cases hu : s.SemUsable i
  · rcases signal_moves hO hu (hQi hu) with ⟨hok, halive, hsemtab⟩
    have hint : int32 ((s.semtab i).scount + 1) = (s.semtab i).scount + 1 :=
      int32_eq (hfit hu).1 (hfit hu).2
    rw [hint] at hsemtab
    by_cases hi : i = sem
    · subst hi
      rw [if_pos ⟨rfl, hu⟩]
      have hw : Q.waiters = g.lists (semq i) := hQ.waiters.trans (hO.inv.waiters_eq hgood)
      refine ⟨⟨?_, ?_⟩, ?_, ?_⟩
      · show Q.count + ((1 : Nat) : Int) = _
        unfold Xinu.semCount
        rw [hsemtab, upd_self, if_pos (by exact hu.2), hQ.count]
        unfold Xinu.semCount
        rw [if_pos hu.2]
        rfl
      · show Q.waiters.drop 1 = _
        rw [hok.inv.waiters_eq hgood, hw, List.drop_one]
        exact (View.setList_at g _ _).symm
      · intro p hp
        apply halive
        rw [← hw]
        exact hp
      · intro p hp
        cases hp
    · rw [if_neg fun h => hi h.1]
      apply SemStep.keep hQ hgood hO hok (setList_other (Ne.symm hi) _)
      rw [hsemtab, upd_of_ne (Ne.symm hi)]
  · rw [signal_bad hu, if_neg]
    · exact semStep_ret hQ hgood hO _
    · intro h
      exact hu (h.1 ▸ h.2)

/-- Counts in use are in range, as the queue is no longer than the table. -/
theorem SemAs.low (hQ : SemAs s sem Q) (hO : Ok w g s) (hu : s.SemUsable sem) :
    -2147483648 ≤ (s.semtab sem).scount := by
  have hsized := hQ.sized hO hu
  have hlen := hO.inv.length_le (isQueue_semq hu.1)
  rw [hO.inv.lists_eq _ (semq_ne_readylist hu.1)] at hlen
  unfold View.Sized at hsized
  omega

theorem signaln_semStep {count : Int} (hQ : SemAs s sem Q)
    (hQi : s.SemUsable i → ∃ Q', SemAs s i Q') (hgood : ¬ isbadsem sem) (hO : Ok w g s)
    (hd : g.defers = 0) (hfit : CountsFit s (.call (.signaln i count))) :
    SemStep sem Q (s.semOp sem (.call (.signaln i count))) (s.signaln i count) := by
  unfold Xinu.semOp
  dsimp only
  by_cases hu : 0 ≤ count ∧ s.SemUsable i
  · rcases hQi hu.2 with ⟨Q', hQ'⟩
    have h := signaln_moves hO hd hu.2 (hQ'.sized hO hu.2) hu.1 (hQ'.low hO hu.2) (hfit hu.2).2
    by_cases hi : i = sem
    · subst hi
      rw [if_pos ⟨rfl, hu⟩]
      have hw : Q.waiters = g.lists (semq i) := hQ.waiters.trans (hO.inv.waiters_eq hgood)
      refine ⟨⟨?_, ?_⟩, ?_, ?_⟩
      · show Q.count + _ = _
        unfold Xinu.semCount
        rw [h.semtab, upd_self, if_pos (by exact hu.2.2), hQ.count]
        unfold Xinu.semCount
        rw [if_pos hu.2.2]
      · show Q.waiters.drop _ = _
        rw [h.ok.inv.waiters_eq hgood, hw]
        exact (View.setList_at g _ _).symm
      · intro p hp
        apply h.alive
        left
        rw [← hw]
        exact hp
      · intro p hp
        cases hp
    · rw [if_neg fun hc => hi hc.1]
      apply SemStep.keep hQ hgood hO h.ok (setList_other (Ne.symm hi) _)
      rw [h.semtab, upd_of_ne (Ne.symm hi)]
  · have hno : ¬ (i = sem ∧ 0 ≤ count ∧ s.SemUsable sem) := by
      intro hc
      rw [← hc.1] at hc
      exact hu hc.2
    rw [signaln_bad hu, if_neg hno]
    exact semStep_ret hQ hgood hO _

theorem semreset_semStep {count : Int} (hQ : SemAs s sem Q) (hgood : ¬ isbadsem sem)
    (hO : Ok w g s) (hd : g.defers = 0) :
    SemStep sem Q (s.semOp sem (.call (.semreset i count))) (s.semreset i count) := by
  unfold Xinu.semOp
  dsimp only
  by_cases hu : 0 ≤ count ∧ s.SemUsable i
  · rcases semreset_moves hO hd hu.2 hu.1 with ⟨hok, halive, hsemtab⟩
    by_cases hi : i = sem
    · subst hi
      rw [if_pos ⟨rfl, hu⟩]
      apply SemStep.reset hQ hgood hO hok (View.setList_at g _ _) halive
      unfold Xinu.semCount
      rw [hsemtab, upd_self, if_pos (by exact hu.2.2)]
      exact (Int.toNat_of_nonneg hu.1).symm
    · rw [if_neg fun hc => hi hc.1]
      apply SemStep.keep hQ hgood hO hok (setList_other (Ne.symm hi) _)
      rw [hsemtab, upd_of_ne (Ne.symm hi)]
  · have hno : ¬ (i = sem ∧ 0 ≤ count ∧ s.SemUsable sem) := by
      intro hc
      rw [← hc.1] at hc
      exact hu hc.2
    rw [semreset_bad hu, if_neg hno]
    exact semStep_ret hQ hgood hO _

theorem semdelete_semStep (hQ : SemAs s sem Q) (hQi : s.SemUsable i → g.Sized s i)
    (hgood : ¬ isbadsem sem) (hO : Ok w g s) (hd : g.defers = 0) :
    SemStep sem Q (s.semOp sem (.call (.semdelete i))) (s.semdelete i) := by
  unfold Xinu.semOp
  dsimp only
  by_cases hu : s.SemUsable i
  · rcases semdelete_moves hO hd hu (hQi hu) with ⟨hok, halive, hfree, hother⟩
    by_cases hi : i = sem
    · subst hi
      rw [if_pos ⟨rfl, hu⟩]
      apply SemStep.reset hQ hgood hO hok (View.setList_at g _ _) halive
      unfold Xinu.semCount
      rw [hfree, if_neg (by decide)]
      rfl
    · rw [if_neg fun hc => hi hc.1]
      exact SemStep.keep hQ hgood hO hok (setList_other (Ne.symm hi) _)
        (hother sem (Ne.symm hi))
  · rw [semdelete_bad hu, if_neg]
    · exact semStep_ret hQ hgood hO _
    · intro h
      exact hu (h.1 ▸ h.2)

/-- The entry that {lit}`newsem` finds was free. -/
theorem newsemLoop_spec (n : Nat) (s : Xinu) :
    (∀ i, i ≠ (Xinu.newsemLoop n s).1 → (Xinu.newsemLoop n s).2.semtab i = s.semtab i) ∧
      ((Xinu.newsemLoop n s).1 ≠ SYSERR →
        (s.semtab (Xinu.newsemLoop n s).1).sstate = .free ∧
          ((Xinu.newsemLoop n s).2.semtab (Xinu.newsemLoop n s).1).sstate = .used) := by
  induction n generalizing s with
  | zero => exact ⟨fun _ _ => rfl, fun h => absurd rfl h⟩
  | succ n ih =>
      unfold Xinu.newsemLoop
      dsimp only
      generalize (if NSEM ≤ s.nextsem + 1 then 0 else s.nextsem + 1) = next
      split
      · rename_i hfree
        constructor
        · exact fun i hi => upd_of_ne hi
        · intro _
          constructor
          · exact hfree
          · dsimp only
            rw [setSem_self]
      · exact ih (s.setNextsem next)

theorem semcreate_semStep {count : Int} (hQ : SemAs s sem Q) (hgood : ¬ isbadsem sem)
    (hO : Ok w g s) :
    SemStep sem Q (s.semOp sem (.call (.semcreate count))) (s.semcreate count) := by
  have hok := semcreate_ok hO count
  have hne : sem ≠ SYSERR := by
    intro he
    rw [he] at hgood
    exact hgood (Or.inl (by decide))
  have hother : ∀ i, i ≠ s.newsem.1 → s.newsem.2.semtab i = s.semtab i :=
    (newsemLoop_spec NSEM.toNat s).1
  have hfound : s.newsem.1 ≠ SYSERR → (s.semtab s.newsem.1).sstate = .free ∧
      (s.newsem.2.semtab s.newsem.1).sstate = .used := (newsemLoop_spec NSEM.toNat s).2
  unfold Xinu.semOp
  dsimp only
  unfold Xinu.semcreate at hok ⊢
  by_cases hcount : count < 0
  · rw [if_pos hcount, if_neg fun h => absurd h.1 (Int.not_le.mpr hcount)]
    exact semStep_ret hQ hgood hO _
  · rw [if_neg hcount] at hok ⊢
    dsimp only at hok ⊢
    by_cases hsem : s.newsem.1 = sem
    · have hnew : s.newsem.1 ≠ SYSERR := by
        rw [hsem]
        exact hne
      rw [if_pos ⟨Int.not_lt.mp hcount, hsem⟩]
      rw [if_neg hnew] at hok ⊢
      have hstate := hfound hnew
      have hfree : (s.semtab sem).sstate = .free := by
        rw [← hsem]
        exact hstate.1
      have hzero : Q.count = 0 := by
        rw [hQ.count]
        unfold Xinu.semCount
        rw [hfree, if_neg (by decide)]
      have hnil : g.lists (semq sem) = [] := by
        rw [← hO.inv.waiters_eq hgood, ← hQ.waiters]
        exact nil_of_nonneg (by omega)
      apply SemStep.reset hQ hgood hO hok hnil
      · intro p hp
        rw [hnil] at hp
        cases hp
      · unfold Xinu.semCount
        show (if (upd s.newsem.2.semtab s.newsem.1 _ sem).sstate = .used then
          (upd s.newsem.2.semtab s.newsem.1 _ sem).scount else 0) = _
        rw [← hsem, upd_self]
        dsimp only
        rw [if_pos hstate.2]
        exact (Int.toNat_of_nonneg (Int.not_lt.mp hcount)).symm
    · rw [if_neg fun h => hsem h.2]
      apply SemStep.keep hQ hgood hO hok rfl
      have hsame : s.newsem.2.semtab sem = s.semtab sem := hother sem (Ne.symm hsem)
      split
      · exact hsame
      · show upd s.newsem.2.semtab s.newsem.1 _ sem = _
        rw [upd_of_ne (Ne.symm hsem)]
        exact hsame

/-!
## The other calls
-/

theorem send_semtab (s : Xinu) (pid : Int) (msg : Nat) : (s.send pid msg).semtab = s.semtab := by
  unfold Xinu.send
  split
  · rfl
  · split
    · rfl
    · dsimp only
      split
      · rw [ready_semtab]
        rfl
      · split
        · rw [ready_semtab, unsleep_semtab]
          rfl
        · rfl

theorem create_semtab (s : Xinu) (ssize : Nat) (priority : Int) :
    (s.create ssize priority).semtab = s.semtab := by
  unfold Xinu.create
  dsimp only
  generalize s.mem.getstk _ _ = stk
  cases stk.1 with
  | none => rfl
  | some saddr =>
      dsimp only
      rcases newpidLoop_spec NPROC.toNat (s.setMem stk.2) with ⟨next, hnext, _⟩
      unfold Xinu.newpid
      rw [hnext]
      split
      · rfl
      · split
        · rfl
        · rfl

theorem kill_semtab (s : Xinu) (pid : Int) : (s.kill pid).semtab = s.semtab := by
  unfold Xinu.kill
  split
  · rfl
  · dsimp only
    split
    · rfl
    · rw [send_semtab]
      rfl

theorem suspend_semtab (s : Xinu) (pid : Int) : (s.suspend pid).semtab = s.semtab := by
  unfold Xinu.suspend
  split
  · rfl
  · split
    · rfl
    · dsimp only
      split
      · exact recordCpuqdata_semtab s _
      · rw [resched_semtab]
        exact recordCpuqdata_semtab s _

theorem chprio_semtab (s : Xinu) (pid newprio : Int) :
    (s.chprio pid newprio).semtab = s.semtab := by
  unfold Xinu.chprio
  split
  · rfl
  · dsimp only
    split
    · rfl
    · rfl

theorem resume_semtab (s : Xinu) (pid : Int) : (s.resume pid).semtab = s.semtab := by
  unfold Xinu.resume
  split
  · rfl
  · split
    · rfl
    · exact ready_semtab _ _

theorem receive_semtab (s : Xinu) : s.receive.semtab = s.semtab := by
  unfold Xinu.receive
  split
  · dsimp only
    rw [resched_semtab]
    exact recordCpuqdata_semtab _ _
  · rfl

theorem recvtimeEnd_semtab (s : Xinu) : s.recvtimeEnd.semtab = s.semtab := by
  unfold Xinu.recvtimeEnd
  split
  · rfl
  · rfl

theorem recvtime_semtab (s : Xinu) (maxwait : Int) :
    (s.recvtime maxwait).semtab = s.semtab := by
  unfold Xinu.recvtime
  split
  · rfl
  · split
    · dsimp only
      split
      · exact insertd_semtab _ _ _ _
      · rw [resched_semtab]
        show (Xinu.recordCpuqdata _ _).semtab = _
        rw [recordCpuqdata_semtab]
        exact insertd_semtab _ _ _ _
    · exact recvtimeEnd_semtab s

theorem recvclr_semtab (s : Xinu) : s.recvclr.semtab = s.semtab := by
  unfold Xinu.recvclr
  split
  · rfl
  · rfl

theorem sleepms_semtab (s : Xinu) (delay : Nat) : (s.sleepms delay).semtab = s.semtab := by
  unfold Xinu.sleepms
  split
  · exact resched_semtab _
  · dsimp only
    split
    · exact insertd_semtab _ _ _ _
    · rw [resched_semtab]
      show (Xinu.recordCpuqdata _ _).semtab = _
      rw [recordCpuqdata_semtab]
      exact insertd_semtab _ _ _ _

theorem sleep_semtab (s : Xinu) (delay : Nat) : (s.sleep delay).semtab = s.semtab := by
  unfold Xinu.sleep
  split
  · rfl
  · exact sleepms_semtab _ _

theorem clkAdvance_semtab (s : Xinu) : s.clkAdvance.semtab = s.semtab := by
  unfold Xinu.clkAdvance
  dsimp only
  split
  · rfl
  · rfl

theorem clkhandler_semtab (s : Xinu) : s.clkhandler.semtab = s.semtab := by
  unfold Xinu.clkhandler
  dsimp only
  split
  · split
    · unfold Xinu.wakeup
      dsimp only
      rw [reschedCntl_semtab, wakeupLoop_semtab, reschedCntl_semtab]
      exact clkAdvance_semtab s
    · rw [clkPreempt_semtab]
      exact clkAdvance_semtab s
  · rw [clkPreempt_semtab]
    exact clkAdvance_semtab s

/-- The calls of {lit}`semcreate.c` to {lit}`semdelete.c`. -/
def Call.onSemaphore : Call → Bool
  | .semcreate _ | .wait _ | .signal _ | .signaln _ _ | .semreset _ _ | .semdelete _ => true
  | _ => false

/-- A call on something else leaves semaphores and their queues alone. -/
theorem other_semStep {c : Call} (hQ : SemAs s sem Q) (hgood : ¬ isbadsem sem)
    (hP : Plain .plain g s) (henv : TableCalls s (.call c)) (hsem : c.onSemaphore = false) :
    SemStep sem Q (.signal 0) (s.call c) := by
  have hO := hP.good.ok
  have hfit := henv.fits_plain hP
  have hkeep : ∀ {g' : View}, Ok .plain g' (s.call c) →
      g'.lists (semq sem) = g.lists (semq sem) → (s.call c).semtab = s.semtab →
      SemStep sem Q (.signal 0) (s.call c) := by
    intro g' hO' hlists hsemtab
    exact .keep hQ hgood hO hO' hlists (congrFun hsemtab sem)
  have hsleepq : semq sem ≠ sleepq := semq_ne_sleepq hgood
  have hsleep : ∀ {blocks : Prop} {due : Int} {g' : View},
      g.MaySleep blocks s.currpid due g' → g'.lists (semq sem) = g.lists (semq sem) := by
    intro blocks due g' h
    rcases h with ⟨_, rfl⟩ | ⟨_, l₁, l₂, _, rfl⟩
    · rfl
    · exact upd_of_ne hsleepq
  rcases call_ok hP.good hfit with ⟨g', hmoves, hO'⟩
  cases c with
  | create ssize priority =>
      apply hkeep hO' _ (create_semtab s ssize priority)
      rcases hmoves with rfl | ⟨pid, _, _, rfl⟩
      · rfl
      · rfl
  | resume pid => exact hkeep (resume_ok hO pid) rfl (resume_semtab s pid)
  | suspend pid =>
      exact hkeep (suspend_ok hO hP.good.defers (hP.calm.limbo pid) hfit.2.2) rfl
        (suspend_semtab s pid)
  | kill pid =>
      apply hkeep hO' _ (kill_semtab s pid)
      rcases hmoves with rfl | ⟨_, rfl | rfl⟩
      · rfl
      · rfl
      · exact upd_of_ne hsleepq
  | chprio pid newprio =>
      exact hkeep (chprio_ok hO hfit.2) rfl (chprio_semtab s pid newprio)
  | yield => exact hkeep (yield_ok hO) rfl (resched_semtab _)
  | send pid msg =>
      apply hkeep hO' _ (send_semtab s pid msg)
      rcases hmoves with rfl | rfl
      · rfl
      · exact upd_of_ne hsleepq
  | receive =>
      exact hkeep (receive_ok hO hP.good.defers henv.2.2) rfl (receive_semtab s)
  | recvtime maxwait => exact hkeep hO' (hsleep hmoves) (recvtime_semtab s maxwait)
  | recvclr => exact hkeep (recvclr_ok hO) rfl (recvclr_semtab s)
  | sleepms delay => exact hkeep hO' (hsleep hmoves) (sleepms_semtab s delay)
  | sleep delay => exact hkeep hO' (hsleep hmoves) (sleep_semtab s delay)
  | clkhandler =>
      apply hkeep hO' _ (clkhandler_semtab s)
      rcases hmoves with ⟨l₁, l₂, _, _, _, rfl⟩
      exact upd_of_ne hsleepq
  | rwbcreate count => cases henv.1
  | rwbdelete rwb => cases henv.1
  | rwbreset rwb count => cases henv.1
  | rwbTryread rwb => cases henv.1
  | rwbTrywrite rwb => cases henv.1
  | signalrwb rwb => cases henv.1
  | setScheduler newval => cases henv.2.1
  | semcreate count => cases hsem
  | wait sem => cases hsem
  | signal sem => cases hsem
  | signaln sem count => cases hsem
  | semreset sem count => cases hsem
  | semdelete sem => cases hsem

/-!
## Frames
-/

theorem killUnlink_semtab (hflag : s.rwbflags p = 0) : (s.killUnlink p).semtab = s.semtab := by
  have hno : ¬ ((s.getitem p).rwbflags p ≠ 0 ∧ ((s.getitem p).proctab p).prsem < -1) :=
    fun h => h.1 hflag
  unfold Xinu.killUnlink
  dsimp only
  rw [if_neg hno]
  rfl

/-- {lit}`kill` gives a unit back in the name of a waiting victim. -/
theorem killState_semtab (hflag : s.rwbflags p = 0) :
    (s.killState p).semtab =
      if (s.proctab p).prstate = .wait ∧ ¬ (s.proctab p).prsem < -1 then
        upd s.semtab (s.proctab p).prsem
          { s.semtab (s.proctab p).prsem with
            scount := int32 ((s.semtab (s.proctab p).prsem).scount + 1) }
      else s.semtab := by
  unfold Xinu.killState
  cases hstate : (s.proctab p).prstate with
  | wait =>
      dsimp only
      by_cases hprsem : (s.proctab p).prsem < -1
      · rw [if_pos hprsem, if_neg fun h => h.2 hprsem, killUnlink_semtab]
        · rfl
        · exact upd_self
      · rw [if_neg hprsem, if_pos ⟨rfl, hprsem⟩, killUnlink_semtab]
        · rfl
        · exact hflag
  | ready =>
      rw [if_neg fun h => by cases h.1]
      exact killUnlink_semtab hflag
  | curr =>
      rw [if_neg fun h => by cases h.1]
      exact resched_semtab _
  | sleep =>
      rw [if_neg fun h => by cases h.1]
      exact unsleep_semtab s p
  | rectim =>
      rw [if_neg fun h => by cases h.1]
      exact unsleep_semtab s p
  | free => rw [if_neg fun h => by cases h.1]; rfl
  | recv => rw [if_neg fun h => by cases h.1]; rfl
  | susp => rw [if_neg fun h => by cases h.1]; rfl

theorem killSent_semtab (hflag : s.rwbflags p = 0) :
    (s.killSent p).semtab =
      if (s.proctab p).prstate = .wait ∧ ¬ (s.proctab p).prsem < -1 then
        upd s.semtab (s.proctab p).prsem
          { s.semtab (s.proctab p).prsem with
            scount := int32 ((s.semtab (s.proctab p).prsem).scount + 1) }
      else s.semtab := by
  unfold Xinu.killSent
  dsimp only
  generalize s.mem.freestk _ _ = m
  have hsemtab : (((s.setMem m).recordCpuqdata p).countFinished p).semtab = s.semtab :=
    recordCpuqdata_semtab _ _
  have hq : Quiet s (((s.setMem m).recordCpuqdata p).countFinished p) :=
    ((quiet_setMem s m).trans (quiet_recordCpuqdata _ _)).trans (quiet_countFinished _ _)
  generalize ((s.setMem m).recordCpuqdata p).countFinished p = s₁ at hq hsemtab ⊢
  rw [killState_semtab (by rw [hq.rwbflags]; exact hflag), hq.prstate, hq.prsem, hsemtab]

/-- A victim that waits leaves the queue of its semaphore. -/
theorem leave_semStep (hQ : SemAs s sem Q) (hgood : ¬ isbadsem sem) (hP : Plain .plain g s)
    (hwait : (s.proctab p).prstate = .wait) (hprsem : (s.proctab p).prsem = sem)
    (hO' : Ok .plain g' s')
    (hlists : g'.lists (semq sem) = (g.lists (semq sem)).erase p) (hdead : ¬ g'.live p)
    (hsemtab : s'.semtab = upd s.semtab sem
      { s.semtab sem with scount := int32 ((s.semtab sem).scount + 1) }) :
    SemStep sem Q (.leave p) s' := by
  have hO := hP.good.ok
  have hw : Q.waiters = g.lists (semq sem) := hQ.waiters.trans (hO.inv.waiters_eq hgood)
  have hmem : p ∈ Q.waiters := by
    have hlinked := Linked.mem (hP.calmState.linked p) (home_wait hwait)
    rw [hprsem, waitq_sem hgood, hO.inv.lists_eq _ (semq_ne_readylist hgood)] at hlinked
    rw [hw]
    exact hlinked
  have hneg : Q.count < 0 := count_neg_iff.mpr (List.ne_nil_of_mem hmem)
  have hused : (s.semtab sem).sstate = .used := by
    by_contra hfree
    rw [hQ.count] at hneg
    unfold Xinu.semCount at hneg
    rw [if_neg hfree] at hneg
    omega
  have hcount : Q.count = (s.semtab sem).scount := by
    rw [hQ.count]
    exact if_pos hused
  have hlow := hQ.low hO ⟨hgood, hused⟩
  have hint : int32 ((s.semtab sem).scount + 1) = (s.semtab sem).scount + 1 :=
    int32_eq (by omega) (by omega)
  rw [hint] at hsemtab
  refine ⟨⟨?_, ?_⟩, ?_, ?_⟩
  · show (if p ∈ Q.waiters then Q.count + 1 else Q.count) = _
    unfold Xinu.semCount
    rw [if_pos hmem, hsemtab, upd_self, if_pos (by exact hused), hcount]
  · show Q.waiters.erase p = _
    rw [hO'.inv.waiters_eq hgood, hlists, hw]
  · intro r hr
    cases hr
  · intro r hr
    change r ∈ (if p ∈ Q.waiters then [p] else []) at hr
    rw [if_pos hmem] at hr
    have hrp : r = p := List.mem_singleton.mp hr
    by_contra hlive
    rw [hrp] at hlive
    exact hdead ((hO'.inv.live p).mpr hlive)

theorem frame_semStep {f : Frame} {rest : List Frame} (hQ : SemAs s sem Q)
    (hgood : ¬ isbadsem sem) (hP : Plain .plain g s) (hs : s.stack s.currpid = f :: rest) :
    SemStep sem Q (s.semOp sem .cont) (s.pop.frame f) := by
  have hfit : Fits .plain s .cont := TableCalls.fits_plain trivial hP
  have hok := frame_ok hP.good hs hfit
  have hno : f.tracked = true → ∃ victim, f = .killSent victim := hP.tracked hs
  have hplain : s.victim = none → (g.popped s.currpid f).frameMove s f = g →
      (s.pop.frame f).semtab = s.semtab →
      SemStep sem Q (s.semOp sem .cont) (s.pop.frame f) := by
    intro hvictim hview hsemtab
    unfold Xinu.semOp
    dsimp only
    rw [hvictim]
    rw [hview] at hok
    exact .keep hQ hgood hP.good.ok hok rfl (congrFun hsemtab sem)
  have hvictim : ∀ {f'}, s.stack s.currpid = f' :: rest → (∀ v, f' ≠ .killSent v) →
      s.victim = none := by
    intro f' hf' hne
    unfold Xinu.victim
    rw [hf']
    cases f' with
    | killSent v => exact absurd rfl (hne v)
    | _ => rfl
  cases f with
  | ret value => exact hplain (hvictim hs fun v h => by cases h) rfl rfl
  | receive => exact hplain (hvictim hs fun v h => by cases h) rfl rfl
  | recvtime =>
      exact hplain (hvictim hs fun v h => by cases h) rfl (recvtimeEnd_semtab s.pop)
  | suspend pid => exact hplain (hvictim hs fun v h => by cases h) rfl rfl
  | clkPreempt =>
      exact hplain (hvictim hs fun v h => by cases h) rfl (clkPreempt_semtab s.pop)
  | killSignaled pid =>
      rcases hno rfl with ⟨victim, h⟩
      cases h
  | rwbWriter thisid rwb =>
      rcases hno rfl with ⟨victim, h⟩
      cases h
  | rwbReader thisid rwb =>
      rcases hno rfl with ⟨victim, h⟩
      cases h
  | killSent pid =>
      have hflag : s.pop.rwbflags pid = 0 := by
        show s.rwbflags pid = 0
        rw [hP.good.ok.inv.flags]
        exact hP.calm.flags pid
      have hsemtab := killSent_semtab hflag
      have hpopped : (g.popped s.currpid (.killSent pid)).lists = g.lists :=
        (popped_sleepers g s.currpid _).1
      have hwaits : (s.proctab pid).prstate = .wait → ¬ isbadsem (s.proctab pid).prsem :=
        hP.waits
      unfold Xinu.semOp
      dsimp only
      rw [Xinu.victim_eq hs]
      dsimp only
      by_cases hleave : (s.proctab pid).prstate = .wait ∧ (s.proctab pid).prsem = sem
      · have hpos : ¬ (s.proctab pid).prsem < -1 := by
          have hbad := hwaits hleave.1
          simp only [isbadsem, not_or, Int.not_lt] at hbad
          omega
        rw [hP.killSent_eq, hleave.1, hleave.2] at hok
        have hupd : (s.pop.killSent pid).semtab = upd s.semtab sem
            { s.semtab sem with scount := int32 ((s.semtab sem).scount + 1) } := by
          have hcond : (s.pop.proctab pid).prstate = .wait ∧
              ¬ (s.pop.proctab pid).prsem < -1 := ⟨hleave.1, hpos⟩
          have hsem : (s.pop.proctab pid).prsem = sem := hleave.2
          rw [hsemtab, if_pos hcond, hsem]
          rfl
        rw [if_pos hleave]
        apply leave_semStep hQ hgood hP hleave.1 hleave.2 hok _ _ hupd
        · show ((g.popped s.currpid _).unqueue (semq sem) pid).lists (semq sem) = _
          rw [View.unqueue_at, hpopped]
        · show ¬ upd _ pid False pid
          rw [upd_self]
          exact id
      · rw [if_neg hleave]
        have hother : ∀ q, q ≠ semq sem →
            ((g.popped s.currpid (.killSent pid)).unqueue q pid).lists (semq sem) =
              g.lists (semq sem) := by
          intro q hq
          show upd (g.popped s.currpid (.killSent pid)).lists q _ (semq sem) = _
          rw [upd_of_ne (Ne.symm hq), hpopped]
        rw [hP.killSent_eq] at hok
        apply SemStep.keep hQ hgood hP.good.ok hok
        · show ((g.popped s.currpid _).offQueue pid _ _).lists (semq sem) = _
          cases hstate : (s.proctab pid).prstate with
          | wait =>
              apply hother
              intro he
              exact hleave ⟨hstate, semq_inj he⟩
          | sleep => exact hother sleepq (semq_ne_sleepq hgood).symm
          | rectim => exact hother sleepq (semq_ne_sleepq hgood).symm
          | free => exact congrFun hpopped _
          | curr => exact congrFun hpopped _
          | ready => exact congrFun hpopped _
          | recv => exact congrFun hpopped _
          | susp => exact congrFun hpopped _
        · show (s.pop.killSent pid).semtab sem = _
          rw [hsemtab]
          split
          · rename_i hwait
            have hne : sem ≠ (s.pop.proctab pid).prsem := fun he =>
              hleave ⟨hwait.1, he.symm⟩
            rw [upd_of_ne hne]
            rfl
          · rfl

/-!
## Steps and runs
-/

/-- Any step without blockers and changes of the scheduler, with counts that fit
their fields. -/
def SemCalls (s : Xinu) (l : Label) : Prop := TableCalls s l ∧ CountsFit s l

instance (s : Xinu) (l : Label) : Decidable (SemCalls s l) :=
  inferInstanceAs (Decidable (_ ∧ _))

/-- Every semaphore is a counting queue. -/
structure SemsOk (g : View) (s : Xinu) : Prop where
  plain : Plain .plain g s
  queue : ∀ sem, ¬ isbadsem sem → ∃ Q, SemAs s sem Q

theorem SemsOk.semStep {l : Label} (h : SemsOk g s) (henv : SemCalls s l)
    (hstep : s.step l = some s') (hgood : ¬ isbadsem sem) (hQ : SemAs s sem Q) :
    SemStep sem Q (s.semOp sem l) s' := by
  have hP := h.plain
  have hO := hP.good.ok
  have hd := hP.good.defers
  have hsized : ∀ {i}, s.SemUsable i → g.Sized s i := by
    intro i hu
    rcases h.queue i hu.1 with ⟨Q', hQ'⟩
    exact hQ'.sized hO hu
  unfold Xinu.step at hstep
  split at hstep
  · cases hstep
  · split at hstep
    · rename_i c hs
      cases hstep
      cases hsem : c.onSemaphore with
      | false =>
          have hop : s.semOp sem (.call c) = .signal 0 := by
            cases c with
            | semcreate count => cases hsem
            | wait i => cases hsem
            | signal i => cases hsem
            | signaln i count => cases hsem
            | semreset i count => cases hsem
            | semdelete i => cases hsem
            | _ => rfl
          rw [hop]
          exact other_semStep hQ hgood hP henv.1 hsem
      | true =>
          cases c with
          | semcreate count => exact semcreate_semStep hQ hgood hO
          | wait i => exact wait_semStep hQ hgood hO hd henv.1.2.2 henv.2
          | signal i => exact signal_semStep hQ hsized hgood hO henv.2
          | signaln i count =>
              exact signaln_semStep hQ (fun hu => h.queue i hu.1) hgood hO hd henv.2
          | semreset i count => exact semreset_semStep hQ hgood hO hd
          | semdelete i => exact semdelete_semStep hQ hsized hgood hO hd
          | _ => cases hsem
    · rename_i f rest hs
      cases hstep
      exact frame_semStep hQ hgood hP hs
    · cases hstep

theorem SemsOk.step {l : Label} (h : SemsOk g s) (henv : SemCalls s l)
    (hstep : s.step l = some s') : ∃ g', g.Moves .plain s l g' s' ∧ SemsOk g' s' := by
  rcases h.plain.step henv.1 hstep with ⟨g', hmoves, hP'⟩
  refine ⟨g', hmoves, hP', ?_⟩
  intro sem hgood
  rcases h.queue sem hgood with ⟨Q, hQ⟩
  exact ⟨_, (h.semStep henv hstep hgood hQ).as⟩

theorem newqueue_semtab (s : Xinu) : s.newqueue.2.semtab = s.semtab := by
  unfold Xinu.newqueue
  dsimp only
  split
  · rfl
  · rfl

theorem initSems_free (n : Nat) (i : Int) (s : Xinu)
    (h : ∀ sem, (s.semtab sem).sstate = .free) (sem : Int) :
    ((Xinu.initSems n i s).semtab sem).sstate = .free := by
  induction n generalizing i s with
  | zero => exact h sem
  | succ n ih =>
      apply ih
      intro j
      show (upd s.newqueue.2.semtab i _ j).sstate = .free
      rw [upd_apply]
      split
      · rfl
      · rw [newqueue_semtab]
        exact h j

theorem initRwbs_semtab (n : Nat) (i : Int) (s : Xinu) :
    (Xinu.initRwbs n i s).semtab = s.semtab := by
  induction n generalizing i s with
  | zero => rfl
  | succ n ih => exact (ih _ _).trans (newqueue_semtab s)

theorem sysinit_free (mem : Mem) (rand : Nat → Nat) (sem : Int) :
    ((Xinu.sysinit mem rand).semtab sem).sstate = .free := by
  have hpreempt : ∀ s : Xinu, (s.setPreempt QUANTUM).semtab = s.semtab := fun _ => rfl
  have hnull : ∀ i, (((Xinu.image mem rand).initNull).semtab i).sstate = .free :=
    fun _ => rfl
  unfold Xinu.sysinit
  generalize (Xinu.image mem rand).initNull = s at hnull ⊢
  generalize NSEM.toNat = n
  dsimp only
  rw [hpreempt, newqueue_semtab, newqueue_semtab, newqueue_semtab, initRwbs_semtab]
  exact initSems_free n 0 s hnull sem

theorem SemsOk.boot (hs : Booted s) : ∃ g, SemsOk g s := by
  rcases hs with ⟨mem, rand, rfl⟩
  refine ⟨bootView, plain_sysinit .plain mem rand, ?_⟩
  · intro sem hgood
    refine ⟨idle 0, ?_, ?_⟩
    · unfold Xinu.semCount
      rw [sysinit_free, if_neg (by decide)]
      rfl
    · have hO := (sysinit_good .plain mem rand).ok
      exact (hO.inv.waiters_eq hgood).symm

end

end BbbXinu
