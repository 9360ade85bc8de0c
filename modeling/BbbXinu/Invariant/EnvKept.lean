import BbbXinu.Invariant.CallKept

/-!
# The environment

No call but {lit}`set_scheduler` changes an environment variable.
-/

namespace BbbXinu

section

variable {s : Xinu} {pid rwb thisid : Int}

/-!
## Blockers
-/

theorem newrwb_envtab (n : Nat) (s : Xinu) : (Xinu.newrwbLoop n s).2.envtab = s.envtab := by
  induction n generalizing s with
  | zero => rfl
  | succ n ih =>
      unfold Xinu.newrwbLoop
      dsimp only
      generalize (if RWB_COUNT ≤ s.nextrwb + 1 then (0 : Int) else s.nextrwb + 1) = next
      split
      · rfl
      · exact ih _

theorem rwbcreate_envtab (s : Xinu) (count : Int) : (s.rwbcreate count).envtab = s.envtab := by
  unfold Xinu.rwbcreate
  split
  · rfl
  · dsimp only
    split
    · exact newrwb_envtab _ s
    · exact newrwb_envtab _ s

theorem rwbdeleteLoop_envtab (rwb : Int) (n : Nat) (s : Xinu) :
    (Xinu.rwbdeleteLoop rwb n s).envtab = s.envtab := by
  induction n generalizing s with
  | zero => rfl
  | succ n ih =>
      unfold Xinu.rwbdeleteLoop
      dsimp only
      rw [ih]
      split
      · exact (kept_getfirst _ _).envtab
      · exact (kept_ready _ _).envtab.trans (kept_getfirst _ _).envtab

theorem rwbdelete_envtab (s : Xinu) (rwb : Int) : (s.rwbdelete rwb).envtab = s.envtab := by
  unfold Xinu.rwbdelete
  split
  · rfl
  · split
    · rfl
    · dsimp only
      rw [(kept_deferStop _).envtab]
      exact rwbdeleteLoop_envtab rwb _ _

theorem rwbresetLoop_envtab (rwb q : Int) (n : Nat) (s : Xinu) :
    (Xinu.rwbresetLoop rwb q n s).2.envtab = s.envtab := by
  induction n generalizing s with
  | zero => rfl
  | succ n ih =>
      unfold Xinu.rwbresetLoop
      dsimp only
      split
      · exact (kept_getfirst _ _).envtab
      · rw [ih]
        exact (kept_getfirst s q).envtab

theorem rwbreset_envtab (s : Xinu) (rwb count : Int) :
    (s.rwbreset rwb count).envtab = s.envtab := by
  unfold Xinu.rwbreset
  split
  · rfl
  · dsimp only
    rw [(kept_deferStop _).envtab]
    split
    · exact rwbresetLoop_envtab rwb _ _ _
    · exact (kept_ready _ _).envtab.trans (rwbresetLoop_envtab rwb _ _ _)

theorem rwbBlock_envtab (s : Xinu) (rwb : Int) : (s.rwbBlock rwb).envtab = s.envtab := by
  unfold Xinu.rwbBlock
  dsimp only
  rw [(kept_resched _).envtab, (kept_enqueue _ _ _).envtab]
  exact (kept_recordCpuqdata _ _).envtab

theorem rwbTrywrite_envtab (s : Xinu) (rwb : Int) : (s.rwbTrywrite rwb).envtab = s.envtab := by
  unfold Xinu.rwbTrywrite
  split
  · rfl
  · split
    · rfl
    · dsimp only
      split
      · exact rwbBlock_envtab _ rwb
      · rfl

theorem rwbTryread_envtab (s : Xinu) (rwb : Int) : (s.rwbTryread rwb).envtab = s.envtab := by
  unfold Xinu.rwbTryread
  split
  · rfl
  · split
    · rfl
    · dsimp only
      split
      · exact rwbBlock_envtab _ rwb
      · rfl

theorem signalrwbRelease_envtab (s : Xinu) (rwb : Int) (after : Frame) :
    (s.signalrwbRelease rwb after).envtab = s.envtab := by
  unfold Xinu.signalrwbRelease
  dsimp only
  rw [(kept_ready _ _).envtab]
  exact (kept_dequeue _ _).envtab

theorem signalrwbReaders_envtab (s : Xinu) (thisid rwb next : Int) :
    (s.signalrwbReaders thisid rwb next).envtab = s.envtab := by
  unfold Xinu.signalrwbReaders
  split
  · exact signalrwbRelease_envtab s rwb _
  · rfl

theorem signalrwbNext_envtab (s : Xinu) (thisid rwb : Int) :
    (s.signalrwbNext thisid rwb).envtab = s.envtab := by
  unfold Xinu.signalrwbNext
  split
  · rfl
  · dsimp only
    split
    · rfl
    · split
      · split
        · exact signalrwbRelease_envtab s rwb _
        · rfl
      · exact signalrwbReaders_envtab s thisid rwb _

theorem _signalrwb_envtab (s : Xinu) (thisid rwb : Int) :
    (s._signalrwb thisid rwb).envtab = s.envtab := by
  unfold Xinu._signalrwb
  split
  · rfl
  · split
    · rfl
    · dsimp only
      split
      · rfl
      · exact signalrwbNext_envtab _ thisid rwb

/-!
## Processes and messages
-/

theorem create_envtab (s : Xinu) (ssize : Nat) (priority : Int) :
    (s.create ssize priority).envtab = s.envtab := by
  rcases create_cases s ssize priority with ⟨next, heq⟩ | ⟨next, pid, saddr, _, _, _, heq⟩
  · rw [heq]
    rfl
  · rw [heq]
    rfl

theorem send_envtab (s : Xinu) (pid : Int) (msg : Nat) : (s.send pid msg).envtab = s.envtab := by
  unfold Xinu.send
  split
  · rfl
  · split
    · rfl
    · dsimp only
      split
      · exact (kept_ready _ _).envtab
      · split
        · exact (kept_ready _ _).envtab.trans (kept_unsleep _ _).envtab
        · rfl

theorem receive_envtab (s : Xinu) : s.receive.envtab = s.envtab := by
  unfold Xinu.receive
  split
  · dsimp only
    rw [(kept_resched _).envtab]
    exact (kept_recordCpuqdata _ _).envtab
  · rfl

theorem recvtimeEnd_envtab (s : Xinu) : s.recvtimeEnd.envtab = s.envtab := by
  unfold Xinu.recvtimeEnd
  split <;> rfl

theorem recvtime_envtab (s : Xinu) (maxwait : Int) : (s.recvtime maxwait).envtab = s.envtab := by
  unfold Xinu.recvtime
  split
  · rfl
  · split
    · dsimp only
      split
      · exact (kept_insertd _ _ _ _).envtab
      · rw [(kept_resched _).envtab]
        exact (kept_recordCpuqdata _ _).envtab.trans (kept_insertd _ _ _ _).envtab
    · exact recvtimeEnd_envtab s

theorem recvclr_envtab (s : Xinu) : s.recvclr.envtab = s.envtab := by
  unfold Xinu.recvclr
  split <;> rfl

theorem clkPreempt_envtab (s : Xinu) : s.clkPreempt.envtab = s.envtab := by
  unfold Xinu.clkPreempt
  dsimp only
  split
  · exact (kept_resched _).envtab
  · rfl

theorem killUnlink_envtab (s : Xinu) (pid : Int) : (s.killUnlink pid).envtab = s.envtab := by
  unfold Xinu.killUnlink
  dsimp only
  split
  · rw [_signalrwb_envtab]
    exact (kept_getitem s pid).envtab
  · exact (kept_getitem s pid).envtab

theorem killState_envtab (s : Xinu) (pid : Int) : (s.killState pid).envtab = s.envtab := by
  unfold Xinu.killState
  split
  · exact (kept_resched _).envtab
  · exact (kept_unsleep s pid).envtab
  · exact (kept_unsleep s pid).envtab
  · dsimp only
    rw [killUnlink_envtab]
    split <;> rfl
  · exact killUnlink_envtab s pid
  · rfl
  · rfl
  · rfl

theorem killSent_envtab (s : Xinu) (pid : Int) : (s.killSent pid).envtab = s.envtab := by
  unfold Xinu.killSent
  dsimp only
  rw [killState_envtab]
  exact (kept_recordCpuqdata _ pid).envtab

theorem kill_envtab (s : Xinu) (pid : Int) : (s.kill pid).envtab = s.envtab := by
  unfold Xinu.kill
  split
  · rfl
  · dsimp only
    split
    · rfl
    · exact send_envtab _ _ _

/-!
## Steps
-/

theorem call_envtab (s : Xinu) {a : Call} (h : ∀ n, a ≠ .setScheduler n) :
    (s.call a).envtab = s.envtab := by
  cases a with
  | create ssize priority => exact create_envtab s ssize priority
  | kill pid => exact kill_envtab s pid
  | send pid msg => exact send_envtab s pid msg
  | receive => exact receive_envtab s
  | recvtime maxwait => exact recvtime_envtab s maxwait
  | recvclr => exact recvclr_envtab s
  | rwbcreate count => exact rwbcreate_envtab s count
  | rwbdelete rwb => exact rwbdelete_envtab s rwb
  | rwbreset rwb count => exact rwbreset_envtab s rwb count
  | rwbTryread rwb => exact rwbTryread_envtab s rwb
  | rwbTrywrite rwb => exact rwbTrywrite_envtab s rwb
  | signalrwb rwb => exact _signalrwb_envtab s s.currpid rwb
  | setScheduler newval => exact absurd rfl (h newval)
  | _ => exact (call_aside (by rfl)).envtab

theorem frame_envtab (s : Xinu) (f : Frame) : (s.frame f).envtab = s.envtab := by
  cases f with
  | ret value => rfl
  | receive => rfl
  | recvtime => exact recvtimeEnd_envtab s
  | suspend pid => rfl
  | killSent pid => exact killSent_envtab s pid
  | killSignaled pid => rfl
  | rwbWriter thisid rwb => rfl
  | rwbReader thisid rwb => exact signalrwbReaders_envtab _ thisid rwb _
  | clkPreempt => exact clkPreempt_envtab s

/-- A step that is not {lit}`set_scheduler` leaves the environment as it is. -/
theorem step_envtab {s' : Xinu} {l : Label} (h : ∀ n, l ≠ .call (.setScheduler n))
    (hstep : s.step l = some s') : s'.envtab = s.envtab := by
  unfold Xinu.step at hstep
  split at hstep
  · cases hstep
  · split at hstep
    · cases hstep
      exact call_envtab s fun n hn => h n (by rw [hn])
    · cases hstep
      exact frame_envtab _ _
    · cases hstep

/-!
## Switching the scheduler
-/

theorem setSchedulerRound_envtab (s : Xinu) : s.setSchedulerRound.envtab = s.envtab := by
  unfold Xinu.setSchedulerRound
  dsimp only
  split
  · exact (kept_dequeue s readylist).envtab
  · show (Xinu.insert _ _ _ _).envtab = _
    rw [(kept_insert _ _ _ _).envtab]
    exact (kept_setprio _ _).envtab.trans (kept_dequeue s readylist).envtab

theorem setSchedulerLoop_envtab (n : Nat) (s : Xinu) :
    (Xinu.setSchedulerLoop n s).envtab = s.envtab := by
  induction n generalizing s with
  | zero => rfl
  | succ n ih =>
      unfold Xinu.setSchedulerLoop
      rw [ih]
      exact setSchedulerRound_envtab s

theorem copyqueue_envtab (s : Xinu) (srcq destq : Int) :
    (s.copyqueue srcq destq).envtab = s.envtab := by
  have hdrain : ∀ n (s : Xinu), (Xinu.drainQueue destq n s).envtab = s.envtab := by
    intro n
    induction n with
    | zero => exact fun s => rfl
    | succ n ih =>
        intro s
        unfold Xinu.drainQueue
        split
        · rfl
        · rw [ih]
          exact (kept_dequeue s destq).envtab
  exact hdrain Xinu.queueFuel s

theorem kept_recordAll (pids : List Int) (s : Xinu) : Kept s (Xinu.recordAll pids s) := by
  induction pids generalizing s with
  | nil => exact .refl s
  | cons i rest ih =>
      unfold Xinu.recordAll
      apply Kept.trans _ (ih _)
      split
      · exact kept_recordCpuqdata s i
      · exact .refl s

/-- {lit}`set_scheduler` sets the variable unless the scratch list is in use. -/
theorem setScheduler_envtab (s : Xinu) (newval : Nat) :
    (s.setScheduler newval).envtab =
      if s.isempty scratchlist then upd s.envtab EV_SCHEDULER newval else s.envtab := by
  unfold Xinu.setScheduler
  by_cases h : s.isempty scratchlist
  · rw [if_neg (not_not_intro h), if_pos h]
    dsimp only
    have hcopy : ((Xinu.setSchedulerLoop (s.setEnv EV_SCHEDULER newval).readycount
        (s.setEnv EV_SCHEDULER newval)).copyqueue scratchlist readylist).envtab =
          upd s.envtab EV_SCHEDULER newval :=
      (copyqueue_envtab _ _ _).trans (setSchedulerLoop_envtab _ _)
    generalize Xinu.copyqueue _ scratchlist readylist = copied at hcopy ⊢
    split
    · split
      · have hrecord := (kept_recordAll Xinu.allPids copied).envtab
        generalize Xinu.recordAll Xinu.allPids copied = recorded at hrecord ⊢
        exact hrecord.trans hcopy
      · exact hcopy
    · rfl
  · rw [if_pos h, if_neg h]
    rfl

end

end BbbXinu
