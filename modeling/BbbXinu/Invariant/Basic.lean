import BbbXinu.Queues.Spec
import BbbXinu.Kernel.Machine

/-!
# The kernel invariant

The process table says where a process is queued, and the queue table agrees.
The invariant is stated with a hole: one process may be in the hands of the
kernel, off every list whatever its table entry says.  Operations open the hole
when they take a process off a list and close it when they put it on the next.

What has to be followed through a run beside the tables is a {lit}`View`.  An
operation that leaves the view alone leaves the blockers, every queue but the
ready list, the kernel code that other processes still have to run, and the due
times of sleepers alone.
-/

namespace BbbXinu

open LinkedLists KeyedLists

/-!
## Homes
-/

/-- Queue of a semaphore, as {lit}`sysinit` allocates it. -/
def semq (sem : Int) : Int := NPROC + 2 * sem

/-- Queue of a blocker, as {lit}`sysinit` allocates it. -/
def rwq (rwb : Int) : Int := NPROC + 2 * NSEM + 2 * rwb

def ValidRwb (b : Int) : Prop := 0 ≤ b ∧ b < RWB_COUNT

instance (b : Int) : Decidable (ValidRwb b) :=
  inferInstanceAs (Decidable (_ ∧ _))

/-- The queue that {lit}`prsem` names. -/
def waitq (prsem : Int) : Int :=
  if prsem < -1 then rwq (-1 * (prsem + 2)) else semq prsem

/-- A process may wait on an existing semaphore or blocker. -/
def WaitsOn (prsem : Int) : Prop :=
  ¬ isbadsem prsem ∨ prsem < -1 ∧ ValidRwb (-1 * (prsem + 2))

/-- The queue that a process belongs on, going by its table entry. -/
def home (e : Procent) : Option Int :=
  match e.prstate with
  | .ready => some readylist
  | .sleep | .rectim => some sleepq
  | .wait => some (waitq e.prsem)
  | .free | .curr | .recv | .susp => none

theorem isQueue_semq {sem : Int} (h : ¬ isbadsem sem) : IsQueue (semq sem) := by
  simp only [isbadsem, NSEM, not_or, Int.not_le, Int.not_lt] at h
  simp only [IsQueue, semq, nproc_val, sleepq_val]
  omega

theorem isQueue_rwq {b : Int} (h : ValidRwb b) : IsQueue (rwq b) := by
  simp only [ValidRwb, RWB_COUNT] at h
  simp only [IsQueue, rwq, nproc_val, sleepq_val, NSEM]
  omega

theorem semq_ne_rwq {sem b : Int} (h : ¬ isbadsem sem) (hb : ValidRwb b) :
    semq sem ≠ rwq b := by
  simp only [isbadsem, NSEM, not_or, Int.not_le, Int.not_lt] at h
  simp only [ValidRwb] at hb
  simp only [rwq, semq, NSEM]
  omega

theorem semq_lt {sem : Int} (h : ¬ isbadsem sem) : semq sem < readylist := by
  simp only [isbadsem, NSEM, not_or, Int.not_le, Int.not_lt] at h
  simp only [semq, nproc_val, readylist_val]
  omega

theorem rwq_lt {b : Int} (h : ValidRwb b) : rwq b < readylist := by
  simp only [ValidRwb, RWB_COUNT] at h
  simp only [rwq, nproc_val, NSEM, readylist_val]
  omega

theorem rwq_inj {a b : Int} (h : rwq a = rwq b) : a = b := by
  simp only [rwq] at h
  omega

theorem rwq_ne_readylist {b : Int} (h : ValidRwb b) : rwq b ≠ readylist :=
  Int.ne_of_lt (rwq_lt h)

theorem rwq_ne_sleepq {b : Int} (h : ValidRwb b) : rwq b ≠ sleepq := by
  have h1 := rwq_lt h
  simp only [readylist_val, sleepq_val] at *
  omega

theorem rwq_ne_scratchlist {b : Int} (h : ValidRwb b) : rwq b ≠ scratchlist := by
  have h1 := rwq_lt h
  simp only [readylist_val, scratchlist_val] at *
  omega

theorem waitq_sem {sem : Int} (h : ¬ isbadsem sem) : waitq sem = semq sem := by
  simp only [isbadsem, not_or, Int.not_lt] at h
  unfold waitq
  rw [if_neg (by omega)]

theorem waitq_rwb {b : Int} (h : 0 ≤ b) : waitq (-1 * (b + 2)) = rwq b := by
  unfold waitq
  rw [if_pos (by omega)]
  congr 1
  omega

theorem home_ready {e : Procent} (h : e.prstate = .ready) : home e = some readylist := by
  unfold home
  rw [h]

theorem home_sleep {e : Procent} (h : e.prstate = .sleep ∨ e.prstate = .rectim) :
    home e = some sleepq := by
  unfold home
  rcases h with h | h <;> rw [h]

theorem home_wait {e : Procent} (h : e.prstate = .wait) : home e = some (waitq e.prsem) := by
  unfold home
  rw [h]

theorem home_curr {e : Procent} (h : e.prstate = .curr) : home e = none := by
  unfold home
  rw [h]

theorem home_susp {e : Procent} (h : e.prstate = .susp) : home e = none := by
  unfold home
  rw [h]

theorem home_recv {e : Procent} (h : e.prstate = .recv) : home e = none := by
  unfold home
  rw [h]

theorem home_free {e : Procent} (h : e.prstate = .free) : home e = none := by
  unfold home
  rw [h]

theorem home_congr {e e' : Procent} (h : e'.prstate = e.prstate) (hs : e'.prsem = e.prsem) :
    home e' = home e := by
  unfold home
  rw [h, hs]

/-!
## Views
-/

/-- Frames of {lit}`kill` and {lit}`_signalrwb`. -/
def Frame.tracked : Frame → Bool
  | .killSent _ | .killSignaled _ | .rwbWriter _ _ | .rwbReader _ _ => true
  | .ret _ | .receive | .recvtime | .suspend _ | .clkPreempt => false

/-- What is followed through a run: the live processes, ready ones that
{lit}`kill` has unlinked and not yet freed, waiting ones that {lit}`rwbreset`
dropped, due times of sleepers, the queues other than the ready list, the blockers with their
flags, the tracked frames of each process, and the outstanding deferrals. -/
structure View where
  live : Int → Prop
  limbo : Int → Prop
  lost : Int → Prop
  due : Int → Int
  lists : Int → List Int
  tab : Int → Rwbentry
  flags : Int → Int
  frames : Int → List Frame
  defers : Int

namespace View

variable (g : View)

def setLive (pid : Int) (alive : Prop) : View := { g with live := upd g.live pid alive }
def setLimbo (limbo : Int → Prop) : View := { g with limbo := limbo }
def setLost (lost : Int → Prop) : View := { g with lost := lost }
def setDue (due : Int → Int) : View := { g with due := due }
def setLists (lists : Int → List Int) : View := { g with lists := lists }
def setList (q : Int) (l : List Int) : View := g.setLists (upd g.lists q l)
def setFlag (pid flag : Int) : View := { g with flags := upd g.flags pid flag }
def setFrames (pid : Int) (fs : List Frame) : View :=
  { g with frames := upd g.frames pid fs }
def setDefers (n : Int) : View := { g with defers := n }
def setRwb (b : Int) (f : Rwbentry → Rwbentry) : View :=
  { g with tab := upd g.tab b (f (g.tab b)) }

end View

/-- The parts of the invariant that only hold under conditions on the run: the
ready count, the order of the ready list under the priority scheduler, and the
differences on the sleep queue. -/
structure Watch where
  count : Prop
  keys : Prop
  delays : Prop

/-- The tables agree, but for the process {lit}`x` in the hands of the kernel. -/
structure Inv (w : Watch) (g : View) (x : Int) (s : Xinu) : Prop where
  queues : Queues s.queuetab (lists s.queuetab)
  sentinels : Sentinels s.queuetab
  mem_iff : ∀ q p, p ∈ lists s.queuetab q ↔
    home (s.proctab p) = some q ∧ p ≠ x ∧ ¬ g.limbo p ∧ ¬ g.lost p
  home_queue : ∀ p q, home (s.proctab p) = some q → ValidPid p ∧ IsQueue q
  waits_on : ∀ p, (s.proctab p).prstate = .wait → WaitsOn (s.proctab p).prsem
  live : ∀ p, g.live p ↔ (s.proctab p).prstate ≠ .free
  limbo : ∀ p, g.limbo p → p ≠ x ∧ p ≠ NULLPROC ∧ (s.proctab p).prstate = .ready
  lost : ∀ p, g.lost p → p ≠ x ∧ (s.proctab p).prstate = .wait
  squeue : ∀ i, ¬ isbadsem i → (s.semtab i).squeue = semq i
  rwqueue : ∀ b, ValidRwb b → (s.rwbtab b).rwqueue = rwq b
  valid_curr : ValidPid s.currpid
  valid_nextrwb : ValidRwb s.nextrwb
  curr_unique : ∀ p, (s.proctab p).prstate = .curr → p = s.currpid
  null_state : (s.proctab NULLPROC).prstate = .curr ∨ (s.proctab NULLPROC).prstate = .ready
  lists_eq : ∀ q, q ≠ readylist → lists s.queuetab q = g.lists q
  tab : s.rwbtab = g.tab
  flags : s.rwbflags = g.flags
  frames : ∀ p, (s.stack p).filter Frame.tracked = g.frames p
  defers : s.defer.ndefers = g.defers
  count : w.count → s.readycount = (lists s.queuetab readylist).length
  scheduler : w.keys → s.envtab EV_SCHEDULER = QTYPE_PRIORITY
  descending : w.keys →
    Descending (fun p => (s.queuetab p).qkey) (lists s.queuetab readylist)
  keys : w.keys → ∀ p ∈ lists s.queuetab readylist,
    (s.queuetab p).qkey = (s.proctab p).prprio
  delta : w.delays →
    Delta (fun p => (s.queuetab p).qkey) g.due 0 (lists s.queuetab sleepq)

/-- The invariant while a process runs and nothing is in transit. -/
structure Ok (w : Watch) (g : View) (s : Xinu) : Prop where
  inv : Inv w g EMPTY s
  curr : (s.proctab s.currpid).prstate = .curr
  top : w.keys → (g.defers = 0 ∨ s.defer.attempt = false) →
    ∀ p ∈ lists s.queuetab readylist, (s.proctab p).prprio ≤ (s.proctab s.currpid).prprio

/-!
## Steps that the invariant does not see
-/

/-- The two states differ in nothing that the invariant reads. -/
structure Quiet (s s' : Xinu) : Prop where
  queuetab : s'.queuetab = s.queuetab
  prstate : ∀ p, (s'.proctab p).prstate = (s.proctab p).prstate
  prsem : ∀ p, (s'.proctab p).prsem = (s.proctab p).prsem
  prprio : ∀ p, (s'.proctab p).prprio = (s.proctab p).prprio
  squeue : ∀ i, (s'.semtab i).squeue = (s.semtab i).squeue
  rwbtab : s'.rwbtab = s.rwbtab
  rwbflags : s'.rwbflags = s.rwbflags
  frames : ∀ p, (s'.stack p).filter Frame.tracked = (s.stack p).filter Frame.tracked
  currpid : s'.currpid = s.currpid
  readycount : s'.readycount = s.readycount
  defer : s'.defer = s.defer
  scheduler : s'.envtab EV_SCHEDULER = s.envtab EV_SCHEDULER
  nextrwb : s'.nextrwb = s.nextrwb

section Quiet

variable {w : Watch} {g : View} {x : Int} {s s' s'' : Xinu}

theorem Quiet.refl (s : Xinu) : Quiet s s :=
  ⟨rfl, fun _ => rfl, fun _ => rfl, fun _ => rfl, fun _ => rfl, rfl, rfl, fun _ => rfl,
    rfl, rfl, rfl, rfl, rfl⟩

theorem Quiet.trans (h : Quiet s s') (h' : Quiet s' s'') : Quiet s s'' where
  queuetab := h'.queuetab.trans h.queuetab
  prstate := fun p => (h'.prstate p).trans (h.prstate p)
  prsem := fun p => (h'.prsem p).trans (h.prsem p)
  prprio := fun p => (h'.prprio p).trans (h.prprio p)
  squeue := fun i => (h'.squeue i).trans (h.squeue i)
  rwbtab := h'.rwbtab.trans h.rwbtab
  rwbflags := h'.rwbflags.trans h.rwbflags
  frames := fun p => (h'.frames p).trans (h.frames p)
  currpid := h'.currpid.trans h.currpid
  readycount := h'.readycount.trans h.readycount
  defer := h'.defer.trans h.defer
  scheduler := h'.scheduler.trans h.scheduler
  nextrwb := h'.nextrwb.trans h.nextrwb

theorem Quiet.home (h : Quiet s s') (p : Int) : home (s'.proctab p) = home (s.proctab p) :=
  home_congr (h.prstate p) (h.prsem p)

theorem Inv.quiet (hI : Inv w g x s) (h : Quiet s s') : Inv w g x s' where
  queues := by
    rw [h.queuetab]
    exact hI.queues
  sentinels := by
    rw [h.queuetab]
    exact hI.sentinels
  mem_iff := fun q p => by
    rw [h.queuetab, h.home]
    exact hI.mem_iff q p
  home_queue := fun p q hp => hI.home_queue p q (h.home p ▸ hp)
  waits_on := fun p hp => by
    rw [h.prsem]
    exact hI.waits_on p (h.prstate p ▸ hp)
  live := fun p => by
    rw [h.prstate]
    exact hI.live p
  limbo := fun p hp => by
    rw [h.prstate]
    exact hI.limbo p hp
  lost := fun p hp => by
    rw [h.prstate]
    exact hI.lost p hp
  squeue := fun i hi => by
    rw [h.squeue]
    exact hI.squeue i hi
  rwqueue := fun b hb => by
    rw [h.rwbtab]
    exact hI.rwqueue b hb
  valid_curr := by
    rw [h.currpid]
    exact hI.valid_curr
  valid_nextrwb := by
    rw [h.nextrwb]
    exact hI.valid_nextrwb
  curr_unique := fun p hp => by
    rw [h.currpid]
    exact hI.curr_unique p (h.prstate p ▸ hp)
  null_state := by
    rw [h.prstate]
    exact hI.null_state
  lists_eq := by
    rw [h.queuetab]
    exact hI.lists_eq
  tab := h.rwbtab.trans hI.tab
  flags := h.rwbflags.trans hI.flags
  frames := fun p => (h.frames p).trans (hI.frames p)
  defers := by
    rw [h.defer]
    exact hI.defers
  count := by
    rw [h.queuetab, h.readycount]
    exact hI.count
  scheduler := by
    rw [h.scheduler]
    exact hI.scheduler
  descending := by
    rw [h.queuetab]
    exact hI.descending
  keys := fun hw p hp => by
    rw [h.queuetab] at hp ⊢
    rw [h.prprio]
    exact hI.keys hw p hp
  delta := by
    rw [h.queuetab]
    exact hI.delta

theorem Ok.quiet (hO : Ok w g s) (h : Quiet s s') : Ok w g s' where
  inv := hO.inv.quiet h
  curr := by
    rw [h.currpid, h.prstate]
    exact hO.curr
  top := fun hw ht p hp => by
    rw [h.queuetab] at hp
    rw [h.prprio, h.currpid, h.prprio]
    exact hO.top hw (h.defer ▸ ht) p hp

theorem quiet_ret (s : Xinu) (v : Int) : Quiet s (s.ret v) :=
  ⟨rfl, fun _ => rfl, fun _ => rfl, fun _ => rfl, fun _ => rfl, rfl, rfl, fun _ => rfl,
    rfl, rfl, rfl, rfl, rfl⟩

/-- A frame that is not tracked. -/
theorem quiet_push (s : Xinu) {f : Frame} (hf : f.tracked = false) : Quiet s (s.push f) where
  queuetab := rfl
  prstate := fun _ => rfl
  prsem := fun _ => rfl
  prprio := fun _ => rfl
  squeue := fun _ => rfl
  rwbtab := rfl
  rwbflags := rfl
  frames := fun p => by
    show (upd s.stack s.currpid (f :: s.stack s.currpid) p).filter Frame.tracked = _
    rw [upd_apply]
    split
    · rename_i hp
      rw [List.filter_cons_of_neg (by simp [hf]), hp]
    · rfl
  currpid := rfl
  readycount := rfl
  defer := rfl
  scheduler := rfl
  nextrwb := rfl

/-- Updates of fields of a process that the invariant does not read. -/
theorem quiet_setProc (s : Xinu) (pid : Int) {f : Procent → Procent}
    (h₁ : ∀ e, (f e).prstate = e.prstate) (h₂ : ∀ e, (f e).prsem = e.prsem)
    (h₃ : ∀ e, (f e).prprio = e.prprio) : Quiet s (s.setProc pid f) := by
  have hproj : ∀ {α : Type} (h : Procent → α), (∀ e, h (f e) = h e) → ∀ p,
      h ((s.setProc pid f).proctab p) = h (s.proctab p) := by
    intro α h hh p
    show h (upd s.proctab pid (f (s.proctab pid)) p) = _
    rw [upd_apply]
    split
    · rename_i hp
      rw [hh, hp]
    · rfl
  exact ⟨rfl, hproj _ h₁, hproj _ h₂, hproj _ h₃, fun _ => rfl, rfl, rfl, fun _ => rfl,
    rfl, rfl, rfl, rfl, rfl⟩

theorem quiet_setSem (s : Xinu) (i : Int) {f : Sentry → Sentry}
    (hf : ∀ e, (f e).squeue = e.squeue) : Quiet s (s.setSem i f) where
  queuetab := rfl
  prstate := fun _ => rfl
  prsem := fun _ => rfl
  prprio := fun _ => rfl
  squeue := fun j => by
    show (upd s.semtab i (f (s.semtab i)) j).squeue = _
    rw [upd_apply]
    split
    · rename_i hj
      rw [hf, hj]
    · rfl
  rwbtab := rfl
  rwbflags := rfl
  frames := fun _ => rfl
  currpid := rfl
  readycount := rfl
  defer := rfl
  scheduler := rfl
  nextrwb := rfl

theorem quiet_recordCpuqdata (s : Xinu) (pid : Int) : Quiet s (s.recordCpuqdata pid) := by
  unfold Xinu.recordCpuqdata
  split
  · split
    · exact Quiet.refl s
    · dsimp only
      refine Quiet.trans ?_ (quiet_setProc _ pid (fun _ => rfl) (fun _ => rfl) (fun _ => rfl))
      split
      · refine Quiet.trans ?_
          (quiet_setProc _ pid (fun _ => rfl) (fun _ => rfl) (fun _ => rfl))
        split
        · exact ⟨rfl, fun _ => rfl, fun _ => rfl, fun _ => rfl, fun _ => rfl, rfl, rfl,
            fun _ => rfl, rfl, rfl, rfl, rfl, rfl⟩
        · exact Quiet.refl s
      · exact Quiet.refl s
  · exact Quiet.refl s

theorem quiet_takeRand (s : Xinu) : Quiet s s.takeRand.2 :=
  ⟨rfl, fun _ => rfl, fun _ => rfl, fun _ => rfl, fun _ => rfl, rfl, rfl, fun _ => rfl,
    rfl, rfl, rfl, rfl, rfl⟩

theorem quiet_setprio (s : Xinu) (pid : Int) : Quiet s (s.setprio pid).2 := by
  unfold Xinu.setprio
  split
  · exact Quiet.refl s
  · split
    · exact Quiet.refl s
    · split
      · exact quiet_recordCpuqdata s pid
      · split
        · exact quiet_takeRand s
        · split
          · exact Quiet.refl s
          · exact Quiet.refl s

/-- Priorities that {lit}`setprio` computes are not negative. -/
theorem setprio_nonneg {pid : Int} (h : ¬ s.isbadpid pid) : 0 ≤ (s.setprio pid).1 := by
  unfold Xinu.setprio
  rw [if_neg h]
  repeat' split
  all_goals dsimp only
  all_goals omega

end Quiet

end BbbXinu
