import BbbXinu.Lib.Deferrals
import BbbXinu.Properties.Calm

/-!
# Deferred rescheduling

The routines that attempt to reschedule are run with a log of every moment at
which {lit}`resched_cntl` or {lit}`resched` is called.
-/

namespace BbbXinu

open Deferrals

/-!
## Watching the calls
-/

/-- A call of {lit}`resched_cntl` or {lit}`resched`, with the states around it. -/
structure Moment where
  event : Event
  before : Xinu
  after : Xinu

/-- The kernel with the moments so far. -/
structure Watched where
  now : Xinu
  log : List Moment

/-- The part of {lit}`ready` before {lit}`resched`. -/
def Xinu.enterReady (s : Xinu) (pid : Int) : Xinu :=
  let s := s.recordCpuqdata pid
  let s := s.setProc pid fun e => { e with prstate := .ready }
  let s := s.setReadycount (uint16 (s.readycount + 1))
  let r := s.setprio pid
  let s := r.2.setProc pid fun e => { e with prprio := r.1 }
  s.insert pid readylist (s.proctab pid).prprio

namespace Watched

def note (w : Watched) (event : Event) (f : Xinu → Xinu) : Watched where
  now := f w.now
  log := w.log ++ [{ event := event, before := w.now, after := f w.now }]

def tap (w : Watched) (f : Xinu → Xinu) : Watched := { w with now := f w.now }

def deferStart (w : Watched) : Watched := w.note .start Xinu.deferStart

def deferStop (w : Watched) : Watched := w.note .stop Xinu.deferStop

def ready (w : Watched) (pid : Int) : Watched :=
  if w.now.isbadpid pid then w
  else (w.tap fun s => s.enterReady pid).note .attempt Xinu.resched

def readyDequeue (w : Watched) (q : Int) : Watched :=
  (w.tap fun s => (s.dequeue q).2).ready (w.now.dequeue q).1

def wakeupLoop : Nat → Watched → Watched
  | 0, w => w
  | fuel + 1, w =>
      if w.now.nonempty sleepq ∧ w.now.firstkey sleepq ≤ 0 then
        wakeupLoop fuel (w.readyDequeue sleepq)
      else w

def wakeup (w : Watched) : Watched := (wakeupLoop Xinu.queueFuel w.deferStart).deferStop

def signalnLoop (sem : Int) : Nat → Watched → Watched
  | 0, w => w
  | count + 1, w =>
      let scount := (w.now.semtab sem).scount
      let w := w.tap fun s => s.setSem sem fun e => { e with scount := int32 (e.scount + 1) }
      let w := if scount < 0 then w.readyDequeue (w.now.semtab sem).squeue else w
      signalnLoop sem count w

def signaln (w : Watched) (sem count : Int) : Watched :=
  if isbadsem sem ∨ count < 0 then w.tap fun s => s.ret SYSERR
  else if (w.now.semtab sem).sstate = .free then w.tap fun s => s.ret SYSERR
  else
    let w := (w.tap fun s => s.push (.ret OK)).deferStart
    (signalnLoop sem count.toNat w).deferStop

def readyAll (q : Int) : Nat → Watched → Watched
  | 0, w => w
  | fuel + 1, w =>
      let pid := (w.now.getfirst q).1
      let w := w.tap fun s => (s.getfirst q).2
      if pid = EMPTY then w else readyAll q fuel (w.ready pid)

def semreset (w : Watched) (sem count : Int) : Watched :=
  if count < 0 ∨ isbadsem sem ∨ (w.now.semtab sem).sstate = .free then
    w.tap fun s => s.ret SYSERR
  else
    let w := w.tap fun s => s.push (.ret OK)
    let semqueue := (w.now.semtab sem).squeue
    let w := readyAll semqueue Xinu.queueFuel w.deferStart
    let w := w.tap fun s => s.setSem sem fun e => { e with scount := count }
    w.deferStop

end Watched

/-- {lit}`resched_cntl` and the routines that attempt to reschedule. -/
inductive DeferCall where
  | start
  | stop
  | ready (pid : Int)
  | wakeup
  | semreset (sem count : Int)
  | signaln (sem count : Int)

def DeferCall.run : DeferCall → Xinu → Xinu
  | .start, s => s.reschedCntl DEFER_START
  | .stop, s => s.reschedCntl DEFER_STOP
  | .ready pid, s => s.ready pid
  | .wakeup, s => s.wakeup
  | .semreset sem count, s => s.semreset sem count
  | .signaln sem count, s => s.signaln sem count

def DeferCall.watch : DeferCall → Watched → Watched
  | .start, w => w.deferStart
  | .stop, w => w.deferStop
  | .ready pid, w => w.ready pid
  | .wakeup, w => w.wakeup
  | .semreset sem count, w => w.semreset sem count
  | .signaln sem count, w => w.signaln sem count

/-- The calls one after the other. -/
def watchAll (s : Xinu) (calls : List DeferCall) : Watched :=
  calls.foldl (fun w c => c.watch w) { now := s, log := [] }

/-!
## Watching changes nothing
-/

section

variable {w : Watched} {s : Xinu}

theorem Watched.ready_now (w : Watched) (pid : Int) : (w.ready pid).now = w.now.ready pid := by
  unfold Watched.ready Xinu.ready
  split <;> rfl

theorem Watched.readyDequeue_now (w : Watched) (q : Int) :
    (w.readyDequeue q).now = w.now.readyDequeue q :=
  Watched.ready_now _ _

theorem Watched.wakeupLoop_now (fuel : Nat) (w : Watched) :
    (wakeupLoop fuel w).now = Xinu.wakeupLoop fuel w.now := by
  induction fuel generalizing w with
  | zero => rfl
  | succ fuel ih =>
      unfold Watched.wakeupLoop Xinu.wakeupLoop
      split
      · rw [ih, Watched.readyDequeue_now]
      · rfl

theorem Watched.signalnLoop_now (sem : Int) (n : Nat) (w : Watched) :
    (signalnLoop sem n w).now = Xinu.signalnLoop sem n w.now := by
  induction n generalizing w with
  | zero => rfl
  | succ n ih =>
      unfold Watched.signalnLoop Xinu.signalnLoop
      dsimp only
      rw [ih]
      congr 1
      split
      · exact Watched.readyDequeue_now _ _
      · rfl

theorem Watched.readyAll_now (q : Int) (fuel : Nat) (w : Watched) :
    (readyAll q fuel w).now = Xinu.readyAll q fuel w.now := by
  induction fuel generalizing w with
  | zero => rfl
  | succ fuel ih =>
      unfold Watched.readyAll Xinu.readyAll
      dsimp only
      split
      · rfl
      · rw [ih, Watched.ready_now]
        rfl

theorem DeferCall.watch_now (c : DeferCall) (w : Watched) : (c.watch w).now = c.run w.now := by
  cases c with
  | start => rfl
  | stop => rfl
  | ready pid => exact w.ready_now pid
  | wakeup => exact congrArg Xinu.deferStop (Watched.wakeupLoop_now _ _)
  | semreset sem count =>
      unfold DeferCall.watch DeferCall.run Watched.semreset Xinu.semreset
      dsimp only
      split
      · rfl
      · have hloop := Watched.readyAll_now ((w.now.push (.ret OK)).semtab sem).squeue
          Xinu.queueFuel (w.tap fun s => s.push (.ret OK)).deferStart
        exact congrArg (fun s : Xinu =>
          (s.setSem sem fun e => { e with scount := count }).deferStop) hloop
  | signaln sem count =>
      unfold DeferCall.watch DeferCall.run Watched.signaln Xinu.signaln
      dsimp only
      split
      · rfl
      · split
        · rfl
        · exact congrArg Xinu.deferStop (Watched.signalnLoop_now _ _ _)

theorem watchAll_now (s : Xinu) (calls : List DeferCall) :
    (watchAll s calls).now = calls.foldl (fun s c => c.run s) s := by
  have hfold : ∀ w : Watched, (calls.foldl (fun w c => c.watch w) w).now =
      calls.foldl (fun s c => c.run s) w.now := by
    induction calls with
    | nil => exact fun w => rfl
    | cons c calls ih =>
        intro w
        rw [List.foldl_cons, List.foldl_cons, ih, c.watch_now]
  exact hfold _

end

/-!
## Discipline
-/

def events (log : List Moment) : List Event := log.map Moment.event

/-- The end of the outermost deferral. -/
def Moment.outermost (m : Moment) : Prop := m.event = .stop ∧ m.before.defer.ndefers = 1

/-- At the end of the outermost deferral there is a reschedule, or just the count
goes down. -/
def Moment.Ends (m : Moment) (earlier : List Moment) : Prop :=
  (Pending (events earlier) ∧
      m.after = (m.before.setDefer { ndefers := 0, attempt := true }).resched) ∨
    (¬ Pending (events earlier) ∧ m.after = m.before.setDefer { ndefers := 0, attempt := false })

/-- The count is never negative, nothing but the count and the flag changes while
it is positive, between two moments the processor stays where it is, and the end of
the outermost deferral reschedules if and only if there was an attempt inside. -/
structure Disciplined (log : List Moment) : Prop where
  nonneg : ∀ m ∈ log, 0 ≤ m.before.defer.ndefers ∧ 0 ≤ m.after.defer.ndefers
  still : ∀ m ∈ log, 0 < m.before.defer.ndefers → ¬ m.outermost →
    ∃ d, m.after = m.before.setDefer d
  between : ∀ earlier m m' later, log = earlier ++ m :: m' :: later →
    m'.before.currpid = m.after.currpid ∧ m'.before.defer = m.after.defer
  ends : ∀ earlier m later, log = earlier ++ m :: later → m.outermost → m.Ends earlier

/-- The count fits its type: fewer than 2^31 deferrals are open at any time. -/
def Shallow (log : List Moment) : Prop :=
  ∀ earlier, earlier <+: log → depth (events earlier) < 2147483648

/-- The state goes with the moments so far. -/
structure WatchOk (w : Watched) : Prop where
  disciplined : Disciplined w.log
  count : w.now.defer.ndefers = depth (events w.log)
  flag : 0 < depth (events w.log) → (w.now.defer.attempt = true ↔ Pending (events w.log))
  last : ∀ earlier m, w.log = earlier ++ [m] →
    w.now.currpid = m.after.currpid ∧ w.now.defer = m.after.defer

section

variable {w : Watched} {s s' : Xinu} {log : List Moment} {m : Moment}

/-!
## What leaves deferral and the processor alone
-/

/-- The two states agree on deferral and on who has the processor. -/
structure Settled (s s' : Xinu) : Prop where
  currpid : s'.currpid = s.currpid
  defer : s'.defer = s.defer

theorem Settled.refl (s : Xinu) : Settled s s := ⟨rfl, rfl⟩

theorem Settled.trans {s'' : Xinu} (h : Settled s s') (h' : Settled s' s'') : Settled s s'' :=
  ⟨h'.currpid.trans h.currpid, h'.defer.trans h.defer⟩

theorem settled_recordCpuqdata (s : Xinu) (pid : Int) : Settled s (s.recordCpuqdata pid) := by
  unfold Xinu.recordCpuqdata
  split
  · split
    · exact .refl s
    · dsimp only
      split
      · split <;> exact ⟨rfl, rfl⟩
      · exact ⟨rfl, rfl⟩
  · exact .refl s

theorem settled_setprio (s : Xinu) (pid : Int) : Settled s (s.setprio pid).2 := by
  unfold Xinu.setprio
  split
  · exact .refl s
  · split
    · exact .refl s
    · split
      · exact settled_recordCpuqdata s pid
      · split
        · exact ⟨rfl, rfl⟩
        · split <;> exact .refl s

theorem settled_insert (s : Xinu) (pid q key : Int) : Settled s (s.insert pid q key) := by
  unfold Xinu.insert
  split
  · exact .refl s
  · exact ⟨rfl, rfl⟩

theorem settled_getfirst (s : Xinu) (q : Int) : Settled s (s.getfirst q).2 := by
  unfold Xinu.getfirst
  split
  · exact .refl s
  · exact ⟨rfl, rfl⟩

theorem settled_dequeue (s : Xinu) (q : Int) : Settled s (s.dequeue q).2 := by
  unfold Xinu.dequeue
  split
  · exact .refl s
  · split
    · exact .refl s
    · have hfirst := settled_getfirst s q
      exact ⟨hfirst.currpid, hfirst.defer⟩

theorem settled_enterReady (s : Xinu) (pid : Int) : Settled s (s.enterReady pid) := by
  have hrecord := settled_recordCpuqdata s pid
  have hprio := settled_setprio (((s.recordCpuqdata pid).setProc pid fun e =>
    { e with prstate := .ready }).setReadycount (uint16 (((s.recordCpuqdata pid).setProc pid fun e =>
    { e with prstate := .ready }).readycount + 1))) pid
  have hentry := hrecord.trans ⟨hprio.currpid, hprio.defer⟩
  exact hentry.trans ⟨(settled_insert _ _ _ _).currpid, (settled_insert _ _ _ _).defer⟩

theorem dispatch_defer (s : Xinu) : s.dispatch.defer = s.defer :=
  (settled_recordCpuqdata _ _).defer.trans (settled_dequeue s readylist).defer

/-- Where rescheduling is not deferred it does not touch deferral. -/
theorem resched_defer (h : ¬ 0 < s.defer.ndefers) : s.resched.defer = s.defer := by
  unfold Xinu.resched
  rw [if_neg h]
  dsimp only
  split
  · split
    · exact (settled_setprio s s.currpid).defer
    · rw [dispatch_defer, (settled_insert _ _ _ _).defer]
      exact (settled_recordCpuqdata _ _).defer.trans (settled_setprio s s.currpid).defer
  · exact dispatch_defer s

/-!
## One moment
-/

theorem events_snoc : events (log ++ [m]) = events log ++ [m.event] := List.map_append

theorem Shallow.init (h : Shallow (log ++ [m])) : Shallow log :=
  fun _ hp => h _ (hp.trans (List.prefix_append _ _))

/-- A moment is added that goes on from the last state. -/
theorem WatchOk.snoc (h : WatchOk w) (hbefore : m.before = w.now)
    (hnonneg : 0 ≤ m.after.defer.ndefers)
    (hstill : 0 < w.now.defer.ndefers → ¬ m.outermost → ∃ d, m.after = w.now.setDefer d)
    (hends : m.outermost → m.Ends w.log) : Disciplined (w.log ++ [m]) := by
  have hd := h.disciplined
  have hcount := h.count
  constructor
  · intro m' hm
    cases List.mem_append.mp hm with
    | inl hm => exact hd.nonneg m' hm
    | inr hm =>
        rw [List.mem_singleton.mp hm]
        refine ⟨?_, hnonneg⟩
        rw [hbefore]
        omega
  · intro m' hm
    cases List.mem_append.mp hm with
    | inl hm => exact hd.still m' hm
    | inr hm =>
        rw [List.mem_singleton.mp hm, hbefore]
        exact hstill
  · intro earlier m₁ m₂ later heq
    rcases List.eq_nil_or_concat' later with rfl | ⟨later, m₃, rfl⟩
    · have hsplit : w.log ++ [m] = (earlier ++ [m₁]) ++ [m₂] := by
        rw [heq, List.append_assoc]
        rfl
      rcases List.append_inj' hsplit rfl with ⟨hlog, hm⟩
      rw [← List.singleton_inj.mp hm, hbefore]
      exact h.last earlier m₁ hlog
    · have hsplit : w.log ++ [m] = (earlier ++ m₁ :: m₂ :: later) ++ [m₃] := by
        rw [heq, List.append_assoc]
        rfl
      exact hd.between earlier m₁ m₂ later (List.append_inj' hsplit rfl).1
  · intro earlier m₁ later heq
    rcases List.eq_nil_or_concat' later with rfl | ⟨later, m₃, rfl⟩
    · rcases List.append_inj' heq rfl with ⟨hlog, hm⟩
      rw [← List.singleton_inj.mp hm, ← hlog]
      exact hends
    · have hsplit : w.log ++ [m] = (earlier ++ m₁ :: later) ++ [m₃] := by
        rw [heq, List.append_assoc]
        rfl
      exact hd.ends earlier m₁ later (List.append_inj' hsplit rfl).1

/-- The cell that the kernel keeps. -/
def cellOf (d : Defer) : Cell := { count := d.ndefers.toNat, flag := d.attempt }

theorem WatchOk.tracks (h : WatchOk w) : Tracks (cellOf w.now.defer) (events w.log) := by
  refine ⟨?_, h.flag⟩
  show w.now.defer.ndefers.toNat = _
  rw [h.count]
  exact Int.toNat_natCast _

/-- A moment at which the kernel's cell does what the event says. -/
theorem WatchOk.note (h : WatchOk w) {event : Event} {f : Xinu → Xinu}
    (hcell : cellOf (f w.now).defer = (cellOf w.now.defer).next event)
    (hnonneg : 0 ≤ (f w.now).defer.ndefers)
    (hstill : 0 < w.now.defer.ndefers → ¬ (event = .stop ∧ w.now.defer.ndefers = 1) →
      ∃ d, f w.now = w.now.setDefer d)
    (hends : event = .stop ∧ w.now.defer.ndefers = 1 →
      Moment.Ends { event := event, before := w.now, after := f w.now } w.log) :
    WatchOk (w.note event f) := by
  have htracks := h.tracks.next event
  rw [← hcell] at htracks
  have hevents : events (w.note event f).log = events w.log ++ [event] := events_snoc
  constructor
  · exact h.snoc rfl hnonneg hstill hends
  · have hcount : (f w.now).defer.ndefers.toNat = _ := htracks.count
    rw [hevents, ← hcount]
    exact (Int.toNat_of_nonneg hnonneg).symm
  · rw [hevents]
    exact htracks.flag
  · intro earlier m hlog
    rcases List.append_inj' hlog rfl with ⟨_, hm⟩
    rw [← List.singleton_inj.mp hm]
    exact ⟨rfl, rfl⟩

theorem WatchOk.deferStart (h : WatchOk w) (hshallow : Shallow w.deferStart.log) :
    WatchOk w.deferStart := by
  have hcount := h.count
  have hdepth := hshallow _ (List.prefix_refl _)
  rw [show events w.deferStart.log = events w.log ++ [.start] from events_snoc,
    depth_start] at hdepth
  have hnext : int32 (w.now.defer.ndefers + 1) = w.now.defer.ndefers + 1 := by
    apply Int.bmod_eq_of_le
    · omega
    · omega
  apply h.note
  · unfold cellOf Xinu.deferStart Xinu.setDefer Cell.next
    dsimp only
    rw [hnext]
    congr 1
    · omega
    · have hzero : w.now.defer.ndefers = 0 ↔ w.now.defer.ndefers.toNat = 0 := by omega
      simp only [hzero]
  · show 0 ≤ int32 _
    rw [hnext]
    omega
  · exact fun _ _ => ⟨_, rfl⟩
  · exact fun hout => absurd hout.1 (by decide)

theorem WatchOk.deferStop (h : WatchOk w) : WatchOk w.deferStop := by
  have hcount := h.count
  by_cases hzero : w.now.defer.ndefers ≤ 0
  · have hsame : w.now.deferStop = w.now := if_pos hzero
    apply h.note
    · rw [hsame]
      unfold cellOf Cell.next
      congr 1
      dsimp only
      omega
    · rw [hsame]
      omega
    · exact fun hpos => absurd hpos (Int.not_lt.mpr hzero)
    · intro hout
      have hone := hout.2
      omega
  · have hstop : w.now.deferStop =
        if w.now.defer.ndefers - 1 = 0 ∧ w.now.defer.attempt = true then
          (w.now.setDefer
            { ndefers := w.now.defer.ndefers - 1, attempt := w.now.defer.attempt }).resched
        else w.now.setDefer
          { ndefers := w.now.defer.ndefers - 1, attempt := w.now.defer.attempt } := if_neg hzero
    have hdefer : w.now.deferStop.defer =
        { ndefers := w.now.defer.ndefers - 1, attempt := w.now.defer.attempt } := by
      rw [hstop]
      split
      · rename_i hout
        apply resched_defer
        show ¬ 0 < w.now.defer.ndefers - 1
        omega
      · rfl
    have hflag := h.flag (by omega)
    apply h.note
    · rw [hdefer]
      unfold cellOf Cell.next
      congr 1
      dsimp only
      omega
    · rw [hdefer]
      dsimp only
      omega
    · intro _ hinner
      have hne : w.now.defer.ndefers ≠ 1 := fun hone => hinner ⟨rfl, hone⟩
      rw [hstop, if_neg fun hout => hne (by omega)]
      exact ⟨_, rfl⟩
    · intro hout
      have hone := hout.2
      unfold Moment.Ends
      dsimp only
      by_cases hattempt : w.now.defer.attempt = true
      · left
        refine ⟨hflag.mp hattempt, ?_⟩
        rw [hstop, if_pos ⟨by omega, hattempt⟩, hone, hattempt]
        rfl
      · right
        refine ⟨fun hpending => hattempt (hflag.mpr hpending), ?_⟩
        rw [hstop, if_neg fun hboth => hattempt hboth.2, hone, Bool.eq_false_iff.mpr hattempt]
        rfl

theorem WatchOk.resched (h : WatchOk w) : WatchOk (w.note .attempt Xinu.resched) := by
  have hcount := h.count
  by_cases hpos : 0 < w.now.defer.ndefers
  · have hset : w.now.resched = w.now.setDefer { w.now.defer with attempt := true } := if_pos hpos
    apply h.note
    · rw [hset]
      unfold cellOf Cell.next Xinu.setDefer
      dsimp only
      rw [if_pos (by omega)]
    · rw [hset]
      exact Int.le_of_lt hpos
    · exact fun _ _ => ⟨_, hset⟩
    · exact fun hout => absurd hout.1 (by decide)
  · have hdefer := resched_defer hpos
    apply h.note
    · rw [hdefer]
      unfold cellOf Cell.next
      dsimp only
      rw [if_neg (by omega)]
    · rw [hdefer]
      omega
    · exact fun hp => absurd hp hpos
    · exact fun hout => absurd hout.1 (by decide)

theorem WatchOk.tap (h : WatchOk w) {f : Xinu → Xinu} (hf : Settled w.now (f w.now)) :
    WatchOk (w.tap f) where
  disciplined := h.disciplined
  count := (congrArg Defer.ndefers hf.defer).trans h.count
  flag := by
    intro hpos
    show (f w.now).defer.attempt = true ↔ Pending (events w.log)
    rw [hf.defer]
    exact h.flag hpos
  last := by
    intro earlier m hlog
    rcases h.last earlier m hlog with ⟨hcurr, hdefer⟩
    exact ⟨hf.currpid.trans hcurr, hf.defer.trans hdefer⟩

/-!
## Whole calls
-/

/-- As long as the count fits, the state goes with the moments. -/
def WatchInv (w : Watched) : Prop := Shallow w.log → WatchOk w

theorem WatchInv.deferStart (h : WatchInv w) : WatchInv w.deferStart :=
  fun hshallow => (h hshallow.init).deferStart hshallow

theorem WatchInv.deferStop (h : WatchInv w) : WatchInv w.deferStop :=
  fun hshallow => (h hshallow.init).deferStop

theorem WatchInv.tap (h : WatchInv w) {f : Xinu → Xinu} (hf : Settled w.now (f w.now)) :
    WatchInv (w.tap f) :=
  fun hshallow => (h hshallow).tap hf

theorem WatchInv.ready (h : WatchInv w) (pid : Int) : WatchInv (w.ready pid) := by
  unfold Watched.ready
  split
  · exact h
  · exact fun hshallow => ((h.tap (settled_enterReady _ _)) hshallow.init).resched

theorem WatchInv.readyDequeue (h : WatchInv w) (q : Int) : WatchInv (w.readyDequeue q) :=
  (h.tap (settled_dequeue _ _)).ready _

theorem WatchInv.wakeupLoop (h : WatchInv w) (fuel : Nat) :
    WatchInv (Watched.wakeupLoop fuel w) := by
  induction fuel generalizing w with
  | zero => exact h
  | succ fuel ih =>
      unfold Watched.wakeupLoop
      split
      · exact ih (h.readyDequeue _)
      · exact h

theorem WatchInv.signalnLoop (h : WatchInv w) (sem : Int) (n : Nat) :
    WatchInv (Watched.signalnLoop sem n w) := by
  induction n generalizing w with
  | zero => exact h
  | succ n ih =>
      unfold Watched.signalnLoop
      dsimp only
      apply ih
      have hcount : WatchInv (w.tap fun s =>
          s.setSem sem fun e => { e with scount := int32 (e.scount + 1) }) := h.tap ⟨rfl, rfl⟩
      split
      · exact hcount.readyDequeue _
      · exact hcount

theorem WatchInv.readyAll (h : WatchInv w) (q : Int) (fuel : Nat) :
    WatchInv (Watched.readyAll q fuel w) := by
  induction fuel generalizing w with
  | zero => exact h
  | succ fuel ih =>
      have hfirst : WatchInv (w.tap fun s => (s.getfirst q).2) := h.tap (settled_getfirst _ _)
      unfold Watched.readyAll
      dsimp only
      split
      · exact hfirst
      · exact ih (hfirst.ready _)

theorem WatchInv.call (h : WatchInv w) (c : DeferCall) : WatchInv (c.watch w) := by
  cases c with
  | start => exact h.deferStart
  | stop => exact h.deferStop
  | ready pid => exact h.ready pid
  | wakeup => exact (h.deferStart.wakeupLoop _).deferStop
  | semreset sem count =>
      unfold DeferCall.watch Watched.semreset
      dsimp only
      split
      · exact h.tap ⟨rfl, rfl⟩
      · have hpush : WatchInv (w.tap fun s => s.push (.ret OK)) := h.tap ⟨rfl, rfl⟩
        have hall := hpush.deferStart.readyAll ((w.now.push (.ret OK)).semtab sem).squeue
          Xinu.queueFuel
        exact WatchInv.deferStop (hall.tap ⟨rfl, rfl⟩)
  | signaln sem count =>
      unfold DeferCall.watch Watched.signaln
      dsimp only
      split
      · exact h.tap ⟨rfl, rfl⟩
      · split
        · exact h.tap ⟨rfl, rfl⟩
        · have hpush : WatchInv (w.tap fun s => s.push (.ret OK)) := h.tap ⟨rfl, rfl⟩
          exact (hpush.deferStart.signalnLoop sem count.toNat).deferStop

theorem watchInv_init (h : s.defer.ndefers = 0) : WatchInv { now := s, log := [] } := by
  intro _
  constructor
  · constructor
    · intro m hm
      cases hm
    · intro m hm
      cases hm
    · intro earlier m m' later heq
      cases earlier <;> cases heq
    · intro earlier m later heq
      cases earlier <;> cases heq
  · exact h
  · exact fun hpos => absurd hpos (Nat.lt_irrefl 0)
  · intro earlier m heq
    cases earlier <;> cases heq

theorem watchInv_all (h : WatchInv w) (calls : List DeferCall) :
    WatchInv (calls.foldl (fun w c => c.watch w) w) := by
  induction calls generalizing w with
  | nil => exact h
  | cons c calls ih => exact ih (h.call c)

/-- Deferral is kept in order over all calls, from any state without deferral, as
long as the count fits its type. -/
theorem deferral_disciplined (h : s.defer.ndefers = 0) (calls : List DeferCall)
    (hshallow : Shallow (watchAll s calls).log) :
    (watchAll s calls).now = calls.foldl (fun s c => c.run s) s ∧
      Disciplined (watchAll s calls).log ∧
      ∀ earlier m, (watchAll s calls).log = earlier ++ [m] →
        (watchAll s calls).now.currpid = m.after.currpid ∧
          (watchAll s calls).now.defer = m.after.defer := by
  have hok := watchInv_all (watchInv_init h) calls hshallow
  exact ⟨watchAll_now s calls, hok.disciplined, hok.last⟩

/-- A short log is shallow. -/
theorem shallow_of_length (h : log.length < 2147483648) : Shallow log := by
  intro earlier hp
  have hdepth := depth_le_length (events earlier)
  have hle := hp.length_le
  rw [show (events earlier).length = earlier.length from List.length_map _] at hdepth
  omega

end

/-- A sleeping queue is served and a process made ready inside a deferral. -/
theorem deferral_disciplined_nested :
    events (watchAll (sampleBoot.create 400 20) [.start, .wakeup, .ready 1, .stop]).log =
        [.start, .start, .stop, .attempt, .stop] ∧
      Disciplined (watchAll (sampleBoot.create 400 20) [.start, .wakeup, .ready 1, .stop]).log := by
  have hevents : events
      (watchAll (sampleBoot.create 400 20) [.start, .wakeup, .ready 1, .stop]).log =
        [.start, .start, .stop, .attempt, .stop] := by decide +kernel
  refine ⟨hevents, (deferral_disciplined (by decide +kernel) _ (shallow_of_length ?_)).2.1⟩
  have hlength := congrArg List.length hevents
  rw [show (events _).length = _ from List.length_map _] at hlength
  rw [hlength]
  decide

/-!
## Overflow
-/

theorem starts_count (s : Xinu) (h : s.defer.ndefers = 0) (n : Nat) (hn : n < 2147483648) :
    (watchAll s (List.replicate n .start)).now.defer.ndefers = n := by
  induction n with
  | zero => exact h
  | succ n ih =>
      have hprev := ih (by omega)
      unfold watchAll at hprev ⊢
      rw [List.replicate_succ', List.foldl_append]
      show int32 (_ + 1) = _
      rw [hprev]
      apply Int.bmod_eq_of_le
      · omega
      · omega

/-- 2^31 deferrals without an end make the count negative. -/
theorem deferral_overflow :
    ¬ ∀ (s : Xinu) (calls : List DeferCall), s.defer.ndefers = 0 →
      Disciplined (watchAll s calls).log := by
  intro hall
  have hzero : sampleBoot.defer.ndefers = 0 := by decide +kernel
  obtain ⟨n, hn⟩ : ∃ n, n = 2147483647 := ⟨_, rfl⟩
  have hcount := starts_count sampleBoot hzero n (by omega)
  have hdisc := hall sampleBoot (List.replicate (n + 1) .start) hzero
  unfold watchAll at hcount hdisc
  rw [List.replicate_succ', List.foldl_append] at hdisc
  have hlast := (hdisc.nonneg _ (List.mem_append_right _ List.mem_cons_self)).2
  have hwrap : int32 (n + 1) = -2147483648 := by
    rw [hn]
    decide
  have hafter : 0 ≤ int32 (_ + 1) := hlast
  rw [hcount, hwrap] at hafter
  exact absurd hafter (by decide)

end BbbXinu
