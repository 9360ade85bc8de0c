import BbbXinu.Properties.Tables

/-!
# The ready list

{lit}`suspend` and {lit}`kill` take a ready process off the ready list without
counting it out.  In runs where they never do, {lit}`readycount` is the length
of the ready list, and {lit}`set_scheduler` visits the ready processes.

The ready list is sorted by keys copied from the priorities, and {lit}`chprio`
changes a priority and nothing else.  Where it leaves every key right and the
running process on top, no ready process has a higher priority than the running
one.
-/

namespace BbbXinu

open LinkedLists KeyedLists Runs

/-- Any call but those on blockers; a user process changes the scheduler. -/
def ProcessCalls (s : Xinu) : Label → Prop
  | .call c => c.onBlocker = false ∧ NullRuns s c ∧
      (c.isSetScheduler = true → s.currpid ≠ NULLPROC)
  | .cont => True

instance (s : Xinu) (l : Label) : Decidable (ProcessCalls s l) := by
  induction l using Label.casesOn <;> unfold ProcessCalls <;> infer_instance

/-- The step takes a ready process off the ready list by {lit}`suspend` or
{lit}`kill`. -/
def RemovesReady (s : Xinu) : Label → Prop
  | .call (.suspend pid) => pid ≠ NULLPROC ∧ (s.proctab pid).prstate = .ready
  | .call _ => False
  | .cont => ∃ pid ∈ s.victim, (s.proctab pid).prstate = .ready

instance (s : Xinu) (l : Label) : Decidable (RemovesReady s l) :=
  match l with
  | .call c => by induction c using Call.casesOn <;> unfold RemovesReady <;> infer_instance
  | .cont => inferInstanceAs (Decidable (∃ pid ∈ s.victim, (s.proctab pid).prstate = .ready))

/-- The processes that the loop of {lit}`set_scheduler` dequeues. -/
def Xinu.visited (s : Xinu) (newval : Nat) : List Int :=
  (List.range s.readycount).map fun k =>
    ((Xinu.setSchedulerLoop k (s.setEnv EV_SCHEDULER newval)).dequeue readylist).1

def Watch.counting : Watch := { count := True, keys := False, delays := False }

section

variable {g : View} {s s' : Xinu} {l : Label}

theorem CalmState.readycount (hC : CalmState .counting s) :
    s.readycount = (lists s.queuetab readylist).length := by
  rcases hC.view with ⟨g, hG, _⟩
  exact hG.ok.inv.count trivial

theorem ProcessCalls.fits (h : ProcessCalls s l) (hkeep : ¬ RemovesReady s l)
    (hC : CalmState .counting s) : Fits .counting s l := by
  cases l with
  | call c =>
      refine ⟨h.2.1, ?_⟩
      cases c with
      | suspend pid => exact ⟨fun _ => hC.linked pid, fun _ hnull hready => hkeep ⟨hnull, hready⟩⟩
      | chprio pid newprio => exact fun h => False.elim h
      | sleepms delay => exact fun h => False.elim h
      | sleep delay => exact fun h => False.elim h
      | recvtime maxwait => exact fun h => False.elim h
      | setScheduler newval =>
          exact ⟨fun h => False.elim h, h.2.2 rfl, Nat.le_of_eq hC.readycount.symm⟩
      | _ => trivial
  | cont =>
      unfold Fits
      dsimp only
      split
      · rename_i pid rest hs
        exact ⟨hC.linked pid, fun _ hready => hkeep ⟨pid, s.victim_eq hs, hready⟩⟩
      · trivial

theorem ProcessCalls.calm (h : ProcessCalls s l) (c : Call) (hl : l = .call c) :
    c.onBlocker = false := by
  rw [hl] at h
  exact h.1

theorem visited_eq (hG : Good .counting g s) (newval : Nat) :
    s.visited newval = lists s.queuetab readylist := by
  have hI := hG.ok.inv
  have hscratch := hI.scratch_nil
  have hcount := hI.count trivial
  have hlive : ∀ p ∈ lists s.queuetab readylist,
      ¬ (s.setEnv EV_SCHEDULER newval).isbadpid p :=
    fun p hp => (hI.good_of_mem hp : ¬ s.isbadpid p)
  rcases loop_spec (s := s.setEnv EV_SCHEDULER newval) s.readycount hI.queues hI.sentinels rfl
    hlive (by
      rw [hscratch]
      exact List.Pairwise.nil) (Nat.le_of_eq hcount.symm) with ⟨m, hm⟩
  apply List.ext_getElem
  · unfold Xinu.visited
    rw [List.length_map, List.length_range, hcount]
  · intro k h1 h2
    simp only [Xinu.visited, List.getElem_map, List.getElem_range]
    exact hm.visits k _ (List.getElem?_eq_getElem h2)

/-- In every run whose steps take no ready process off its list unaccounted, the
count is right, and {lit}`set_scheduler` visits exactly the ready processes. -/
theorem readycount_correct
    (h : Reach Xinu.step (fun s l => ProcessCalls s l ∧ ¬ RemovesReady s l) Booted s) :
    s.readycount = (lists s.queuetab readylist).length ∧
      ∀ newval, s.visited newval = lists s.queuetab readylist ∧
        ∀ p, p ∈ s.visited newval ↔ (s.proctab p).prstate = .ready := by
  have hC : CalmState .counting s := by
    apply h.invariant
    · exact fun s hs => .boot hs
    · exact fun s l s' _ hC henv hstep =>
        hC.step (henv.1.fits henv.2 hC) henv.1.calm hstep
  refine ⟨hC.readycount, ?_⟩
  intro newval
  rcases hC.view with ⟨g, hG, hc⟩
  have hvisit := visited_eq hG newval
  refine ⟨hvisit, ?_⟩
  intro p
  rw [hvisit]
  exact ((tablesAgree_of_good hG hc).ready p).symm

end

/-- Two processes are ready. -/
theorem readycount_correct_two :
    ∃ s : Xinu, s.readycount = 2 ∧ s.readycount = (lists s.queuetab readylist).length ∧
      ∀ newval, s.visited newval = lists s.queuetab readylist ∧
        ∀ p, p ∈ s.visited newval ↔ (s.proctab p).prstate = .ready := by
  rcases exists_reach_of_follow Xinu.step (fun s l => ProcessCalls s l ∧ ¬ RemovesReady s l)
    booted_sample
    [.call (.create 4096 20), .call (.resume 1), .call (.create 4096 10),
      .call (.resume 2), .cont, .call (.setScheduler 1)]
    (fun s : Xinu => s.readycount = 2) (by decide +kernel) with ⟨s, hs, hp⟩
  exact ⟨s, hp, readycount_correct hs⟩

/-- A ready process is suspended, and {lit}`readycount` still counts it. -/
theorem readycount_stale :
    ¬ ∀ s, Reach Xinu.step ProcessCalls Booted s → s.inUser →
      s.readycount = (lists s.queuetab readylist).length := by
  intro h
  rcases exists_reach_of_follow Xinu.step ProcessCalls booted_sample
    [.call (.create 4096 20), .call (.resume 1), .call (.create 4096 10),
      .call (.resume 2), .cont, .call (.suspend 2)]
    (fun s => s.inUser ∧ s.readycount ≠ (lists s.queuetab readylist).length)
    (by decide +kernel) with ⟨s, hs, huser, hne⟩
  exact hne (h s hs huser)

/-!
## Priorities
-/

/-- The running process has the highest priority and the ready list is sorted by
the present priorities. -/
structure InOrder (s : Xinu) : Prop where
  top : ∀ p, (s.proctab p).prstate = .ready →
    (s.proctab p).prprio ≤ (s.proctab s.currpid).prprio
  descending : Descending (fun p => (s.proctab p).prprio) (lists s.queuetab readylist)

def Watch.ordered : Watch := { count := False, keys := True, delays := False }

section

variable {g : View} {s : Xinu}

theorem inOrder_of_good (hG : Good .ordered g s) (hc : Calm g) : InOrder s := by
  have hagree := tablesAgree_of_good hG hc
  have hO := hG.ok
  constructor
  · intro p hp
    exact hO.top trivial (Or.inl hG.defers) p ((hagree.ready p).mp hp)
  · apply Descending.congr (hO.inv.descending trivial)
    exact fun p hp => (hO.inv.keys trivial p hp).symm

/-- In every run without blockers whose changes of priorities keep the order, the
running process has the highest priority. -/
theorem runs_highest (h : Reach Xinu.step (fun s l => TableCalls s l ∧ OrderKept s l) Booted s) :
    InOrder s := by
  have hC : CalmState .ordered s := by
    apply h.invariant
    · exact fun s hs => .boot hs
    · exact fun s l s' _ hC henv hstep =>
        hC.step (henv.1.fits hC id (fun _ => henv.2) False.elim) henv.1.calm hstep
  rcases hC.view with ⟨g, hG, hc⟩
  exact inOrder_of_good hG hc

end

/-- The running process lowers its priority, but not too far. -/
theorem runs_highest_lowered :
    ∃ s : Xinu, ((s.proctab s.currpid).prprio = 15 ∧
      lists s.queuetab readylist = [2, NULLPROC]) ∧ InOrder s := by
  rcases exists_reach_of_follow Xinu.step (fun s l => TableCalls s l ∧ OrderKept s l)
    booted_sample
    [.call (.create 4096 20), .call (.resume 1), .call (.create 4096 10),
      .call (.resume 2), .cont, .call (.chprio 1 15)]
    (fun s : Xinu => (s.proctab s.currpid).prprio = 15 ∧
      lists s.queuetab readylist = [2, NULLPROC]) (by decide +kernel) with ⟨s, hs, hp⟩
  exact ⟨s, hp, runs_highest hs⟩

/-- A ready process is given a higher priority than the running one, and waits. -/
theorem chprio_unordered :
    ¬ ∀ s, Reach Xinu.step TableCalls Booted s → s.inUser → s.defer.ndefers = 0 →
      InOrder s := by
  intro h
  rcases exists_reach_of_follow Xinu.step TableCalls booted_sample
    [.call (.create 4096 20), .call (.resume 1), .call (.create 4096 10),
      .call (.resume 2), .cont, .call (.chprio 2 30)]
    (fun s => (s.inUser ∧ s.defer.ndefers = 0) ∧ (s.proctab 2).prstate = .ready ∧
      (s.proctab s.currpid).prprio < (s.proctab 2).prprio)
    (by decide +kernel) with ⟨s, hs, ⟨huser, hdefer⟩, hready, hlt⟩
  exact absurd ((h s hs huser hdefer).top 2 hready) (by omega)

end BbbXinu
