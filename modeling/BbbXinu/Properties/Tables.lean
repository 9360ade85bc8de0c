import BbbXinu.Properties.Calm

/-!
# The process table and the queues agree
-/

namespace BbbXinu

open LinkedLists KeyedLists Runs

/-- What the state of each process says about the queues. -/
structure TablesAgree (s : Xinu) : Prop where
  ready : ∀ p, (s.proctab p).prstate = .ready ↔ p ∈ lists s.queuetab readylist
  asleep : ∀ p, (s.proctab p).prstate = .sleep ∨ (s.proctab p).prstate = .rectim ↔
    p ∈ lists s.queuetab sleepq
  waits : ∀ p, (s.proctab p).prstate = .wait → ¬ isbadsem (s.proctab p).prsem
  wait : ∀ p sem, ¬ isbadsem sem → ((s.proctab p).prstate = .wait ∧ (s.proctab p).prsem = sem ↔
    p ∈ lists s.queuetab (s.semtab sem).squeue)
  once : ∀ p q r, p ∈ lists s.queuetab q → p ∈ lists s.queuetab r → q = r
  nodup : ∀ q, (lists s.queuetab q).Nodup
  curr : ∀ p, (s.proctab p).prstate = .curr ↔ p = s.currpid
  /-- A dequeue from an empty ready list would have put {lit}`EMPTY` here. -/
  valid : ValidPid s.currpid
  links : ∀ q, IsQueue q → Seg (fun i => (s.queuetab i).qnext)
    (fun i => (s.queuetab i).qprev) q (lists s.queuetab q) (queuetail q)
  prev_next : ∀ q, IsQueue q → ∀ i ∈ q :: lists s.queuetab q,
    (s.queuetab (s.queuetab i).qnext).qprev = i
  next_prev : ∀ q, IsQueue q → ∀ i ∈ lists s.queuetab q ++ [queuetail q],
    (s.queuetab (s.queuetab i).qprev).qnext = i
  /-- The null process is there to be dequeued whenever another one stops. -/
  nonempty : s.currpid ≠ NULLPROC → NULLPROC ∈ lists s.queuetab readylist

/-- The watch that asks for nothing more. -/
def Watch.plain : Watch := { count := False, keys := False, delays := False }

section

variable {w : Watch} {g : View} {s s' : Xinu} {l : Label}

/-- A process that belongs on the sleep queue is asleep. -/
theorem home_sleepq_iff {e : Procent} (hw : e.prstate = .wait → WaitsOn e.prsem) :
    home e = some sleepq ↔ e.prstate = .sleep ∨ e.prstate = .rectim := by
  constructor
  · intro h
    unfold home at h
    cases hc : e.prstate with
    | sleep => exact Or.inl rfl
    | rectim => exact Or.inr rfl
    | ready =>
        rw [hc] at h
        exact absurd (Option.some.inj h) (by decide)
    | wait =>
        rw [hc] at h
        have h1 : waitq e.prsem = sleepq := Option.some.inj h
        rcases hw hc with h2 | ⟨h2, h3⟩
        · rw [waitq_sem h2] at h1
          exact absurd h1 (semq_ne_sleepq h2)
        · unfold waitq at h1
          rw [if_pos h2] at h1
          exact absurd h1 (rwq_ne_sleepq h3)
    | free => simp [hc] at h
    | curr => simp [hc] at h
    | recv => simp [hc] at h
    | susp => simp [hc] at h
  · exact home_sleep

/-- A process that belongs on a semaphore's queue waits on that semaphore. -/
theorem home_semq_iff {e : Procent} {sem : Int} (hsem : ¬ isbadsem sem)
    (hw : e.prstate = .wait → WaitsOn e.prsem) :
    home e = some (semq sem) ↔ e.prstate = .wait ∧ e.prsem = sem := by
  constructor
  · intro h
    unfold home at h
    cases hc : e.prstate with
    | wait =>
        rw [hc] at h
        refine ⟨rfl, ?_⟩
        have h1 : waitq e.prsem = semq sem := Option.some.inj h
        rcases hw hc with h2 | ⟨h2, h3⟩
        · rw [waitq_sem h2] at h1
          unfold semq at h1
          omega
        · unfold waitq at h1
          rw [if_pos h2] at h1
          exact absurd h1.symm (semq_ne_rwq hsem h3)
    | ready =>
        rw [hc] at h
        exact absurd (Option.some.inj h).symm (semq_ne_readylist hsem)
    | sleep =>
        rw [hc] at h
        exact absurd (Option.some.inj h).symm (semq_ne_sleepq hsem)
    | rectim =>
        rw [hc] at h
        exact absurd (Option.some.inj h).symm (semq_ne_sleepq hsem)
    | free => simp [hc] at h
    | curr => simp [hc] at h
    | recv => simp [hc] at h
    | susp => simp [hc] at h
  · rintro ⟨h1, rfl⟩
    rw [home_wait h1, waitq_sem hsem]

theorem tablesAgree_of_good (hG : Good w g s) (hc : Calm g) : TablesAgree s := by
  have hI := hG.ok.inv
  have hmem : ∀ q p, p ∈ lists s.queuetab q ↔ home (s.proctab p) = some q := by
    intro q p
    rw [hI.mem_iff q p]
    constructor
    · exact fun h => h.1
    · exact fun h => ⟨h, hI.ne_empty h, hc.limbo p, hc.lost p⟩
  have hsem : ∀ p, (s.proctab p).prstate = .wait → ¬ isbadsem (s.proctab p).prsem := by
    intro p hp
    rcases hI.waits_on p hp with h | ⟨h, hb⟩
    · exact h
    · have h1 : p ∈ lists s.queuetab (rwq (-1 * ((s.proctab p).prsem + 2))) := by
        rw [hmem, home_wait hp]
        unfold waitq
        rw [if_pos h]
      rw [hI.lists_eq _ (rwq_ne_readylist hb), hc.queues _ hb] at h1
      cases h1
  constructor
  · intro p
    rw [hmem]
    constructor
    · exact home_ready
    · exact prstate_of_home (hI.waits_on p)
  · intro p
    rw [hmem, home_sleepq_iff (hI.waits_on p)]
  · exact hsem
  · intro p sem h
    rw [hI.squeue sem h, hmem, home_semq_iff h (hI.waits_on p)]
  · intro p q r hq hr
    rw [hmem] at hq hr
    rw [hq] at hr
    exact Option.some.inj hr
  · intro q
    by_cases hq : IsQueue q
    · exact hI.queues.nodup hq
    · rw [lists_of_not hq]
      exact List.nodup_nil
  · intro p
    constructor
    · exact hI.curr_unique p
    · rintro rfl
      exact hG.ok.curr
  · exact hI.valid_curr
  · exact fun q hq => hI.queues.seg hq
  · exact fun q hq i hi => (hI.queues.seg hq).prev_next hi
  · exact fun q hq i hi => (hI.queues.seg hq).next_prev hi
  · exact fun h => hI.null_ready h

/-- In every run without blockers and changes of the scheduler, the process table
and the queues agree. -/
theorem tables_agree (h : Reach Xinu.step TableCalls Booted s) : TablesAgree s := by
  have hC : CalmState .plain s := by
    apply h.invariant
    · exact fun s hs => .boot hs
    · exact fun s l s' _ hC henv hstep =>
        hC.step (henv.fits hC id False.elim False.elim) henv.calm hstep
  rcases hC.view with ⟨g, hG, hc⟩
  exact tablesAgree_of_good hG hc

end

/-- A process that waits with another one asleep. -/
theorem tables_agree_waiting :
    ∃ s, (s.currpid = NULLPROC ∧ (s.proctab 1).prstate = .wait ∧
      (s.proctab 2).prstate = .sleep) ∧ TablesAgree s := by
  rcases exists_reach_of_follow Xinu.step TableCalls booted_sample
    [.call (.create 4096 20), .call (.resume 1), .call (.create 4096 20),
      .call (.semcreate 0), .call (.resume 2), .call (.sleepms 5), .cont, .call (.wait 0)]
    (fun s => s.currpid = NULLPROC ∧ (s.proctab 1).prstate = .wait ∧
      (s.proctab 2).prstate = .sleep) (by decide +kernel) with ⟨s, hs, hp⟩
  exact ⟨s, hp, tables_agree hs⟩

/-!
## Changes of the scheduler

{lit}`set_scheduler` drains the ready list into the scratch list and moves the
scratch list back.  It relies on the links of the ready list, which
{lit}`suspend` and {lit}`kill` break when the process that they unlink is not
on a queue any more.
-/

/-- Any call, blockers included.  A user process changes the scheduler, while
the ready count covers the ready list. -/
def AnyCalls (s : Xinu) : Label → Prop
  | .call c => NullRuns s c ∧ (c.isSetScheduler = true →
      s.currpid ≠ NULLPROC ∧ (lists s.queuetab readylist).length ≤ s.readycount)
  | .cont => True

instance (s : Xinu) (l : Label) : Decidable (AnyCalls s l) := by
  induction l using Label.casesOn <;> unfold AnyCalls <;> infer_instance

/-- The process that the step unlinks is on the queue that its state names. -/
def FindsLinked (s : Xinu) : Label → Prop
  | .call (.suspend pid) => (s.proctab pid).prstate = .ready → s.Linked pid
  | .call _ => True
  | .cont => ∀ pid ∈ s.victim, s.Linked pid

instance (s : Xinu) (l : Label) : Decidable (FindsLinked s l) :=
  match l with
  | .call c => by induction c using Call.casesOn <;> unfold FindsLinked <;> infer_instance
  | .cont => inferInstanceAs (Decidable (∀ pid ∈ s.victim, s.Linked pid))

section

variable {w : Watch} {g : View} {s s' : Xinu} {l : Label}

theorem AnyCalls.fits (h : AnyCalls s l) (hlinked : FindsLinked s l) : Fits .plain s l := by
  cases l with
  | call c =>
      refine ⟨h.1, ?_⟩
      cases c with
      | suspend pid => exact ⟨hlinked, False.elim⟩
      | chprio pid newprio => exact False.elim
      | sleepms delay => exact False.elim
      | sleep delay => exact False.elim
      | recvtime maxwait => exact False.elim
      | setScheduler newval => exact ⟨False.elim, h.2 rfl⟩
      | _ => trivial
  | cont =>
      unfold Fits
      dsimp only
      split
      · rename_i pid rest hs
        exact ⟨hlinked pid (s.victim_eq hs), False.elim⟩
      · trivial

theorem FindsLinked.victim (h : FindsLinked s l) : l = .cont → ∀ pid ∈ s.victim, s.Linked pid := by
  rintro rfl
  exact h

/-- The tables agree in every run that unlinks only processes on their queues. -/
theorem good_of_reach
    (h : Reach Xinu.step (fun s l => AnyCalls s l ∧ FindsLinked s l) Booted s) :
    ∃ g, Good .plain g s := by
  apply h.invariant
  · rintro s ⟨mem, rand, rfl⟩
    exact ⟨bootView, sysinit_good .plain mem rand⟩
  · intro s l s' _ hG henv hstep
    rcases hG with ⟨g, hG⟩
    rcases step_good hG (henv.1.fits henv.2) hstep with ⟨g', _, hG'⟩
    exact ⟨g', hG'⟩

/-- What holds of the processes and the queues with blockers, too. -/
structure QueuesAgree (s : Xinu) : Prop where
  home : ∀ q p, p ∈ lists s.queuetab q → home (s.proctab p) = some q
  asleep : ∀ p, (s.proctab p).prstate = .sleep ∨ (s.proctab p).prstate = .rectim →
    p ∈ lists s.queuetab sleepq
  links : ∀ q, IsQueue q → Seg (fun i => (s.queuetab i).qnext)
    (fun i => (s.queuetab i).qprev) q (lists s.queuetab q) (queuetail q)
  curr : ∀ p, (s.proctab p).prstate = .curr ↔ p = s.currpid
  null_ready : s.currpid ≠ NULLPROC → NULLPROC ∈ lists s.queuetab readylist

/-- In every such run nobody is on a queue but the one that belongs to the state, sleepers are on
theirs, and the null process is ready when another one runs. -/
theorem queues_agree
    (h : Reach Xinu.step (fun s l => AnyCalls s l ∧ FindsLinked s l) Booted s) :
    QueuesAgree s := by
  rcases good_of_reach h with ⟨g, hG⟩
  have hI := hG.ok.inv
  refine ⟨fun q p hp => ((hI.mem_iff q p).mp hp).1, ?_, fun q hq => hI.queues.seg hq, ?_,
    fun hcurr => hI.null_ready hcurr⟩
  · intro p hp
    have hhome : home (s.proctab p) = some sleepq := home_sleep hp
    refine (hI.mem_iff sleepq p).mpr ⟨hhome, hI.ne_empty hhome, fun hlimbo => ?_, fun hlost => ?_⟩
    · rw [(hI.limbo p hlimbo).2.2] at hp
      rcases hp with hp | hp <;> cases hp
    · rw [(hI.lost p hlost).2] at hp
      rcases hp with hp | hp <;> cases hp
  · intro p
    constructor
    · exact hI.curr_unique p
    · rintro rfl
      exact hG.ok.curr

end

/-- A reader waits for a writer. -/
theorem queues_agree_reader : ∃ s, lists s.queuetab (rwq 0) = [2] ∧ QueuesAgree s := by
  rcases exists_reach_of_follow Xinu.step (fun s l => AnyCalls s l ∧ FindsLinked s l)
    booted_sample
    [.call (.create 4096 20), .call (.resume 1), .call (.rwbcreate 0), .call (.rwbTrywrite 0),
      .call (.create 4096 30), .call (.resume 2), .call (.rwbTryread 0), .cont]
    (fun s => lists s.queuetab (rwq 0) = [2]) (by decide +kernel) with ⟨s, hs, hp⟩
  exact ⟨s, hp, queues_agree hs⟩

end BbbXinu
