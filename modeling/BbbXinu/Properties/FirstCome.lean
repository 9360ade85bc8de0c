import BbbXinu.Properties.Waiters

/-!
# First come, first served

An observer notes for each semaphore who joins its queue, who is ready after
leaving it and who is free.  The notes agree with the queue at all times: nobody
overtakes, is lost or is released twice, and the count says how many wait.
-/

namespace BbbXinu

open LinkedLists KeyedLists Runs CountingQueue

instance (s : Xinu) (p : Int) : Decidable (s.Alive p) :=
  inferInstanceAs (Decidable (_ ∨ _))

namespace Xinu

variable (s s' : Xinu) (sem : Int)

/-- Those who are on the queue now and were not before. -/
def joined : List Int := (s'.semWaiters sem).filter fun p => decide (p ∉ s.semWaiters sem)

/-- Those who are on the queue no more. -/
def departed : List Int := (s.semWaiters sem).filter fun p => decide (p ∉ s'.semWaiters sem)

/-- Those who left the queue and run or are ready to run. -/
def released : List Int := (s.departed s' sem).filter fun p => decide (s'.Alive p)

/-- Those who left the queue by being killed. -/
def killed : List Int :=
  (s.departed s' sem).filter fun p => decide ((s'.proctab p).prstate = .free)

end Xinu

/-- What the observer adds to the notes on each semaphore. -/
def noteQueues (logs : Int → Log Int) (s : Xinu) (_ : Label) (s' : Xinu) : Int → Log Int :=
  fun sem =>
    { arrived := (logs sem).arrived ++ s.joined s' sem
      released := (logs sem).released ++ s.released s' sem
      quit := (logs sem).quit ++ s.killed s' sem }

/-- The units that a step signals to a semaphore. -/
def Xinu.units (sem : Int) : Label → Option Nat
  | .call (.signal i) => if i = sem then some 1 else none
  | .call (.signaln i count) => if i = sem ∧ 0 ≤ count then some count.toNat else none
  | _ => none

/-- What holds of all semaphores between steps. -/
structure FirstCome (s : Xinu) (logs : Int → Log Int) : Prop where
  /-- The count of a semaphore in use says how many wait. -/
  count : ∀ sem, ¬ isbadsem sem → (s.semtab sem).sstate = .used →
    ((s.semtab sem).scount < 0 → ((s.semWaiters sem).length : Int) = -(s.semtab sem).scount) ∧
      (0 ≤ (s.semtab sem).scount → s.semWaiters sem = [])
  /-- The released and the waiting are those who came, in this order, but for the killed. -/
  fair : ∀ sem, ¬ isbadsem sem → (logs sem).Fair (s.semWaiters sem)
  /-- Each unit signalled while the count is negative releases the first waiter. -/
  units : ∀ l s', SemCalls s l → s.step l = some s' → ∀ sem, s.SemUsable sem →
    ∀ n, Xinu.units sem l = some n →
      s.released s' sem = (s.semWaiters sem).take n ∧
        (s.released s' sem).length = min n (-(s.semtab sem).scount).toNat

section

variable {g : View} {s s' : Xinu} {l : Label} {sem : Int} {Q : CountingQueue Int}

/-- Only the running process joins a queue. -/
theorem SemsOk.joins_fresh (h : SemsOk g s) (hQ : SemAs s sem Q) :
    ∀ p ∈ Q.joins (s.semOp sem l), p ∉ Q.waiters := by
  have hO := h.plain.good.ok
  have hcurr : s.currpid ∉ Q.waiters := by
    rw [hQ.waiters]
    unfold Xinu.semWaiters
    exact hO.inv.off_of_home (home_curr hO.curr) _
  have hnone : ∀ op : Op Int, (∀ p, op = .wait p → p = s.currpid) →
      ∀ p ∈ Q.joins op, p ∉ Q.waiters := by
    intro op hop p hp
    cases op with
    | wait r =>
        change p ∈ (if Q.count ≤ 0 then [r] else []) at hp
        split at hp
        · rw [List.mem_singleton.mp hp, hop r rfl]
          exact hcurr
        · cases hp
    | signal n => cases hp
    | reset n => cases hp
    | leave r => cases hp
  apply hnone
  intro p hp
  unfold Xinu.semOp at hp
  repeat' split at hp
  all_goals cases hp
  rfl

theorem SemsOk.nodup (h : SemsOk g s) (hQ : SemAs s sem Q) : Q.waiters.Nodup := by
  rw [hQ.waiters]
  exact (tablesAgree_of_good h.plain.good h.plain.calm).nodup _

/-- The observer sees the operation. -/
theorem SemsOk.observed (h : SemsOk g s) (henv : SemCalls s l) (hstep : s.step l = some s')
    (hgood : ¬ isbadsem sem) (hQ : SemAs s sem Q) :
    s.joined s' sem = Q.joins (s.semOp sem l) ∧
      s.released s' sem = Q.releases (s.semOp sem l) ∧
      s.killed s' sem = Q.quits (s.semOp sem l) := by
  have hS := h.semStep henv hstep hgood hQ
  have hfresh := h.joins_fresh (l := l) hQ
  have hdeparted : s.departed s' sem =
      Q.releases (s.semOp sem l) ++ Q.quits (s.semOp sem l) := by
    unfold Xinu.departed
    rw [← hQ.waiters, ← hS.as.waiters]
    exact filter_left (h.nodup hQ)
  have halive := hS.alive
  have hfreed := hS.freed
  have hdead : ∀ p ∈ Q.quits (s.semOp sem l), ¬ s'.Alive p := by
    intro p hp ha
    unfold Xinu.Alive at ha
    rw [hfreed p hp] at ha
    rcases ha with ha | ha
    · cases ha
    · cases ha
  have hlive : ∀ p ∈ Q.releases (s.semOp sem l), ¬ (s'.proctab p).prstate = .free := by
    intro p hp hf
    have ha := halive p hp
    unfold Xinu.Alive at ha
    rw [hf] at ha
    rcases ha with ha | ha
    · cases ha
    · cases ha
  constructor
  · unfold Xinu.joined
    rw [← hQ.waiters, ← hS.as.waiters]
    exact filter_joins hfresh
  · constructor
    · unfold Xinu.released
      rw [hdeparted, List.filter_append]
      have hall : ((Q.releases (s.semOp sem l)).filter fun p => decide (s'.Alive p)) =
          Q.releases (s.semOp sem l) :=
        List.filter_eq_self.mpr fun p hp => decide_eq_true (halive p hp)
      have hnone : ((Q.quits (s.semOp sem l)).filter fun p => decide (s'.Alive p)) = [] :=
        List.filter_eq_nil_iff.mpr fun p hp => by simpa using hdead p hp
      rw [hall, hnone, List.append_nil]
    · unfold Xinu.killed
      rw [hdeparted, List.filter_append]
      have hall : ((Q.quits (s.semOp sem l)).filter fun p =>
          decide ((s'.proctab p).prstate = .free)) = Q.quits (s.semOp sem l) :=
        List.filter_eq_self.mpr fun p hp => decide_eq_true (hfreed p hp)
      have hnone : ((Q.releases (s.semOp sem l)).filter fun p =>
          decide ((s'.proctab p).prstate = .free)) = [] :=
        List.filter_eq_nil_iff.mpr fun p hp => by simpa using hlive p hp
      rw [hall, hnone, List.nil_append]

/-- The notes go on being fair. -/
theorem SemsOk.fair_step {logs : Int → Log Int} (h : SemsOk g s) (henv : SemCalls s l)
    (hstep : s.step l = some s') (hgood : ¬ isbadsem sem)
    (hfair : (logs sem).Fair (s.semWaiters sem)) :
    (noteQueues logs s l s' sem).Fair (s'.semWaiters sem) := by
  rcases h.queue sem hgood with ⟨Q, hQ⟩
  have hS := h.semStep henv hstep hgood hQ
  rcases h.observed henv hstep hgood hQ with ⟨hjoined, hreleased, hkilled⟩
  unfold noteQueues
  rw [hjoined, hreleased, hkilled, ← hS.as.waiters]
  rw [← hQ.waiters] at hfair
  exact hfair.add (apply_sublist Q _) (apply_perm Q _)

theorem SemsOk.firstCome {logs : Int → Log Int} (h : SemsOk g s)
    (hfair : ∀ sem, ¬ isbadsem sem → (logs sem).Fair (s.semWaiters sem)) :
    FirstCome s logs := by
  constructor
  · intro sem hgood hused
    rcases h.queue sem hgood with ⟨Q, hQ⟩
    have hcount : Q.count = (s.semtab sem).scount := by
      rw [hQ.count]
      exact if_pos hused
    rw [← hQ.waiters, ← hcount]
    exact ⟨length_of_neg, nil_of_nonneg⟩
  · exact hfair
  · intro l s' henv hstep sem hu n hn
    rcases h.queue sem hu.1 with ⟨Q, hQ⟩
    have hcount : Q.count = (s.semtab sem).scount := by
      rw [hQ.count]
      exact if_pos hu.2
    have hop : s.semOp sem l = .signal n := by
      unfold Xinu.units at hn
      split at hn
      · split at hn
        · rename_i hi
          cases hn
          exact if_pos ⟨hi, hu⟩
        · cases hn
      · split at hn
        · rename_i hi
          cases hn
          exact if_pos ⟨hi.1, hi.2, hu⟩
        · cases hn
      · cases hn
    have hreleased := (h.observed henv hstep hu.1 hQ).2.1
    rw [hop] at hreleased
    rw [hreleased, ← hQ.waiters, ← hcount]
    exact ⟨rfl, releases_signal_length Q n⟩

end

/-- In every run of semaphore calls, kills and other calls, the count of a
semaphore says how many wait, and waiters are released in the order in which
they came, one for each unit. -/
theorem semaphores_first_come {t : Xinu × (Int → Log Int)}
    (h : Reach (observed Xinu.step noteQueues) (fun t => SemCalls t.1)
      (fun t => Booted t.1 ∧ t.2 = fun _ => ⟨[], [], []⟩) t) :
    FirstCome t.1 t.2 := by
  have hinv : ∃ g, SemsOk g t.1 ∧
      ∀ sem, ¬ isbadsem sem → (t.2 sem).Fair (t.1.semWaiters sem) := by
    apply h.invariant
    · intro t ht
      rcases SemsOk.boot ht.1 with ⟨g, hg⟩
      refine ⟨g, hg, ?_⟩
      intro sem hgood
      rcases ht.1 with ⟨mem, rand, hs⟩
      have hnil : t.1.semWaiters sem = [] := by
        rw [hs]
        exact (sysinit_good .plain mem rand).ok.inv.waiters_eq hgood
      rw [ht.2, hnil]
      exact Log.fair_nil
    · intro t l t' _ hI henv hstep
      rcases hI with ⟨g, hg, hfair⟩
      rcases observed_eq hstep with ⟨hs, hrecord⟩
      rcases hg.step henv hs with ⟨g', _, hg'⟩
      refine ⟨g', hg', ?_⟩
      intro sem hgood
      rw [hrecord]
      exact hg.fair_step henv hs hgood (hfair sem hgood)
  rcases hinv with ⟨g, hg, hfair⟩
  exact hg.firstCome hfair

/-- Of three waiters the second is killed, and the first is released. -/
theorem semaphores_first_come_three :
    ∃ t : Xinu × (Int → Log Int), ((t.1.semtab 0).scount = -1 ∧
      t.2 0 = { arrived := [2, 3, 4], released := [2], quit := [3] }) ∧
      FirstCome t.1 t.2 := by
  have hrun : ∃ t, Reach (observed Xinu.step noteQueues) (fun t => SemCalls t.1)
      (fun t => Booted t.1 ∧ t.2 = fun _ => ⟨[], [], []⟩) t ∧
      ((t.1.semtab 0).scount = -1 ∧
        t.2 0 = { arrived := [2, 3, 4], released := [2], quit := [3] }) :=
    exists_reach_of_follow (observed Xinu.step noteQueues) (fun t => SemCalls t.1)
      (s := (sampleBoot, fun _ => ⟨[], [], []⟩)) (by exact ⟨booted_sample, rfl⟩)
    [.call (.create 4096 20), .call (.resume 1), .call (.semcreate 0),
      .call (.create 4096 30), .call (.resume 2), .call (.wait 0), .cont,
      .call (.create 4096 30), .call (.resume 3), .call (.wait 0), .cont,
      .call (.create 4096 30), .call (.resume 4), .call (.wait 0), .cont,
      .call (.kill 3), .cont, .call (.signal 0)]
    (fun t => (t.1.semtab 0).scount = -1 ∧
      t.2 0 = { arrived := [2, 3, 4], released := [2], quit := [3] })
    (by decide +kernel)
  rcases hrun with ⟨t, ht, hp⟩
  exact ⟨t, hp, semaphores_first_come ht⟩

end BbbXinu
