import BbbXinu.Invariant.Kill

/-!
# Switching the scheduler

The loop of {lit}`set_scheduler` drains the ready list into the scratch list,
and {lit}`copyqueue` moves everything back.  While the loop runs the ready
processes are not where their state says, so it is described by the lists alone;
the invariant holds again at the end.
-/

namespace BbbXinu

open LinkedLists KeyedLists

/-- The value that {lit}`setprio` returns in a round of the loop. -/
def Xinu.roundPrio (s : Xinu) : Int :=
  (((s.dequeue readylist).2.setReadycount
    (uint16 ((s.dequeue readylist).2.readycount - 1))).setprio (s.dequeue readylist).1).1

/-- The two states differ in links, keys, priorities and the ready count. -/
structure Requeue (s s' : Xinu) : Prop where
  prstate : ∀ p, (s'.proctab p).prstate = (s.proctab p).prstate
  prsem : ∀ p, (s'.proctab p).prsem = (s.proctab p).prsem
  squeue : ∀ i, (s'.semtab i).squeue = (s.semtab i).squeue
  rwbtab : s'.rwbtab = s.rwbtab
  rwbflags : s'.rwbflags = s.rwbflags
  frames : ∀ p, (s'.stack p).filter Frame.tracked = (s.stack p).filter Frame.tracked
  currpid : s'.currpid = s.currpid
  defer : s'.defer = s.defer
  nextrwb : s'.nextrwb = s.nextrwb

section

variable {w : Watch} {g : View} {s s' s'' : Xinu} {p : Int} {L : Int → List Int}
  {l l' m : List Int}

theorem Requeue.refl (s : Xinu) : Requeue s s :=
  ⟨fun _ => rfl, fun _ => rfl, fun _ => rfl, rfl, rfl, fun _ => rfl, rfl, rfl, rfl⟩

theorem Requeue.trans (h : Requeue s s') (h' : Requeue s' s'') : Requeue s s'' where
  prstate := fun p => (h'.prstate p).trans (h.prstate p)
  prsem := fun p => (h'.prsem p).trans (h.prsem p)
  squeue := fun i => (h'.squeue i).trans (h.squeue i)
  rwbtab := h'.rwbtab.trans h.rwbtab
  rwbflags := h'.rwbflags.trans h.rwbflags
  frames := fun p => (h'.frames p).trans (h.frames p)
  currpid := h'.currpid.trans h.currpid
  defer := h'.defer.trans h.defer
  nextrwb := h'.nextrwb.trans h.nextrwb

theorem Requeue.of_quiet (h : Quiet s s') : Requeue s s' :=
  ⟨h.prstate, h.prsem, h.squeue, h.rwbtab, h.rwbflags, h.frames, h.currpid, h.defer,
    h.nextrwb⟩

theorem requeue_setQueuetab (s : Xinu) (t : Int → Qentry) : Requeue s (s.setQueuetab t) :=
  ⟨fun _ => rfl, fun _ => rfl, fun _ => rfl, rfl, rfl, fun _ => rfl, rfl, rfl, rfl⟩

theorem requeue_setReadycount (s : Xinu) (n : Nat) : Requeue s (s.setReadycount n) :=
  ⟨fun _ => rfl, fun _ => rfl, fun _ => rfl, rfl, rfl, fun _ => rfl, rfl, rfl, rfl⟩

theorem requeue_setEnv (s : Xinu) (i value : Nat) : Requeue s (s.setEnv i value) :=
  ⟨fun _ => rfl, fun _ => rfl, fun _ => rfl, rfl, rfl, fun _ => rfl, rfl, rfl, rfl⟩

theorem requeue_setPrprio (s : Xinu) (p prio : Int) :
    Requeue s (s.setProc p fun e => { e with prprio := prio }) where
  prstate := fun r => by
    by_cases h : r = p
    · rw [h, setProc_self]
    · rw [setProc_of_ne s _ h]
  prsem := fun r => by
    by_cases h : r = p
    · rw [h, setProc_self]
    · rw [setProc_of_ne s _ h]
  squeue := fun _ => rfl
  rwbtab := rfl
  rwbflags := rfl
  frames := fun _ => rfl
  currpid := rfl
  defer := rfl
  nextrwb := rfl

/-!
## One round
-/

/-- What a round does with the process it takes off the ready list. -/
structure Round (s s' : Xinu) (p : Int) : Prop where
  visit : (s.dequeue readylist).1 = p
  requeue : Requeue s s'
  prprio_self : (s'.proctab p).prprio = s.roundPrio
  prprio_of_ne : ∀ r, r ≠ p → (s'.proctab r).prprio = (s.proctab r).prprio
  qkey_self : (s'.queuetab p).qkey = s.roundPrio
  qkey_of_ne : ∀ i, i ≠ p → (s'.queuetab i).qkey = (s.queuetab i).qkey
  readycount : 1 ≤ s.readycount → s.readycount ≤ 100 → s'.readycount = s.readycount

theorem uint16_pred_succ {n : Nat} (h₁ : 1 ≤ n) (h₂ : n ≤ 100) :
    uint16 ((uint16 ((n : Int) - 1) : Nat) + 1) = n := by
  cases n with
  | zero => exact absurd h₁ (by decide)
  | succ n =>
      rw [uint16_pred h₂]
      exact uint16_succ (Nat.le_of_succ_le h₂)

theorem round_nil (hQ : Queues s.queuetab L) (hL : L readylist = []) :
    s.setSchedulerRound = s.setReadycount (uint16 (s.readycount - 1)) := by
  unfold Xinu.setSchedulerRound
  rw [Xinu.dequeue_nil hQ isQueue_readylist hL]
  exact if_pos (isbadpid_empty _)

theorem round_cons (hQ : Queues s.queuetab L) (hS : Sentinels s.queuetab)
    (hL : L readylist = p :: l) (hbad : ¬ s.isbadpid p) :
    Round s s.setSchedulerRound p ∧
      Queues s.setSchedulerRound.queuetab (upd (upd L readylist l) scratchlist
        (insertKey (fun p => (s.queuetab p).qkey) p s.roundPrio (L scratchlist))) := by
  rcases Xinu.dequeue_cons hQ isQueue_readylist hL with ⟨t, ht, hQ₁, hk₁⟩
  have hprio : s.roundPrio = (((s.setQueuetab t).setReadycount
      (uint16 ((s.setQueuetab t).readycount - 1))).setprio p).1 := by
    unfold Xinu.roundPrio
    rw [ht]
  have hvisit : (s.dequeue readylist).1 = p := by rw [ht]
  rw [hprio]
  unfold Xinu.setSchedulerRound
  rw [ht]
  dsimp only
  have hr₁ := (requeue_setQueuetab s t).trans (requeue_setReadycount (s.setQueuetab t)
    (uint16 ((s.setQueuetab t).readycount - 1)))
  have hprio₁ : ∀ r, (((s.setQueuetab t).setReadycount
      (uint16 ((s.setQueuetab t).readycount - 1))).proctab r).prprio =
        (s.proctab r).prprio := fun _ => rfl
  have htab₁ : ((s.setQueuetab t).setReadycount
      (uint16 ((s.setQueuetab t).readycount - 1))).queuetab = t := rfl
  have hcount₁ : ((s.setQueuetab t).setReadycount
      (uint16 ((s.setQueuetab t).readycount - 1))).readycount =
        uint16 ((s.readycount : Int) - 1) := rfl
  have hbad₁ : ¬ ((s.setQueuetab t).setReadycount
      (uint16 ((s.setQueuetab t).readycount - 1))).isbadpid p := hbad
  generalize (s.setQueuetab t).setReadycount
    (uint16 ((s.setQueuetab t).readycount - 1)) = s₁ at hprio hr₁ hprio₁ htab₁ hcount₁ hbad₁ ⊢
  rw [if_neg hbad₁]
  have hnonneg := setprio_nonneg hbad₁
  have hq₂ := quiet_setprio s₁ p
  have hbad₂ : ¬ (s₁.setprio p).2.isbadpid p := by
    rw [Xinu.not_isbadpid_iff, hq₂.prstate]
    exact Xinu.not_isbadpid_iff.mp hbad₁
  generalize (s₁.setprio p).1 = prio at hprio hnonneg ⊢
  generalize (s₁.setprio p).2 = s₂ at hq₂ hbad₂ ⊢
  have hself := setProc_self s₂ p fun e => { e with prprio := prio }
  have hother := fun r h => setProc_of_ne s₂ (p := r) (x := p)
    (fun e => { e with prprio := prio }) h
  have hr₃ := (hr₁.trans (Requeue.of_quiet hq₂)).trans (requeue_setPrprio s₂ p prio)
  have htab₃ : (s₂.setProc p fun e => { e with prprio := prio }).queuetab = t :=
    hq₂.queuetab.trans htab₁
  have hcount₃ : (s₂.setProc p fun e => { e with prprio := prio }).readycount =
      uint16 ((s.readycount : Int) - 1) := hq₂.readycount.trans hcount₁
  have hbad₃ : ¬ (s₂.setProc p fun e => { e with prprio := prio }).isbadpid p := by
    rw [Xinu.not_isbadpid_iff, hself]
    exact Xinu.not_isbadpid_iff.mp hbad₂
  generalize (s₂.setProc p fun e => { e with prprio := prio }) = s₃ at *
  have hprio₃ : (s₃.proctab p).prprio = prio := by rw [hself]
  rw [hprio₃]
  have hS₃ : Sentinels s₃.queuetab := by
    rw [htab₃]
    exact hS.congr fun i _ => hk₁ i
  have hkey : MINKEY < prio := by
    have h1 : MINKEY < 0 := by decide
    omega
  rcases Xinu.insert_spec (L := upd L readylist l) (by rw [htab₃]; exact hQ₁) hS₃
    isQueue_scratchlist hbad₃ (fun r hr => Xinu.off_of_removed hQ isQueue_readylist hL hr)
    hkey with ⟨t', ht', hQ', hself', hother'⟩
  rw [ht']
  refine ⟨⟨hvisit, ?_, ?_, ?_, ?_, ?_, ?_⟩, ?_⟩
  · exact (hr₃.trans (requeue_setQueuetab s₃ t')).trans (requeue_setReadycount _ _)
  · rw [hprio]
    exact hprio₃
  · intro r hr
    show (s₃.proctab r).prprio = _
    rw [hother r hr, hq₂.prprio]
    exact hprio₁ r
  · rw [hprio]
    exact hself'
  · intro i hi
    show (t' i).qkey = _
    rw [hother' i hi, htab₃]
    exact hk₁ i
  · intro h1 h2
    show uint16 ((s₃.readycount : Int) + 1) = _
    rw [hcount₃]
    exact uint16_pred_succ h1 h2
  · have hkeys : (fun p => (s₃.queuetab p).qkey) = fun p => (s.queuetab p).qkey := by
      rw [htab₃]
      funext i
      exact hk₁ i
    rw [hkeys, upd_of_ne (by decide)] at hQ'
    exact hQ'

/-!
## The loop
-/

/-- What the loop does to the processes that were on the ready list; the list
{lit}`m` is what it leaves on the scratch list. -/
structure Drained (n : Nat) (s : Xinu) (L : Int → List Int) (l m : List Int) : Prop where
  perm : m.Perm (l ++ L scratchlist)
  queues : Queues (Xinu.setSchedulerLoop n s).queuetab
    (upd (upd L readylist []) scratchlist m)
  descending : Descending (fun p => ((Xinu.setSchedulerLoop n s).queuetab p).qkey) m
  requeue : Requeue s (Xinu.setSchedulerLoop n s)
  visits : ∀ k p, l[k]? = some p →
    ((Xinu.setSchedulerLoop k s).dequeue readylist).1 = p
  values : ∀ k p, l[k]? = some p →
    ((Xinu.setSchedulerLoop n s).proctab p).prprio = (Xinu.setSchedulerLoop k s).roundPrio ∧
      ((Xinu.setSchedulerLoop n s).queuetab p).qkey = (Xinu.setSchedulerLoop k s).roundPrio
  prprio_of_off : ∀ p, p ∉ l →
    ((Xinu.setSchedulerLoop n s).proctab p).prprio = (s.proctab p).prprio
  qkey_of_off : ∀ i, i ∉ l →
    ((Xinu.setSchedulerLoop n s).queuetab i).qkey = (s.queuetab i).qkey
  readycount : n = l.length → n ≤ s.readycount → s.readycount ≤ 100 →
    (Xinu.setSchedulerLoop n s).readycount = s.readycount

theorem upd_drain (m : List Int) :
    upd (upd (upd (upd L readylist l) scratchlist l') readylist []) scratchlist m =
      upd (upd L readylist []) scratchlist m := by
  funext q
  simp only [upd_apply]
  split
  · rfl
  · split
    · rfl
    · rfl

theorem drained_nil (n : Nat) (hQ : Queues s.queuetab L) (hL : L readylist = [])
    (hdesc : Descending (fun p => (s.queuetab p).qkey) (L scratchlist)) :
    Drained n s L [] (L scratchlist) := by
  have hsame : upd (upd L readylist []) scratchlist (L scratchlist) = L := by
    rw [upd_eq_self hL, upd_eq_self rfl]
  have hloop : (Xinu.setSchedulerLoop n s).queuetab = s.queuetab ∧
      (Xinu.setSchedulerLoop n s).proctab = s.proctab ∧
      Requeue s (Xinu.setSchedulerLoop n s) ∧
      (n = 0 → Xinu.setSchedulerLoop n s = s) := by
    induction n generalizing s with
    | zero => exact ⟨rfl, rfl, Requeue.refl s, fun _ => rfl⟩
    | succ n ih =>
        unfold Xinu.setSchedulerLoop
        rw [round_nil hQ hL]
        rcases ih (s := s.setReadycount (uint16 (s.readycount - 1))) hQ hdesc with
          ⟨h1, h2, h3, _⟩
        exact ⟨h1, h2, (requeue_setReadycount s _).trans h3, fun h => by cases h⟩
  rcases hloop with ⟨htab, hproc, hreq, hzero⟩
  constructor
  · exact List.Perm.refl _
  · rw [hsame, htab]
    exact hQ
  · rw [htab]
    exact hdesc
  · exact hreq
  · intro k p h
    cases h
  · intro k p h
    cases h
  · intro p _
    rw [hproc]
  · intro i _
    rw [htab]
  · intro h _ _
    rw [hzero h]

theorem loop_spec (n : Nat) (hQ : Queues s.queuetab L) (hS : Sentinels s.queuetab)
    (hL : L readylist = l) (hlive : ∀ p ∈ l, ¬ s.isbadpid p)
    (hdesc : Descending (fun p => (s.queuetab p).qkey) (L scratchlist))
    (hlen : l.length ≤ n) : ∃ m, Drained n s L l m := by
  induction l generalizing n s L with
  | nil => exact ⟨L scratchlist, drained_nil n hQ hL hdesc⟩
  | cons p l ih =>
      cases n with
      | zero => exact absurd hlen (Nat.not_succ_le_zero _)
      | succ n =>
          have hbad := hlive p List.mem_cons_self
          have hv : ValidPid p := (Xinu.not_isbadpid_iff.mp hbad).1
          have hnd : (p :: l).Nodup := hL ▸ hQ.nodup isQueue_readylist
          have hpl : p ∉ l := (List.nodup_cons.mp hnd).1
          rcases round_cons hQ hS hL hbad with ⟨hround, hQ₁⟩
          have hoff : ∀ y ∈ L scratchlist, y ≠ p := by
            intro y hy he
            have h1 : p ∈ L readylist := by
              rw [hL]
              exact List.mem_cons_self
            exact absurd (hQ.disjoint isQueue_scratchlist isQueue_readylist (he ▸ hy) h1)
              (by decide)
          have hloop : ∀ k, Xinu.setSchedulerLoop (k + 1) s =
              Xinu.setSchedulerLoop k s.setSchedulerRound := fun _ => rfl
          generalize s.setSchedulerRound = s₁ at hround hQ₁ hloop
          have hS₁ : Sentinels s₁.queuetab := by
            apply hS.congr
            intro i hi
            apply hround.qkey_of_ne
            have h1 := hv.2
            omega
          have hlive₁ : ∀ r ∈ l, ¬ s₁.isbadpid r := by
            intro r hr
            rw [Xinu.not_isbadpid_iff, hround.requeue.prstate]
            exact Xinu.not_isbadpid_iff.mp (hlive r (List.mem_cons_of_mem p hr))
          rcases ih (s := s₁) n hQ₁ hS₁ (by rw [upd_of_ne (by decide), upd_self]) hlive₁
            (by
              rw [upd_self]
              exact hdesc.insertKey hround.qkey_self fun y hy =>
                hround.qkey_of_ne y (hoff y hy))
            (Nat.le_of_succ_le_succ hlen) with ⟨m, hm⟩
          refine ⟨m, ?_, ?_, ?_, ?_, ?_, ?_, ?_, ?_, ?_⟩
          · have h1 := hm.perm
            rw [upd_self] at h1
            apply h1.trans
            exact (List.Perm.append_left l insertKey_perm).trans List.perm_middle
          · have h1 := hm.queues
            rw [upd_drain] at h1
            rw [hloop]
            exact h1
          · rw [hloop]
            exact hm.descending
          · rw [hloop]
            exact hround.requeue.trans hm.requeue
          · intro k r hk
            cases k with
            | zero => exact hround.visit.trans (Option.some.inj hk)
            | succ k =>
                rw [hloop]
                exact hm.visits k r hk
          · intro k r hk
            rw [hloop]
            cases k with
            | zero =>
                have hr : p = r := Option.some.inj hk
                rw [← hr, hm.prprio_of_off p hpl, hm.qkey_of_off p hpl]
                exact ⟨hround.prprio_self, hround.qkey_self⟩
            | succ k =>
                rw [hloop]
                exact hm.values k r hk
          · intro r hr
            rw [hloop, hm.prprio_of_off r fun h => hr (List.mem_cons_of_mem p h)]
            exact hround.prprio_of_ne r fun h => hr (h ▸ List.mem_cons_self)
          · intro i hi
            rw [hloop, hm.qkey_of_off i fun h => hi (List.mem_cons_of_mem p h)]
            exact hround.qkey_of_ne i fun h => hi (h ▸ List.mem_cons_self)
          · intro h1 h2 h3
            have hc := hround.readycount (by omega) h3
            rw [hloop, hm.readycount (Nat.succ.inj h1) (by omega) (by omega)]
            exact hc

/-!
## The call
-/

theorem quiet_recordAll (l : List Int) (s : Xinu) : Quiet s (Xinu.recordAll l s) := by
  induction l generalizing s with
  | nil => exact Quiet.refl s
  | cons i l ih =>
      unfold Xinu.recordAll
      refine Quiet.trans ?_ (ih _)
      split
      · exact quiet_recordCpuqdata s i
      · exact Quiet.refl s

/-- What a change of the scheduler does to the ready list. -/
structure Rescheduled (s : Xinu) (newval : Nat) : Prop where
  links : Queues (s.setScheduler newval).queuetab (lists (s.setScheduler newval).queuetab)
  perm : (lists (s.setScheduler newval).queuetab readylist).Perm
    (lists s.queuetab readylist)
  descending : Descending (fun p => ((s.setScheduler newval).queuetab p).qkey)
    (lists (s.setScheduler newval).queuetab readylist)
  values : ∀ k p, (lists s.queuetab readylist)[k]? = some p →
    ((s.setScheduler newval).proctab p).prprio =
        (Xinu.setSchedulerLoop k (s.setEnv EV_SCHEDULER newval)).roundPrio ∧
      ((s.setScheduler newval).queuetab p).qkey =
        ((s.setScheduler newval).proctab p).prprio
  scratch : lists (s.setScheduler newval).queuetab scratchlist = []

/-- Nobody belongs on the scratch list. -/
theorem Inv.scratch_nil (hI : Inv w g EMPTY s) : lists s.queuetab scratchlist = [] := by
  cases hL : lists s.queuetab scratchlist with
  | nil => rfl
  | cons p l =>
      have hmem : p ∈ lists s.queuetab scratchlist := by
        rw [hL]
        exact List.mem_cons_self
      have hhome := ((hI.mem_iff scratchlist p).mp hmem).1
      unfold home at hhome
      cases hc : (s.proctab p).prstate with
      | ready =>
          rw [hc] at hhome
          exact absurd (Option.some.inj hhome) (by decide)
      | sleep =>
          rw [hc] at hhome
          exact absurd (Option.some.inj hhome) (by decide)
      | rectim =>
          rw [hc] at hhome
          exact absurd (Option.some.inj hhome) (by decide)
      | wait =>
          rw [hc] at hhome
          have h1 : waitq (s.proctab p).prsem = scratchlist := Option.some.inj hhome
          rcases hI.waits_on p hc with h | ⟨h, hb⟩
          · rw [waitq_sem h] at h1
            have h2 := semq_lt h
            rw [h1] at h2
            exact absurd h2 (by decide)
          · unfold waitq at h1
            rw [if_pos h] at h1
            exact absurd h1 (rwq_ne_scratchlist hb)
      | free => simp [hc] at hhome
      | curr => simp [hc] at hhome
      | recv => simp [hc] at hhome
      | susp => simp [hc] at hhome

/-- While a user process runs, the null process is ready. -/
theorem Inv.null_ready (hI : Inv w g EMPTY s) (hnull : s.currpid ≠ NULLPROC) :
    NULLPROC ∈ lists s.queuetab readylist := by
  apply hI.mem_readylist
  · rcases hI.null_state with h | h
    · exact absurd (hI.curr_unique _ h).symm hnull
    · exact h
  · exact fun h => (hI.limbo _ h).2.1 rfl

/-- The tables agree again once the processes are back on the ready list. -/
theorem Inv.requeued (hI : Inv w g EMPTY s) (hr : Requeue s s') (hkeys : ¬ w.keys)
    (hQ : Queues s'.queuetab (upd (lists s.queuetab) readylist m))
    (hm : m.Perm (lists s.queuetab readylist))
    (hoff : ∀ i, i ∉ lists s.queuetab readylist →
      (s'.queuetab i).qkey = (s.queuetab i).qkey)
    (hcount : w.count → s'.readycount = s.readycount) : Inv w g EMPTY s' := by
  have hl := hQ.lists_upd isQueue_readylist
  have hmem : ∀ q p, p ∈ lists s'.queuetab q ↔ p ∈ lists s.queuetab q := by
    intro q p
    rw [hl, upd_apply]
    split
    · rename_i hq
      rw [hq]
      exact hm.mem_iff
    · exact Iff.rfl
  have hhome : ∀ p, home (s'.proctab p) = home (s.proctab p) :=
    fun p => home_congr (hr.prstate p) (hr.prsem p)
  have hsent : ∀ i, NPROC ≤ i → (s'.queuetab i).qkey = (s.queuetab i).qkey := by
    intro i hi
    apply hoff
    intro h
    have h1 := (hI.queues.node isQueue_readylist h).2
    omega
  have hlists : ∀ q, q ≠ readylist → lists s'.queuetab q = lists s.queuetab q := by
    intro q hq
    rw [hl, upd_of_ne hq]
  exact {
    queues := hQ.canon
    sentinels := hI.sentinels.congr hsent
    mem_iff := fun q p => by
      rw [hmem, hhome]
      exact hI.mem_iff q p
    home_queue := fun p q h => hI.home_queue p q (hhome p ▸ h)
    waits_on := fun p h => by
      rw [hr.prsem]
      exact hI.waits_on p (hr.prstate p ▸ h)
    live := fun p => by
      rw [hr.prstate]
      exact hI.live p
    limbo := fun p h => by
      rw [hr.prstate]
      exact hI.limbo p h
    lost := fun p h => by
      rw [hr.prstate]
      exact hI.lost p h
    squeue := fun i h => by
      rw [hr.squeue]
      exact hI.squeue i h
    rwqueue := fun b h => by
      rw [hr.rwbtab]
      exact hI.rwqueue b h
    valid_curr := by
      rw [hr.currpid]
      exact hI.valid_curr
    valid_nextrwb := by
      rw [hr.nextrwb]
      exact hI.valid_nextrwb
    curr_unique := fun p h => by
      rw [hr.currpid]
      exact hI.curr_unique p (hr.prstate p ▸ h)
    null_state := by
      rw [hr.prstate]
      exact hI.null_state
    lists_eq := fun q hq => (hlists q hq).trans (hI.lists_eq q hq)
    tab := hr.rwbtab.trans hI.tab
    flags := hr.rwbflags.trans hI.flags
    frames := fun p => (hr.frames p).trans (hI.frames p)
    defers := by
      rw [hr.defer]
      exact hI.defers
    count := fun hw => by
      rw [hcount hw, hI.count hw, hl, upd_self, hm.length_eq]
    scheduler := fun hw => absurd hw hkeys
    descending := fun hw => absurd hw hkeys
    keys := fun hw => absurd hw hkeys
    delta := fun hw => by
      rw [hlists sleepq (by decide)]
      apply (hI.delta hw).congr _ fun _ _ => rfl
      intro p hp
      apply hoff
      intro h
      exact absurd (hI.queues.disjoint isQueue_sleepq isQueue_readylist hp h) (by decide) }

theorem setScheduler_changed (hO : Ok w g s) {newval : Nat}
    (hne : s.envtab EV_SCHEDULER ≠ newval) (hkeys : ¬ w.keys)
    (hnull : s.currpid ≠ NULLPROC)
    (hready : (lists s.queuetab readylist).length ≤ s.readycount) :
    Ok w g (s.setScheduler newval) ∧ Rescheduled s newval := by
  have hI := hO.inv
  have hscratch := hI.scratch_nil
  have hempty : s.isempty scratchlist :=
    (Xinu.isempty_iff hI.queues isQueue_scratchlist).mpr hscratch
  have hlive : ∀ p ∈ lists s.queuetab readylist,
      ¬ (s.setEnv EV_SCHEDULER newval).isbadpid p :=
    fun p hp => (hI.good_of_mem hp : ¬ s.isbadpid p)
  rcases loop_spec (s := s.setEnv EV_SCHEDULER newval) s.readycount hI.queues hI.sentinels rfl
    hlive (by
      rw [hscratch]
      exact List.Pairwise.nil) hready with ⟨m, hm⟩
  have hperm := hm.perm
  rw [hscratch, List.append_nil] at hperm
  have hmne : m ≠ [] := by
    rintro rfl
    exact List.not_mem_nil (hperm.mem_iff.mpr (hI.null_ready hnull))
  have hreq := (requeue_setEnv s EV_SCHEDULER newval).trans hm.requeue
  have hvalues := hm.values
  have hqkey : ∀ i, i ∉ lists s.queuetab readylist → _ = (s.queuetab i).qkey := hm.qkey_of_off
  have hdesc := hm.descending
  have hcount : s.readycount = (lists s.queuetab readylist).length → _ ≤ s.readycount →
    s.readycount ≤ 100 → _ = s.readycount := hm.readycount
  have hQ := hm.queues
  have hcall : ∃ s', Quiet ((Xinu.setSchedulerLoop s.readycount
      (s.setEnv EV_SCHEDULER newval)).copyqueue scratchlist readylist) s' ∧
      s.setScheduler newval = s' := by
    unfold Xinu.setScheduler
    rw [if_neg (not_not.mpr hempty)]
    dsimp only
    rw [if_pos hne]
    refine ⟨_, Quiet.trans ?_ (quiet_ret _ OK), rfl⟩
    show Quiet ((Xinu.setSchedulerLoop s.readycount
      (s.setEnv EV_SCHEDULER newval)).copyqueue scratchlist readylist) _
    split
    · exact quiet_recordAll _ _
    · exact Quiet.refl _
  generalize Xinu.setSchedulerLoop s.readycount (s.setEnv EV_SCHEDULER newval) = s₁ at *
  rcases Xinu.copyqueue_spec hQ isQueue_scratchlist isQueue_readylist (by decide)
    (by
      rw [upd_self]
      exact hmne)
    (by rw [upd_of_ne (by decide), upd_self]) with ⟨t, ht, hQt, hkt⟩
  rcases hcall with ⟨s', hq, hs'⟩
  rw [ht] at hq
  have hlists : upd (upd (upd (upd (lists s.queuetab) readylist []) scratchlist m) readylist
      (upd (upd (lists s.queuetab) readylist []) scratchlist m scratchlist)) scratchlist [] =
        upd (lists s.queuetab) readylist m := by
    funext q
    simp only [upd_self, upd_apply]
    split
    · rename_i hq
      rw [hq, if_neg (by decide), hscratch]
    · split
      · rfl
      · rfl
  rw [hlists] at hQt
  have hQ' : Queues s'.queuetab (upd (lists s.queuetab) readylist m) := by
    rw [hq.queuetab]
    exact hQt
  have hkey' : ∀ i, (s'.queuetab i).qkey = (s₁.queuetab i).qkey := by
    intro i
    rw [hq.queuetab]
    exact hkt i
  have hprio' : ∀ p, (s'.proctab p).prprio = (s₁.proctab p).prprio := hq.prprio
  have hreq' : Requeue s s' :=
    (hreq.trans (requeue_setQueuetab s₁ t)).trans (Requeue.of_quiet hq)
  have hl := hQ'.lists_upd isQueue_readylist
  have hI' : Inv w g EMPTY s' := by
    apply hI.requeued hreq' hkeys hQ' hperm
    · intro i hi
      rw [hkey', hqkey i hi]
    · intro hw
      have h1 := hI.count hw
      have h2 := hI.length_le isQueue_readylist
      rw [hq.readycount]
      exact hcount h1 (Nat.le_refl _) (by omega)
  refine ⟨⟨hs' ▸ hI', ?_, fun hw => absurd hw hkeys⟩, ?_⟩
  · rw [hs', hreq'.currpid, hreq'.prstate]
    exact hO.curr
  · constructor
    · rw [hs']
      exact hI'.queues
    · rw [hs', hl, upd_self]
      exact hperm
    · rw [hs', hl, upd_self]
      exact hdesc.congr fun p _ => hkey' p
    · intro k p hk
      rw [hs', hkey', hprio']
      have h := hvalues k p hk
      exact ⟨h.1, h.2.trans h.1.symm⟩
    · rw [hs']
      exact hI'.scratch_nil

/-- {lit}`set_scheduler` called by a user process. -/
theorem setScheduler_ok (hO : Ok w g s) {newval : Nat}
    (hkeys : w.keys → newval = QTYPE_PRIORITY) (hnull : s.currpid ≠ NULLPROC)
    (hready : (lists s.queuetab readylist).length ≤ s.readycount) :
    Ok w g (s.setScheduler newval) := by
  by_cases hne : s.envtab EV_SCHEDULER = newval
  · have hempty : s.isempty scratchlist :=
      (Xinu.isempty_iff hO.inv.queues isQueue_scratchlist).mpr hO.inv.scratch_nil
    have hsame : s.setEnv EV_SCHEDULER newval = s := by
      unfold Xinu.setEnv
      rw [upd_eq_self hne]
    unfold Xinu.setScheduler
    rw [if_neg (not_not.mpr hempty)]
    dsimp only
    rw [if_neg (not_not.mpr hne), hsame]
    exact hO.ret _
  · apply (setScheduler_changed hO hne _ hnull hready).1
    intro hw
    exact hne ((hO.inv.scheduler hw).trans (hkeys hw).symm)

end

end BbbXinu
